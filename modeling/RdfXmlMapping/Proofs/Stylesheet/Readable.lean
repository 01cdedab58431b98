import RdfXmlMapping.Proofs.Xml.Reading
import RdfXmlMapping.Stylesheet.Basic

/-!
Instructions that can be read back. Their names and the keys of their attributes are fixed, so that
an instruction is readable if what stands inside it is.
-/

namespace RdfXmlMapping.Stylesheet

open Xml

variable {name : String}

theorem isReadable_leaf {name : String} {attributes : Attributes} (keys : List String)
    (named : attributes.map (·.1) = keys) (good : isTagName name && keys.all isKey) :
    isReadable (.leaf name attributes) := by
  obtain ⟨tag, all⟩ := (Bool.and_eq_true _ _).mp good
  rw [← named, List.all_map] at all
  exact (Bool.and_eq_true _ _).mpr ⟨tag, all⟩

theorem isReadable_node {name : String} {attributes : Attributes} (keys : List String)
    {body : List Element} (named : attributes.map (·.1) = keys)
    (good : isTagName name && keys.all isKey) :
    isReadable (.node name attributes body) = areReadable body := by
  change (isReadable (.leaf name attributes) && areReadable body) = areReadable body
  rw [isReadable_leaf keys named good, Bool.true_and]

/-- The instructions of stylesheets, each with the keys of its attributes. -/
def heads : List (String × List String) :=
  [("xsl:template", ["match"]), ("xsl:template", ["name"]), ("xsl:call-template", ["name"]),
    ("xsl:with-param", ["name", "select"]), ("xsl:for-each", ["select"]), ("xsl:if", ["test"]),
    ("xsl:value-of", ["select"]), ("xsl:copy-of", ["select"]),
    ("xsl:attribute", ["name", "select"]), ("xsl:import", ["href"])]

theorem heads_good : ∀ h ∈ heads, isTagName h.1 && h.2.all isKey := by
  decide +kernel

variable {selection value : String} {body : List Element}

@[simp]
theorem isReadable_rule : isReadable (rule value body) = areReadable body :=
  isReadable_node _ rfl (heads_good (_, ["match"]) (by simp [heads]))

@[simp]
theorem isReadable_template : isReadable (template name body) = areReadable body :=
  isReadable_node _ rfl (heads_good (_, ["name"]) (by simp [heads]))

@[simp]
theorem isReadable_call : isReadable (call name body) = areReadable body :=
  isReadable_node _ rfl (heads_good (_, ["name"]) (by simp [heads]))

@[simp]
theorem isReadable_forEach : isReadable (forEach selection body) = areReadable body :=
  isReadable_node _ rfl (heads_good (_, ["select"]) (by simp [heads]))

@[simp]
theorem isReadable_onlyIf : isReadable (onlyIf selection body) = areReadable body :=
  isReadable_node _ rfl (heads_good (_, ["test"]) (by simp [heads]))

@[simp]
theorem isReadable_argument : isReadable (argument name value) :=
  isReadable_leaf _ rfl (heads_good (_, ["name", "select"]) (by simp [heads]))

@[simp]
theorem isReadable_plainCall : isReadable (plainCall name) :=
  isReadable_leaf _ rfl (heads_good (_, ["name"]) (by simp [heads]))

@[simp]
theorem isReadable_valueOf : isReadable (valueOf selection) :=
  isReadable_leaf _ rfl (heads_good (_, ["select"]) (by simp [heads]))

@[simp]
theorem isReadable_copyOf : isReadable (copyOf selection) :=
  isReadable_leaf _ rfl (heads_good (_, ["select"]) (by simp [heads]))

@[simp]
theorem isReadable_attributeOf : isReadable (attributeOf name selection) :=
  isReadable_leaf _ rfl (heads_good (_, ["name", "select"]) (by simp [heads]))

@[simp]
theorem isReadable_importOf : isReadable (importOf value) :=
  isReadable_leaf _ rfl (heads_good (_, ["href"]) (by simp [heads]))

/-- An element without attributes is readable if its name and its content are. -/
theorem isReadable_named (named : isTagName name) :
    isReadable (.node name [] body) = areReadable body :=
  isReadable_node [] rfl ((Bool.and_eq_true _ _).mpr ⟨named, rfl⟩)

theorem areReadable_flatMap {α : Type} {f : α → List Element} {xs : List α}
    (each : ∀ x ∈ xs, areReadable (f x)) : areReadable (xs.flatMap f) := by
  refine areReadable_iff.mpr fun e member => ?_
  obtain ⟨x, present, inside⟩ := List.mem_flatMap.mp member
  exact areReadable_iff.mp (each x present) e inside

end RdfXmlMapping.Stylesheet
