import RdfXmlMapping.Proofs.ClassNames
import RdfXmlMapping.Proofs.Import.Table
import RdfXmlMapping.Stylesheet.Basic

/-!
Calls of templates in a stylesheet, and the templates that they can reach: those that the stylesheet
defines at its top, and those of classes whose own stylesheets it imports.
-/

namespace RdfXmlMapping.Stylesheet

open Xml (Attributes Element)

def callee (name : String) (attributes : Attributes) : List String :=
  if name = "xsl:call-template" then (attributes.lookup "name").toList else []

mutual

/-- The templates that an element calls with all it holds. -/
def calls : Element → List String
  | .node name attributes children => callee name attributes ++ callsIn children
  | .leaf name attributes | .text name attributes _ => callee name attributes

def callsIn : List Element → List String
  | [] => []
  | e :: es => calls e ++ callsIn es

end

/-- The templates that a stylesheet defines, by name. -/
def definitions (es : List Element) : List String :=
  es.filterMap fun e => if e.name = "xsl:template" then e.attributes.lookup "name" else none

variable {es fs : List Element} {name : String}

@[simp]
theorem callsIn_append : callsIn (es ++ fs) = callsIn es ++ callsIn fs := by
  induction es with
  | nil => rfl
  | cons e es ih => simp [callsIn, ih]

theorem mem_callsIn : name ∈ callsIn es ↔ ∃ e ∈ es, name ∈ calls e := by
  induction es with
  | nil => simp [callsIn]
  | cons e es ih => simp [callsIn, ih]

theorem mem_callsIn_flatMap {α : Type} {xs : List α} {f : α → List Element} :
    name ∈ callsIn (xs.flatMap f) ↔ ∃ x ∈ xs, name ∈ callsIn (f x) := by
  induction xs with
  | nil => simp [callsIn]
  | cons x xs ih => simp [List.flatMap_cons, ih]

theorem mem_callsIn_map {α : Type} {xs : List α} {f : α → Element} :
    name ∈ callsIn (xs.map f) ↔ ∃ x ∈ xs, name ∈ calls (f x) := by
  simp [mem_callsIn]

/-- An element without a name attribute calls nothing by itself. -/
theorem callee_unnamed {tag : String} {attributes : Attributes}
    (unnamed : attributes.lookup "name" = none) : callee tag attributes = [] := by
  unfold callee
  rw [unnamed]
  split <;> rfl

theorem callee_other {tag : String} {attributes : Attributes} (other : tag ≠ "xsl:call-template") :
    callee tag attributes = [] := if_neg other

theorem calls_argument {value : String} : calls (argument name value) = [] := rfl

theorem calls_call {arguments : List Element} :
    calls (call name arguments) = name :: callsIn arguments := rfl

theorem calls_forEach {selection : String} : calls (forEach selection es) = callsIn es := rfl

theorem calls_onlyIf {test : String} : calls (onlyIf test es) = callsIn es := rfl

theorem calls_template : calls (template name es) = callsIn es := rfl

theorem calls_rule {pattern : String} : calls (rule pattern es) = callsIn es := rfl

theorem calls_plain {tag : String} : calls (.node tag [] es) = callsIn es := by
  rw [calls, callee_unnamed rfl, List.nil_append]

theorem definitions_append : definitions (es ++ fs) = definitions es ++ definitions fs :=
  List.filterMap_append ..

theorem definitions_nil
    (none : ∀ e ∈ es, e.name = "xsl:template" → e.attributes.lookup "name" = none) :
    definitions es = [] := by
  refine List.filterMap_eq_nil_iff.mpr fun e member => ?_
  by_cases tag : e.name = "xsl:template"
  · rw [if_pos tag, none e member tag]
  · rw [if_neg tag]

theorem definitions_templates {α : Type} {f : α → Element} {named : α → String}
    {body : α → List Element} (each : ∀ x, f x = template (named x) (body x)) (xs : List α) :
    definitions (xs.map f) = xs.map named := by
  rw [definitions, List.filterMap_map, ← List.filterMap_eq_map]
  refine List.filterMap_congr fun x _ => ?_
  rw [Function.comp_apply, each]
  rfl

/-! ### Templates within reach -/

/-- A template that the stylesheet of a model can call: one of its own, or that of a class whose own
stylesheet it imports. -/
inductive Resolves (o : Import.Outlook) (m : Model) (stylesheet : Element) : String → Prop
  | defined {name : String} : name ∈ definitions stylesheet.children → Resolves o m stylesheet name
  | imported {c : Class} {d : Import.Descriptor} : m.Knows c → m.isForeign c →
      o.resolve m c = .ok (some d) → importOf d.reference ∈ stylesheet.children →
      Resolves o m stylesheet (templateName c.iri)

def CallsResolve (o : Import.Outlook) (m : Model) (stylesheet : Element) : Prop :=
  ∀ name ∈ calls stylesheet, Resolves o m stylesheet name

/-- The codelists of the model's own specification that may be the root of a document have templates
within reach. -/
def CodelistRootsResolve (o : Import.Outlook) (m : Model) (stylesheet : Element) : Prop :=
  ∀ c, m.Owns c → m.isRoot c.iri → c.isCodelist → Resolves o m stylesheet (templateName c.iri)

/-- A class of the model's own specification, or one whose stylesheet has been imported. -/
inductive AtHand (o : Import.Outlook) (m : Model) (imports : Import.Table) (c : Class) : Prop
  | own : m.isForeign c = false → AtHand o m imports c
  | imported {d : Import.Descriptor} {e : Import.Entry} : o.resolve m c = .ok (some d) →
      e ∈ imports.entries → e.descriptor.reference = d.reference → AtHand o m imports c

variable {o : Import.Outlook} {m : Model} {t u : Import.Table} {c : Class}

theorem AtHand.mono (h : AtHand o m t c) (more : t.entries ⊆ u.entries) : AtHand o m u c := by
  cases h with
  | own own => exact .own own
  | imported resolved member same => exact .imported resolved (more member) same

theorem atHand_register {found : Option Import.Descriptor} (resolved : o.resolve m c = .ok found)
    (entered : u = found.elim t fun d => (t.register d).2) :
    t.entries ⊆ u.entries ∧ AtHand o m u c := by
  cases found with
  | none =>
    subst entered
    exact ⟨List.Subset.refl _, .own (Import.Outlook.resolve_none resolved)⟩
  | some d =>
    subst entered
    have registered := Import.Table.register_registered t d
    obtain ⟨member, same⟩ := Import.Table.registered_mem registered
    exact ⟨(Import.Table.registered_prefix registered).subset, .imported resolved member same⟩

/-- The template of a class whose instances may be described, and which is at hand. -/
def CallsClass (o : Import.Outlook) (m : Model) (imports : Import.Table) (name : String) : Prop :=
  ∃ c, m.Describable c ∧ AtHand o m imports c ∧ name = templateName c.iri

theorem CallsClass.mono {t u : Import.Table} (h : CallsClass o m t name)
    (more : t.entries ⊆ u.entries) : CallsClass o m u name := by
  obtain ⟨c, described, atHand, same⟩ := h
  exact ⟨c, described, atHand.mono more, same⟩

/-- What is known of a stylesheet once it is made: its calls lead to the classes of `callees`, which
are at hand. -/
structure Reaches (o : Import.Outlook) (m : Model) (imports : Import.Table) (stylesheet : Element) :
    Prop where
  classes : ∀ c ∈ m.describedClasses, templateName c.iri ∈ definitions stylesheet.children
  listed : ∀ e ∈ imports.entries, importOf e.descriptor.reference ∈ stylesheet.children
  roots : ∀ c, m.Knows c → m.isRoot c.iri → templateName c.iri ∈ calls stylesheet
  calls : ∀ name ∈ calls stylesheet, name ∈ definitions stylesheet.children ∨
    ∃ c, m.Knows c ∧ AtHand o m imports c ∧ name = templateName c.iri ∧
      (c.isCodelist → m.isRoot c.iri)

/-- The calls of a stylesheet can only miss the templates of codelists, which it never defines. -/
theorem Reaches.callsResolve_iff {stylesheet : Element} (h : Reaches o m t stylesheet) :
    CallsResolve o m stylesheet ↔ CodelistRootsResolve o m stylesheet := by
  constructor
  · intro resolve c owned root _
    exact resolve _ (h.roots c owned.1 root)
  · intro resolve name called
    rcases h.calls name called with defined | ⟨c, known, atHand, rfl, codelist⟩
    · exact .defined defined
    · cases atHand with
      | own own =>
        by_cases listed : c.isCodelist
        · exact resolve c ⟨known, own⟩ (codelist listed) listed
        · refine .defined (h.classes c (List.mem_filter.mpr ⟨Model.knows_mem known, ?_⟩))
          simp [own, listed]
      | imported resolved member same =>
        have foreign := Import.Outlook.resolve_some resolved
        exact .imported known foreign resolved (same ▸ h.listed _ member)

end RdfXmlMapping.Stylesheet
