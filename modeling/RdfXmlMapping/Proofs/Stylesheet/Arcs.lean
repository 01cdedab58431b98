import RdfXmlMapping.Conformance.Schema
import RdfXmlMapping.Proofs.Import.Namespaces
import RdfXmlMapping.Proofs.Lifting.Calls
import RdfXmlMapping.Proofs.Lowering.Calls
import RdfXmlMapping.Proofs.Lowering.Expressions
import RdfXmlMapping.Proofs.NCName
import RdfXmlMapping.Proofs.Text.Lines

/-!
How stylesheets map properties, read off their templates: the element for a value, the predicate,
and which end of the triple the instance is.
-/

namespace RdfXmlMapping

open Xml (Attributes Element)

/-- How a property is mapped. A value that is spliced in has no element of its own; a property is
reverse if the instance is the object of the triple. -/
structure Arc where
  element : Option String
  predicate : String
  isReverse : Bool
  deriving DecidableEq, Repr

/-- How the model maps a property. -/
def Property.arc (p : Property) : Arc where
  element := if p.isSpliced then none else some (toNCName p.label)
  predicate := p.predicate
  isReverse := p.isReverse

/-- The namespace of a prefix that is declared once. -/
def namespaceOf? (attributes : Attributes) (own : String) : Option String :=
  match (namespaces attributes).filter (·.1 = own) with
  | [(_, uri)] => some uri
  | _ => none

/-- The IRI that the name of an element stands for. -/
def expandedIri? (attributes : Attributes) (name : String) : Option String :=
  match Conformance.splitName name with
  | (some own, last) => (namespaceOf? attributes own).map (· ++ last)
  | (none, _) => none

namespace Lifting

/-- The predicate that an element states. -/
def predicate? (scope : Attributes) (e : Element) : Option String :=
  if e.name = "xsl:call-template" ∨ e.name = "rdf:type" then none else expandedIri? scope e.name

/-- What is written for a value: for each element that an expression selects, or for a value that is
spliced in, perhaps under a condition. -/
def unwrapped (e : Element) : Option String × List Element :=
  if e.name = "xsl:for-each" then (e.attributes.lookup "select", e.children)
  else if e.name = "xsl:if" then (none, e.children)
  else (none, [e])

/-- What an element inside the description of the instance states about it. -/
def forwardArcs (scope : Attributes) (e : Element) : List Arc :=
  ((unwrapped e).2.filterMap (predicate? scope)).map fun iri => ⟨(unwrapped e).1, iri, false⟩

/-- What an element after the description states about the instance: it describes the value. -/
def reverseArcs (scope : Attributes) (e : Element) : List Arc :=
  let descriptions := (unwrapped e).2.filter (·.name = "rdf:Description")
  ((descriptions.flatMap (·.children)).filterMap (predicate? scope)).map fun iri =>
    ⟨(unwrapped e).1, iri, true⟩

/-- What the template of a class states about an instance, first in its description. -/
def arcs (scope : Attributes) (t : Element) : List Arc :=
  match t.children with
  | _ :: description :: after =>
    description.children.flatMap (forwardArcs scope) ++ after.flatMap (reverseArcs scope)
  | _ => []

/-- The templates of classes that elements call. -/
def classCalls (es : List Element) : List String :=
  (Stylesheet.callsIn es).filter (· ≠ nodeTemplateName)

end Lifting

namespace Lowering

/-- What an element is written from. -/
def itemArcs (e : Element) : List Arc :=
  if e.name = "xsl:for-each" then
    match (e.attributes.lookup "select").bind rows?, e.children with
    | some rows, [x] =>
      [⟨if x.name = "xsl:call-template" then none else some x.name, rows.predicate, rows.isReverse⟩]
    | _, _ => []
  else []

/-- What the content of an instance is written from. -/
def arcs (t : Element) : List Arc := t.children.flatMap itemArcs

end Lowering

/-! ### Names of predicates -/

variable {attributes : Attributes} {t : PrefixTable} {iri name own : String}

theorem splitName_append {last : String} (own_free : ':' ∉ own.toList) :
    Conformance.splitName (own ++ ":" ++ last) = (some own, last) := by
  have before : ∀ c ∈ own.toList, decide (c ≠ ':') = true := by
    intro c member
    refine decide_eq_true ?_
    rintro rfl
    exact own_free member
  have written : (own ++ ":" ++ last).toList = own.toList ++ ':' :: last.toList := by simp
  rw [Conformance.splitName, written, Text.span_append before (by simp)]
  simp

theorem filter_unique {α β : Type} [DecidableEq β] {f : α → β} {xs : List α}
    (distinct : (xs.map f).Nodup) {x : α} (member : x ∈ xs) : xs.filter (f · = f x) = [x] := by
  induction xs with
  | nil => cases member
  | cons y ys ih =>
    obtain ⟨apart, distinct⟩ := List.nodup_cons.mp distinct
    rcases List.mem_cons.mp member with rfl | later
    · have none : ys.filter (f · = f x) = [] := by
        refine List.filter_eq_nil_iff.mpr fun z inside same => apart ?_
        exact List.mem_map.mpr ⟨z, inside, of_decide_eq_true same⟩
      rw [List.filter_cons_of_pos (by simp), none]
    · have other : f y ≠ f x := fun same => apart (same ▸ List.mem_map_of_mem later)
      rw [List.filter_cons_of_neg (by simpa using other), ih distinct later]

/-! ### What is written from properties -/

namespace Lowering

open Stylesheet

variable {y : Plan} {p : Property} {s t : Progress}

theorem itemArcs_forEach (rows : Rows) (e : Element) : itemArcs (forEach rows.text [e]) =
    [⟨if e.name = "xsl:call-template" then none else some e.name, rows.predicate,
      rows.isReverse⟩] := by
  have selected : (forEach rows.text [e]).attributes.lookup "select" = some rows.text := rfl
  have each : (forEach rows.text [e]).name = "xsl:for-each" := rfl
  have holds : (forEach rows.text [e]).children = [e] := rfl
  rw [itemArcs, if_pos each, selected, holds, Option.bind_some, rows?_text]

/-- What is written for a property, and the template of its value if there is one class for it. -/
structure WrittenFor (m : Model) (p : Property) (i : Item) : Prop where
  arcs : itemArcs i.toXml = [p.arc]
  spliced : p.isSpliced → ∃ d, m.spliceTarget p = .ok d ∧ i.callees = [templateName d.iri]
  single : p.isSpliced = false → ∀ d, m.shapeOf p = .ok (.single d) →
    i.callees = [templateName d.iri]

theorem item_written {i : Item} (h : y.item p s = .ok (i, t)) : WrittenFor y.model p i := by
  cases item_made h with
  | @spliced d _ spliced target made =>
    obtain ⟨_, _, rfl⟩ := templateOf_step made
    refine ⟨?_, fun _ => ⟨d, target, rfl⟩, fun plain => absurd spliced (by simp [plain])⟩
    rw [Item.toXml, itemArcs_forEach, Property.arc, if_pos spliced]
    rfl
  | element plain read made =>
    refine ⟨?_, fun spliced => absurd spliced (by simp [plain]), fun _ d same => ?_⟩
    · have other : toNCName p.label ≠ "xsl:call-template" := by
        intro same
        have colon : ':' ∉ (toNCName p.label).toList :=
          not_mem_of_isPart (toNCName_part p.label) (by decide)
        rw [same] at colon
        exact colon (by decide)
      have unspliced : ¬ p.isSpliced := Bool.eq_false_iff.mp plain
      rw [Item.toXml, itemArcs_forEach, Property.arc, if_neg unspliced, Element.name, if_neg other]
    · obtain rfl := Except.ok.inj (read.symm.trans same)
      cases made with
      | instanceOf named =>
        obtain ⟨_, _, rfl⟩ := templateOf_step named
        rfl

/-- The template of a class, made of what is written for its properties one after the other. -/
def TemplateWrites (m : Model) (c : Class) (template : Template) : Prop :=
  ∃ ps items, m.effectiveProperties c = .ok ps ∧ List.Forall₂ (WrittenFor m) ps items ∧
    template = ⟨templateName c.iri, items⟩

theorem classTemplate_writes {c : Class} {template : Template}
    (h : y.classTemplate c s = .ok (template, t)) : TemplateWrites y.model c template := by
  obtain ⟨ps, items, own, each, rfl⟩ := classTemplate_made h
  exact ⟨ps, items, own, runs_forall₂ each fun _ _ _ _ _ run => item_written run, rfl⟩

theorem generate_writes {s : Source} {l : Lowering} (h : generate s = .ok l) :
    List.Forall₂ (TemplateWrites s.model) s.model.describedClasses l.templates := by
  obtain ⟨_, _, _, made⟩ := generate_made h
  exact runs_forall₂ made.templates fun _ _ _ _ _ run => classTemplate_writes run

end Lowering

end RdfXmlMapping
