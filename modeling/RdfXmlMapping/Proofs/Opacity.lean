import Mathlib
import RdfXmlMapping.Model.Build
import RdfXmlMapping.Proofs.Stylesheet.Redeclare
import RdfXmlMapping.Proofs.Schema.Redeclare

/-!
Classes that a model only refers to. No generator looks at their properties, with one exception: the
check of spliced properties, which all generators start with, goes through all classes of the model.
-/

namespace RdfXmlMapping

/-- A class that a model only refers to: one of another specification or a codelist, which is no
root candidate and which no other class extends. -/
structure Model.OnlyReferred (m : Model) (before : List Class) (k : Class) (after : List Class) :
    Prop where
  place : m.classes = before ++ k :: after
  closed : m.isForeign k ∨ k.isCodelist
  root : ¬ m.isRoot k.iri
  parent : ∀ c ∈ before ++ after, c.parents ≠ [k.iri]

/-- The source with other properties for the class between two lists of classes. -/
def Source.replacing (s : Source) (before : List Class) (k : Class) (after : List Class)
    (ps : List Property) : Source :=
  { s with model := { s.model with classes := before ++ { k with properties := ps } :: after } }

namespace Model

variable {m : Model} {before after : List Class} {k c : Class} {ps : List Property}

theorem OnlyReferred.replacing {s : Source} (h : s.model.OnlyReferred before k after)
    (ps : List Property) : (s.replacing before k after ps).model.OnlyReferred before
      { k with properties := ps } after where
  place := rfl
  closed := h.closed
  root := h.root
  parent := h.parent

/-- The given properties for what a model only refers to under an identity, and its own for every
other class. -/
def covering (m : Model) (iri : String) (ps : List Property) (c : Class) : List Property :=
  if c.iri = iri ∧ (m.isForeign c ∨ c.isCodelist) then ps else c.properties

theorem length_le_propertyCount (member : c ∈ m.classes) :
    c.properties.length ≤ m.propertyCount := by
  rw [propertyCount, List.length_flatMap]
  exact List.le_sum_of_mem (List.mem_map_of_mem member)

/-- A list of properties longer than any in the model hides those of a class that the model only
refers to. -/
theorem OnlyReferred.hides (h : m.OnlyReferred before k after)
    (longer : m.propertyCount < ps.length) : m.Hides (m.covering k.iri ps) := by
  have changed {c : Class} (other : m.covering k.iri ps c ≠ c.properties) :
      c.iri = k.iri ∧ (m.isForeign c ∨ c.isCodelist) := by
    by_contra plain
    exact other (if_neg plain)
  have covered : m.covering k.iri ps k ≠ k.properties := by
    rw [covering, if_pos ⟨rfl, h.closed⟩]
    rintro rfl
    have member : k ∈ m.classes := h.place ▸ List.mem_append_right _ List.mem_cons_self
    exact absurd (length_le_propertyCount member) (by omega)
  refine ⟨fun c _ other => (changed other).2, fun c _ other => ?_, fun c member plain d found => ?_⟩
  · rw [(changed other).1]
    exact h.root
  · by_contra other
    have extended := parent?_parents found
    rw [(changed other).1] at extended
    refine h.parent c ?_ extended
    rw [h.place] at member
    rcases List.mem_append.mp member with first | rest
    · exact List.mem_append_left _ first
    · rcases List.mem_cons.mp rest with rfl | last
      · exact absurd plain covered
      · exact List.mem_append_right _ last

theorem covering_longer {iri : String} (longer : m.propertyCount < ps.length) :
    ∀ c ∈ m.classes, c.properties.length ≤ (m.covering iri ps c).length := by
  intro c member
  unfold covering
  split
  · exact (length_le_propertyCount member).trans longer.le
  · exact le_rfl

/-- What replaces the properties of all classes makes up for the difference. -/
theorem redeclare_replacing {s : Source} (place : s.model.classes = before ++ k :: after)
    {f : Class → List Property} (same : f { k with properties := ps } = f k) :
    (s.replacing before k after ps).redeclare f = s.redeclare f := by
  have both : ({ k with properties := ps } : Class).redeclare f = k.redeclare f := by
    rw [Class.redeclare, Class.redeclare, same]
  unfold Source.redeclare Source.replacing redeclare
  rw [place, List.map_append, List.map_append, List.map_cons, List.map_cons]
  rw [both]

theorem OnlyReferred.covered {s : Source} (h : s.model.OnlyReferred before k after)
    (ps qs : List Property) :
    (s.replacing before k after ps).redeclare (s.model.covering k.iri qs) =
      s.redeclare (s.model.covering k.iri qs) := by
  refine redeclare_replacing h.place ?_
  have own : s.model.covering k.iri qs k = qs := if_pos ⟨rfl, h.closed⟩
  rw [own]
  exact if_pos ⟨rfl, h.closed⟩

theorem checkSplicing_replacing {s : Source} (place : s.model.classes = before ++ k :: after)
    (same : ps.filter (·.isSpliced) = k.properties.filter (·.isSpliced)) :
    (s.replacing before k after ps).model.checkSplicing = s.model.checkSplicing := by
  let spliced (c : Class) : List Property := c.properties.filter (·.isSpliced)
  have keeps : KeepsSpliced spliced := fun c => by simp [spliced]
  have both := redeclare_replacing place (f := spliced) same
  rw [← checkSplicing_redeclare keeps.alike,
    ← checkSplicing_redeclare (m := s.model) keeps.alike]
  exact congrArg (fun s : Source => s.model.checkSplicing) both

end Model

/-- Sources that differ in the properties of a class that the model only refers to lead to the same
results where what follows the check of spliced properties is concerned. The check itself has the
same outcome for them if the spliced properties are the same. -/
theorem only_referenced_opaque {s : Source} {before after : List Class} {k : Class}
    (referred : s.model.OnlyReferred before k after) (ps : List Property) :
    let other := s.replacing before k after ps
    (∃ schema, Schema.generate s = (s.model.checkSplicing >>= fun _ => schema) ∧
      Schema.generate other = (other.model.checkSplicing >>= fun _ => schema)) ∧
    (∃ lifting, Lifting.generate s = (s.model.checkSplicing >>= fun _ => lifting) ∧
      Lifting.generate other = (other.model.checkSplicing >>= fun _ => lifting)) ∧
    (∃ lowering, Lowering.generate s = (s.model.checkSplicing >>= fun _ => lowering) ∧
      Lowering.generate other = (other.model.checkSplicing >>= fun _ => lowering)) ∧
    (ps.filter (·.isSpliced) = k.properties.filter (·.isSpliced) →
      other.model.checkSplicing = s.model.checkSplicing) := by
  intro other
  let cover : List Property :=
    List.replicate (s.model.propertyCount + other.model.propertyCount + 1) (Property.make "" "")
  have size : cover.length = s.model.propertyCount + other.model.propertyCount + 1 :=
    List.length_replicate
  have longer : s.model.propertyCount < cover.length := by omega
  have longer' : other.model.propertyCount < cover.length := by omega
  have covered := referred.covered ps cover
  have hides := referred.hides longer
  have hides' : other.model.Hides (s.model.covering k.iri cover) :=
    (referred.replacing ps).hides longer'
  refine ⟨⟨Schema.unchecked s, rfl, ?_⟩, ⟨Lifting.unchecked s, rfl, ?_⟩,
    ⟨Lowering.unchecked s, rfl, ?_⟩, Model.checkSplicing_replacing referred.place⟩
  · rw [Schema.generate, ← Schema.unchecked_redeclare hides (Model.covering_longer longer),
      ← covered, Schema.unchecked_redeclare hides' (Model.covering_longer longer')]
  · rw [Lifting.generate, ← Lifting.unchecked_redeclare hides, ← covered,
      Lifting.unchecked_redeclare hides']
  · rw [Lowering.generate, ← Lowering.unchecked_redeclare hides, ← covered,
      Lowering.unchecked_redeclare hides']

/-! ### The sender of a parcel -/

def parcel : Class :=
  { Class.make "Parcel" "Parcel" with meaning := some "https://ex.org/Parcel" }.declaring
    ((Property.make "sender" "https://ex.org/sender").association "Person")

def person : Class := (Class.make "Person" "Person").ownedBy "people" "persons"

def address : Class := (Class.make "Address" "Address").ownedBy "people" "persons"

/-- A parcel has a sender, which another specification describes. -/
def parcels : Source :=
  { model := (Model.make "parcels" "post").rootedAt ["Parcel"]
      |>.declaring parcel |>.declaring person |>.declaring address
    manifests := [{
      specification := "people"
      publications := [ArtifactKind.schema, .lifting, .lowering].map fun kind =>
        { kind, source := "persons", address := "https://ex.org/" ++ kind.name, uri := none
          nsPrefix := none } }]
    config := { output := { baseAddress := "https://own.org/" } } }

def personName : Property :=
  (Property.make "name" "https://ex.org/name").primitive "http://www.w3.org/2001/XMLSchema#string"

def personAddress : Property :=
  { (Property.make "address" "https://ex.org/address").association "Address" with
    iri := "Person/address", isSpliced := true }

theorem person_referred : parcels.model.OnlyReferred [parcel] person [address] where
  place := rfl
  closed := .inl (by decide)
  root := by decide
  parent := by decide

def parcelsSchema : Schema :=
  { target := none
    importsXml := false
    imports := [{
      descriptor := {
        specification := "people", uri := none, ownPrefix := none
        reference := "https://ex.org/xml-schema" }
      bound := none }]
    declarations := [.root "Parcel" {} (.nested [
      .identity, .element "sender" ⟨none, "Person"⟩ ⟨1, some 1⟩])] }

set_option maxRecDepth 20000 in
theorem generate_parcels : Schema.generate parcels = .ok parcelsSchema := by cbv

theorem transform_parcels : (Lifting.generate parcels).isOk ∧ (Lowering.generate parcels).isOk := by
  decide +kernel

theorem only_referenced_opaque_parcels :
    let named := parcels.replacing [parcel] person [address] [personName]
    (Schema.generate parcels = .ok parcelsSchema ∧ Schema.generate named = .ok parcelsSchema) ∧
    (∃ lifting, Lifting.generate parcels = .ok lifting ∧ Lifting.generate named = .ok lifting) ∧
    ∃ lowering, Lowering.generate parcels = .ok lowering ∧
      Lowering.generate named = .ok lowering := by
  obtain ⟨⟨schema, s, s'⟩, ⟨lifting, l, l'⟩, ⟨lowering, w, w'⟩, check⟩ :=
    only_referenced_opaque person_referred [personName]
  have same := check (by decide)
  rw [same] at s' l' w'
  obtain ⟨hl, hw⟩ := transform_parcels
  obtain ⟨lifting, lifted⟩ := except_isOk hl
  obtain ⟨lowering, lowered⟩ := except_isOk hw
  exact ⟨⟨generate_parcels, (s'.trans s.symm).trans generate_parcels⟩,
    ⟨lifting, lifted, (l'.trans l.symm).trans lifted⟩,
    ⟨lowering, lowered, (w'.trans w.symm).trans lowered⟩⟩

/-- A spliced property of a person makes all generators fail, although no artifact describes
persons. -/
theorem foreign_splice_refused :
    (Schema.generate parcels = .ok parcelsSchema ∧ (Lifting.generate parcels).isOk ∧
      (Lowering.generate parcels).isOk) ∧
    let other := parcels.replacing [parcel] person [address] [personAddress]
    Schema.generate other = .error (.dematerializedNonClass "Person/address") ∧
    Lifting.generate other = .error (.dematerializedNonClass "Person/address") ∧
    Lowering.generate other = .error (.dematerializedNonClass "Person/address") := by
  refine ⟨⟨generate_parcels, transform_parcels⟩, ?_⟩
  intro other
  have check : other.model.checkSplicing = .error (.dematerializedNonClass "Person/address") := by
    decide +kernel
  rw [Schema.generate, Lifting.generate, Lowering.generate, check]
  exact ⟨rfl, rfl, rfl⟩

end RdfXmlMapping
