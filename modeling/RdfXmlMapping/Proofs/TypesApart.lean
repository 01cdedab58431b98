import RdfXmlMapping.Proofs.TypeNames

/-!
When the types of different classes have different names. Names are kept apart among the classes of
the model's own specification only. A class of another specification is called by its label in the
namespace of its schema, or in the target namespace if that has none, whatever else is called so
(`types_collide_iff`).
-/

namespace RdfXmlMapping.Schema

open Xml (QName)

variable {s : Source} {schema : Schema} {c d : Class} {q r : QName} {n : ExpandedName}

/-- The namespace that the type of a class is in: that of its schema, where the target namespace
takes the place of none. -/
def typeSpace (s : Source) (schema : Schema) (c : Class) : Option String :=
  match (s.outlook .schema).resolve s.model c with
  | .ok (some d) =>
    ((schema.imports.find? (·.descriptor.reference == d.reference)).bind
      (·.descriptor.uri)).or s.model.uri
  | _ => s.model.uri

theorem typeSpace_own (own : s.model.isForeign c = false) : typeSpace s schema c = s.model.uri := by
  rw [typeSpace]
  split
  next resolved => exact absurd (Import.Outlook.resolve_some resolved) (Bool.eq_false_iff.mp own)
  next => rfl

theorem typeSpace_imported {e : Import.Entry} (o : Outcome s schema)
    (imported : ImportedBy s schema c e) :
    typeSpace s schema c = e.descriptor.uri.or s.model.uri := by
  obtain ⟨published, resolved, same⟩ := imported.reference
  have present : (schema.imports.find? (·.descriptor.reference == published.reference)).isSome :=
    List.find?_isSome.mpr ⟨e, imported.listed, beq_iff_eq.mpr same⟩
  obtain ⟨first, found⟩ := Option.isSome_iff_exists.mp present
  -- The document enters a reference once.
  obtain rfl : first = e := o.kept.imports.unique
    (o.imports ▸ List.mem_of_find?_eq_some found) (o.imports ▸ imported.listed)
    ((beq_iff_eq.mp (List.find?_some found :)).trans same.symm)
  rw [typeSpace, resolved]
  dsimp only
  rw [found]
  rfl

/-- What the name of the type of a class stands for. -/
theorem NamesType.expands (o : Outcome s schema) (known : s.model.Knows c)
    (named : NamesType s schema c q) : Expands (toXml schema).attributes q n ↔
      schema.DeclaresOnce ∧ n = (typeSpace s schema c, (ClassNames.ofModel s.model).get c) := by
  cases named with
  | own own => rw [typeSpace_own own, o.expands_own]
  | imported foreign imported =>
    rw [typeSpace_imported o imported, ClassNames.get_foreign known foreign,
      o.expands_imported imported.listed]

/-- The types of two classes are called the same exactly if no prefix is declared twice, one of the
classes belongs to another specification, and both are called the same in one namespace. -/
theorem types_collide_iff (h : generate s = .ok schema) (known : s.model.Knows c)
    (known' : s.model.Knows d) (different : c.iri ≠ d.iri) (refers : Refers s c q)
    (refers' : Refers s d r) :
    SameName (toXml schema).attributes q (toXml schema).attributes r ↔
      (∀ own uri, s.model.target? = some (own, uri) → own ∉ fixedPrefixes.map (·.1)) ∧
      (s.model.isForeign c ∨ s.model.isForeign d) ∧
      (ClassNames.ofModel s.model).get c = (ClassNames.ofModel s.model).get d ∧
      typeSpace s schema c = typeSpace s schema d := by
  obtain ⟨_, _, _, run, _⟩ := generate_run h
  obtain ⟨o, _, _⟩ := generate_outcome h run
  have foreign : (ClassNames.ofModel s.model).get c = (ClassNames.ofModel s.model).get d →
      s.model.isForeign c ∨ s.model.isForeign d := by
    intro same
    by_contra own
    obtain ⟨left, right⟩ := not_or.mp own
    have equal := ClassNames.get_injective ⟨known, Bool.eq_false_iff.mpr left⟩
      ⟨known', Bool.eq_false_iff.mpr right⟩ same
    exact different (congrArg Class.iri equal)
  have first (n) := (refers.namesType h known).expands (n := n) o known
  have second (n) := (refers'.namesType h known').expands (n := n) o known'
  simp only [SameName, first, second, exists_both_iff, and_self, o.declared_iff, Prod.mk.injEq]
  refine and_congr_right fun _ => ⟨fun both => ⟨foreign both.2, both.2, both.1⟩, fun all => ?_⟩
  exact ⟨all.2.2, all.2.1⟩

/-! ### Addresses of two specifications -/

def ownAddress : Class :=
  { Class.make "Address" "Address" with meaning := some "https://ex.org/Address" }
    |>.declaring ((Property.make "former" "https://ex.org/former").association "Address")
    |>.declaring ((Property.make "office" "https://ex.org/office").association "people/Address")

def foreignAddress : Class := (Class.make "people/Address" "Address").ownedBy "people" "persons"

/-- A model of addresses with what is published for addresses of persons, whose schema may have a
namespace. -/
def directory (uri : Option String) : Source where
  model :=
    { (Model.make "directory" "post").rootedAt ["Address"]
      |>.declaring ownAddress |>.declaring foreignAddress
    with uri := some "https://own.org/ns", nsPrefix := some "a" }
  manifests := [{
    specification := "people"
    publications := [{
      kind := .schema, source := "persons", address := "https://ex.org/schema.xsd", uri
      nsPrefix := some "b" }] }]
  config := { output := { baseAddress := "https://own.org/" } }

def addressEntry (uri : Option String) : Import.Entry where
  descriptor := {
    specification := "people", uri, ownPrefix := some "b",
    reference := "https://ex.org/schema.xsd" }
  bound := uri.map fun _ => "b"

def addressContent (uri : Option String) : List Particle :=
  [.identity, .element "former" ⟨some "a", "Address"⟩ ⟨1, some 1⟩,
    .element "office" ⟨some (if uri.isSome then "b" else "a"), "Address"⟩ ⟨1, some 1⟩]

def directorySchema (uri : Option String) : Schema where
  target := some ("a", "https://own.org/ns")
  importsXml := false
  imports := [addressEntry uri]
  declarations := [.root "Address" {} (.nested (addressContent uri)),
    .complexType "Address" {} (addressContent uri)]

/-- The state in which the generation of the schema ends. -/
def directoryEnd (uri : Option String) : Progress :=
  { initial (directory uri) with
    imports := { reserved := reservedPrefixes (directory uri).model.target?
                 entries := [addressEntry uri] }
    types := ["Address"] }

set_option maxRecDepth 20000 in
theorem run_directory (uri : Option String) :
    RunOf (directory uri) [] (directorySchema uri).declarations (directoryEnd uri) := by
  cases uri <;> exact ⟨by cbv, by cbv⟩

set_option maxRecDepth 20000 in
theorem generate_directory (uri : Option String) :
    generate (directory uri) = .ok (directorySchema uri) :=
  (run_directory uri).generates (by cases uri <;> cbv)

set_option maxRecDepth 20000 in
theorem ownAddress_referred (uri : Option String) :
    Refers (directory uri) ownAddress ⟨some "a", "Address"⟩ := by
  refine .made (run_directory uri) ⟨directoryEnd uri, directoryEnd uri, ?_, .refl _⟩
  cases uri <;> rfl

set_option maxRecDepth 20000 in
theorem foreignAddress_referred (uri : Option String) :
    Refers (directory uri) foreignAddress ⟨some (if uri.isSome then "b" else "a"), "Address"⟩ := by
  refine .made (run_directory uri) ⟨directoryEnd uri, directoryEnd uri, ?_, .refl _⟩
  cases uri <;> cbv

theorem types_apart_directory : ¬ SameName (toXml (directorySchema agentsUri)).attributes
    ⟨some "a", "Address"⟩ (toXml (directorySchema agentsUri)).attributes ⟨some "b", "Address"⟩ := by
  intro same
  have known : (directory agentsUri).model.Knows ownAddress ∧
      (directory agentsUri).model.Knows foreignAddress := by
    unfold Model.Knows
    decide +kernel
  have collide := types_collide_iff (generate_directory agentsUri) known.1 known.2 (by decide)
    (ownAddress_referred agentsUri) (foreignAddress_referred agentsUri)
  have spaces : typeSpace (directory agentsUri) (directorySchema agentsUri) ownAddress ≠
      typeSpace (directory agentsUri) (directorySchema agentsUri) foreignAddress := by
    decide +kernel
  exact spaces (collide.mp same).2.2.2

/-- Where the schema of the persons has no namespace, the addresses of persons have the type of the
other addresses. -/
theorem types_collide_directory : generate (directory none) = .ok (directorySchema none) ∧
    ownAddress.iri ≠ foreignAddress.iri ∧
    Refers (directory none) ownAddress ⟨some "a", "Address"⟩ ∧
    Refers (directory none) foreignAddress ⟨some "a", "Address"⟩ ∧
    SameName (toXml (directorySchema none)).attributes ⟨some "a", "Address"⟩
      (toXml (directorySchema none)).attributes ⟨some "a", "Address"⟩ := by
  have expands : Expands (toXml (directorySchema none)).attributes ⟨some "a", "Address"⟩
      (some "https://own.org/ns", "Address") :=
    ⟨by decide +kernel, rfl, _, rfl, by decide +kernel⟩
  exact ⟨generate_directory none, by decide, ownAddress_referred none, foreignAddress_referred none,
    _, expands, expands⟩

end RdfXmlMapping.Schema
