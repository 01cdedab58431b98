import RdfXmlMapping.Artifact.Set
import RdfXmlMapping.Proofs.Conformance.Roots
import RdfXmlMapping.Proofs.Text.Lines
import RdfXmlMapping.Proofs.TypeNames

/-!
The attributes of document elements. Prefixes of imports and of predicates are made to stay out of
the way of all others, that of the target namespace is taken as it is: a document element has an
attribute twice exactly if its artifact has the prefix of the target namespace for another use
(`attributes_distinct_iff`).
-/

namespace RdfXmlMapping

open Xml (Attributes Element)

variable {s : Source} {attributes : Attributes} {key name : String}

/-! ### Declarations among attributes -/

theorem declaredPrefix?_eq_some : declaredPrefix? key = some name ↔ key = "xmlns:" ++ name := by
  constructor
  · intro declared
    obtain ⟨rest, found, rfl⟩ := Option.map_eq_some_iff.mp declared
    have whole := Text.eq_of_after? found
    refine String.toList_inj.mp (whole.trans ?_)
    rw [String.toList_append, String.toList_ofList (l := rest)]
  · rintro rfl
    exact declaredPrefix?_append name

/-- The names of the attributes that declare no prefix. -/
def plainKeys (attributes : Attributes) : List String :=
  (attributes.map (·.1)).filter fun key => (declaredPrefix? key).isNone

theorem plainKeys_append (a b : Attributes) : plainKeys (a ++ b) = plainKeys a ++ plainKeys b := by
  rw [plainKeys, List.map_append, List.filter_append]
  rfl

theorem plainKeys_nil : plainKeys [] = [] := rfl

theorem plainKeys_declaration (name uri : String) (rest : Attributes) :
    plainKeys (("xmlns:" ++ name, uri) :: rest) = plainKeys rest := by
  simp [plainKeys, declaredPrefix?_append]

theorem plainKeys_other (plain : declaredPrefix? key = none) (value : String) (rest : Attributes) :
    plainKeys ((key, value) :: rest) = key :: plainKeys rest := by
  simp [plainKeys, plain]

theorem plainKeys_declarations (declares : ∀ a ∈ attributes, ∃ name, a.1 = "xmlns:" ++ name) :
    plainKeys attributes = [] := by
  refine List.filter_eq_nil_iff.mpr fun key member => ?_
  obtain ⟨a, declared, rfl⟩ := List.mem_map.mp member
  obtain ⟨name, same⟩ := declares a declared
  simp [same, declaredPrefix?_append]

theorem mem_namespaces :
    name ∈ (namespaces attributes).map (·.1) ↔ "xmlns:" ++ name ∈ attributes.map (·.1) := by
  simp [namespaces, declaredPrefix?_eq_some]

/-- No attribute is there twice exactly if no prefix is declared twice and no other attribute is
there twice. -/
theorem keys_nodup (attributes : Attributes) : (attributes.map (·.1)).Nodup ↔
    ((namespaces attributes).map (·.1)).Nodup ∧ (plainKeys attributes).Nodup := by
  induction attributes with
  | nil => simp [namespaces, plainKeys]
  | cons a as ih =>
    obtain ⟨key, value⟩ := a
    rw [List.map_cons, List.nodup_cons, ih]
    cases declared : declaredPrefix? key with
    | some name =>
      have spaces : namespaces ((key, value) :: as) = (name, value) :: namespaces as := by
        simp [namespaces, declared]
      have plain : plainKeys ((key, value) :: as) = plainKeys as := by
        simp [plainKeys, declared]
      rw [spaces, plain, List.map_cons, List.nodup_cons, mem_namespaces,
        ← declaredPrefix?_eq_some.mp declared, and_assoc]
    | none =>
      have spaces : namespaces ((key, value) :: as) = namespaces as := by
        simp [namespaces, declared]
      have plain : plainKeys ((key, value) :: as) = key :: plainKeys as := by
        simp [plainKeys, declared]
      have again : key ∈ plainKeys as ↔ key ∈ as.map (·.1) := by
        simp [plainKeys, declared]
      rw [spaces, plain, List.nodup_cons, again, and_left_comm]

/-! ### Artifacts -/

/-- The document element of an artifact that is written in XML. -/
inductive Source.Writes (s : Source) : ArtifactKind → Element → Prop
  | schema {x : Schema} : Schema.generate s = .ok x → s.Writes .schema (Schema.toXml x)
  | lifting {x : Lifting} : Lifting.generate s = .ok x → s.Writes .lifting (Lifting.toXml x)
  | lowering {x : Lowering} : Lowering.generate s = .ok x → s.Writes .lowering (Lowering.toXml x)

/-- Every artifact in XML is the text of one element. -/
theorem Source.artifact_writes {kind : ArtifactKind} {text : String} (xml : kind ≠ .query)
    (h : s.artifact kind = .ok text) : ∃ e, s.Writes kind e ∧ text = e.document := by
  cases kind with
  | query => exact absurd rfl xml
  | schema =>
    obtain ⟨x, made, rfl⟩ := except_map_ok h
    exact ⟨_, .schema made, rfl⟩
  | lifting =>
    obtain ⟨x, made, rfl⟩ := except_map_ok h
    exact ⟨_, .lifting made, rfl⟩
  | lowering =>
    obtain ⟨x, made, rfl⟩ := except_map_ok h
    exact ⟨_, .lowering made, rfl⟩

/-- The prefixes that the stylesheet from documents to RDF declares for itself. -/
def Lifting.fixedPrefixes : List (String × String) :=
  [("xsl", Vocabulary.xslt), ("rdf", Vocabulary.rdf)]

/-- The prefixes that an artifact declares whatever it is generated from. -/
def ArtifactKind.fixedPrefixes : ArtifactKind → List String
  | .schema => Schema.fixedPrefixes.map (·.1)
  | .query => []
  | .lifting => Lifting.fixedPrefixes.map (·.1)
  | .lowering => Lowering.fixedPrefixes.map (·.1)

theorem plainKeys_bindings {entries : List Import.Entry} :
    plainKeys (entries.filterMap Schema.importBinding) = [] := by
  refine plainKeys_declarations fun a member => ?_
  obtain ⟨e, _, made⟩ := List.mem_filterMap.mp member
  unfold Schema.importBinding at made
  split at made
  · obtain rfl := Option.some.inj made
    exact ⟨_, rfl⟩
  · cases made

theorem Schema.plainKeys_nodup (schema : Schema) : (plainKeys (toXml schema).attributes).Nodup := by
  change (plainKeys (headAttributes schema)).Nodup
  have fixed : plainKeys [("xmlns:xs", Vocabulary.xmlSchema),
      ("xmlns:vc", Vocabulary.xmlSchemaVersioning), ("vc:minVersion", "1.1"), ("version", "1.1"),
      ("elementFormDefault", "unqualified")] =
        ["vc:minVersion", "version", "elementFormDefault"] := by
    decide
  have target : declaredPrefix? "targetNamespace" = none := by decide
  rw [headAttributes, plainKeys_append, plainKeys_append, plainKeys_bindings, fixed]
  cases schema.target with
  | none => decide
  | some own => simp [plainKeys_other target, plainKeys_declaration, plainKeys_nil]

theorem Lowering.plainKeys_nodup (l : Lowering) : (plainKeys (toXml l).attributes).Nodup := by
  change (plainKeys (headAttributes l)).Nodup
  have fixed : plainKeys (Stylesheet.headAttributes ++ [("xmlns:xs", Vocabulary.xmlSchema),
      ("xmlns:sp", Vocabulary.sparqlResults), ("xmlns:f", functionNamespace),
      ("xmlns:xsi", Vocabulary.xmlSchemaInstance)]) = ["version"] := by
    decide
  have last : plainKeys [("exclude-result-prefixes", "xs sp f")] = ["exclude-result-prefixes"] := by
    decide
  have types : plainKeys (l.types.filterMap typeBinding) = [] := plainKeys_bindings
  rw [headAttributes, plainKeys_append, plainKeys_append, plainKeys_append, types, fixed, last]
  cases l.target with
  | none => decide
  | some own => simp [plainKeys_declaration, plainKeys_nil]

theorem Lifting.plainKeys_nodup (l : Lifting) : (plainKeys (toXml l).attributes).Nodup := by
  change (plainKeys (headAttributes l)).Nodup
  have fixed : plainKeys (Stylesheet.headAttributes ++ [("xmlns:rdf", Vocabulary.rdf)]) =
      ["version"] := by
    decide
  have excluded : declaredPrefix? "exclude-result-prefixes" = none := by decide
  have predicates {f} (named : ∀ a, f a = ("xmlns:" ++ a.1, a.2)) :
      plainKeys (l.predicates.map f) = [] := by
    refine plainKeys_declarations fun a member => ?_
    obtain ⟨b, _, rfl⟩ := List.mem_map.mp member
    exact ⟨b.1, by rw [named]⟩
  rw [headAttributes, plainKeys_append, plainKeys_append, fixed, predicates fun _ => rfl]
  cases l.target with
  | none => decide
  | some own => simp [plainKeys_declaration, plainKeys_other excluded, plainKeys_nil]

/-- The prefixes of predicates are in no other's way. -/
theorem Lifting.declared_iff {l : Lifting} (h : generate s = .ok l) :
    ((namespaces (toXml l).attributes).map (·.1)).Nodup ↔
      ∀ own uri, s.model.target? = some (own, uri) → own ∉ fixedPrefixes.map (·.1) := by
  obtain ⟨t, ready, declared, _⟩ := generate_states h
  have predicates : (t.bindings.map (·.1)).Nodup := by
    rw [PrefixTable.bindings, List.map_map]
    exact ready.sound.distinct
  have apart : List.Disjoint ((fixedPrefixes ++ l.target.toList).map (·.1))
      (t.bindings.map (·.1)) := by
    intro own other predicate
    rw [PrefixTable.bindings, List.map_map] at predicate
    obtain ⟨e, present, rfl⟩ := List.mem_map.mp predicate
    rw [List.map_append] at other
    rcases List.mem_append.mp other with fixed | target
    -- The stem of the table begins with another letter than the fixed prefixes.
    · have others : ∀ own ∈ fixedPrefixes.map (·.1), own.toList.head? ≠ some 'n' := by decide
      exact others e.2 fixed (ready.start present)
    · refine ready.sound.free e present ?_
      rw [ready.reserved]
      simpa using target
  have fixed := @Import.declarations_nodup fixedPrefixes l.target
    { reserved := (fixedPrefixes ++ l.target.toList).map (·.1) } (by decide)
    (Import.Table.sound_empty _) fun _ member => member
  rw [Import.declarations, List.filterMap_nil, List.append_nil] at fixed
  have heads : namespaces (toXml l).attributes = fixedPrefixes ++ l.target.toList ++ l.predicates :=
    namespaces_head l
  rw [heads, declared, List.map_append, List.nodup_append', and_iff_left ⟨predicates, apart⟩,
    ← generate_target h]
  exact fixed

/-- A document element has an attribute twice exactly if its artifact has the prefix of the target
namespace for another use. -/
theorem attributes_distinct_iff {kind : ArtifactKind} {text : String} (xml : kind ≠ .query)
    (h : s.artifact kind = .ok text) : ∃ e, s.Writes kind e ∧ text = e.document ∧
      ((e.attributes.map (·.1)).Nodup ↔
        ∀ own uri, s.model.target? = some (own, uri) → own ∉ kind.fixedPrefixes) := by
  obtain ⟨e, writes, rfl⟩ := s.artifact_writes xml h
  refine ⟨e, writes, rfl, ?_⟩
  rw [keys_nodup]
  cases writes with
  | @schema x made =>
    obtain ⟨_, _, _, run, _⟩ := Schema.generate_run made
    obtain ⟨o, _, _⟩ := Schema.generate_outcome made run
    rw [and_iff_left x.plainKeys_nodup]
    exact o.declared_iff
  | @lifting x made =>
    rw [and_iff_left x.plainKeys_nodup]
    exact Lifting.declared_iff made
  | @lowering x made =>
    obtain ⟨o⟩ := Lowering.generate_outcome made
    rw [and_iff_left x.plainKeys_nodup]
    exact o.declared_iff

theorem attributes_distinct_quay : ∃ e, (quay "own").Writes .schema e ∧
    Schema.render (quaySchema "own") = e.document ∧ (e.attributes.map (·.1)).Nodup := by
  have made : (quay "own").artifact .schema = .ok (Schema.render (quaySchema "own")) := by
    rw [Source.artifact, generate_quay]
    rfl
  obtain ⟨e, writes, text, distinct⟩ := attributes_distinct_iff (by decide) made
  refine ⟨e, writes, text, distinct.mpr fun own uri target => ?_⟩
  obtain ⟨rfl, -⟩ := Prod.mk.inj (Option.some.inj target)
  decide

/-- A schema whose target namespace has the prefix `xs` declares this prefix twice. -/
theorem prefix_declared_twice : toNCName "xs" = "xs" ∧
    Schema.generate (quay "xs") = .ok (quaySchema "xs") ∧
    ¬ ((Schema.toXml (quaySchema "xs")).attributes.map (·.1)).Nodup :=
  ⟨by decide, generate_quay "xs", by decide⟩

end RdfXmlMapping
