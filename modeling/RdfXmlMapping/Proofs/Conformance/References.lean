import RdfXmlMapping.Proofs.Conformance.Resolutions
import RdfXmlMapping.Proofs.Conformance.Roots
import RdfXmlMapping.Proofs.TypeNames
import RdfXmlMapping.Proofs.Xml.Names

/-!
The checks of a schema against the schemas that are generated. Whatever a schema declares by itself,
and whatever it imports, is found. A type of a schema without a namespace, which falls into the
target namespace, is found only by chance (`schema_checks_pass_iff`).
-/

namespace RdfXmlMapping

open Conformance
open Xml (Node QName isNamePart isSpace readValue)

/-! ### Names in a schema -/

namespace Schema

variable {s : Source} {schema : Schema} {n : Node} {last : String}

theorem OwnClassName.part {m : Model} (h : OwnClassName m last) :
    ∀ c ∈ last.toList, NCName.isPart c := by
  obtain ⟨c, owned, rfl⟩ := h
  exact ClassNames.get_part owned.1

theorem Outcome.types_part (o : Outcome s schema)
    (member : last ∈ topLevel "xs:complexType" (toXml schema).children) :
    ∀ c ∈ last.toList, NCName.isPart c := by
  rcases o.types_belong last member with own | ⟨_, _, label, k, _, _, _, rfl⟩ | rfl
  · exact own.part
  · exact ClassNames.choice_part (toNCName_part label) k
  · have all : languageTextType.toList.all NCName.isPart := by decide
    exact List.all_eq_true.mp all

/-- Names are read as they are written. -/
theorem map_readValue {names : List String}
    (part : ∀ name ∈ names, ∀ c ∈ name.toList, NCName.isPart c) : names.map readValue = names :=
  (List.map_congr_left fun name member =>
    Xml.readValue_plain fun c inside => isSpace_part (part name member c inside)).trans
    (List.map_id _)

theorem Outcome.types_found (o : Outcome s schema) (doc : Found schema n) :
    (Declarations.ofRoot n).types = topLevel "xs:complexType" (toXml schema).children := by
  rw [doc.types, map_readValue fun name member => o.types_part member]

theorem Outcome.groups_found (o : Outcome s schema) (doc : Found schema n) :
    (Declarations.ofRoot n).groups = topLevel "xs:group" (toXml schema).children := by
  rw [doc.groups, map_readValue fun name member => (o.groups_belong name member).part]

/-- A name with a prefix of the schema, as the check takes it apart. -/
theorem Found.split (doc : Found schema n) (named : schema.PrefixesNamed) {own uri : String}
    (declares : schema.Declares own uri) (last : String) :
    splitName (readValue (own ++ ":" ++ last)) = (some own, readValue last) ∧
      namespaceOf n.scope (some own) = some (some (readValue uri)) := by
  obtain ⟨free, stands⟩ := doc.declared own uri declares
  refine ⟨?_, stands⟩
  rw [Xml.readValue_colon fun c inside => isSpace_namePart (named.declared declares c inside)]
  exact splitName_prefixed free _

/-- A name in the target namespace, as the check takes it apart. -/
theorem Found.split_own (doc : Found schema n) (named : schema.PrefixesNamed)
    (part : ∀ c ∈ last.toList, NCName.isPart c) :
    ∃ before, splitName (readValue (ownName schema last).text) = (before, last) ∧
      namespaceOf n.scope before = some (Declarations.ofRoot n).target := by
  have kept : readValue last = last :=
    Xml.readValue_plain fun c inside => isSpace_part (part c inside)
  rw [doc.target]
  cases target : schema.target with
  | none =>
    have text : (ownName schema last).text = last := by simp [ownName, target, QName.text]
    rw [text, kept, splitName_plain (not_mem_of_isPart part (by decide))]
    exact ⟨none, rfl, congrArg some doc.unprefixed⟩
  | some pair =>
    obtain ⟨own, uri⟩ := pair
    have text : (ownName schema last).text = own ++ ":" ++ last := by
      simp [ownName, target, QName.text]
    obtain ⟨split, stands⟩ := doc.split named (.inl target) last
    rw [text, split, kept]
    exact ⟨some own, rfl, stands⟩

/-! ### References that are accepted -/

/-- The check has no objection to a reference. -/
def Passes (n : Node) (r : Reference) : Prop :=
  ¬ ∃ detail, (Declarations.ofRoot n).resolve n.scope r = .unresolved detail

theorem passes_iff {name : String} {space : Space} {before : Option String} {uri : Option String}
    (split : splitName name = (before, last)) (stands : namespaceOf n.scope before = some uri) :
    Passes n ⟨name, space⟩ ↔ Accepts (Declarations.ofRoot n) uri last space := by
  rw [Passes, @resolve_iff _ ⟨name, space⟩ _ _ split _ _ stands, not_not]

theorem Found.passes_language (doc : Found schema n) {own : String}
    (standard : own = "xs" ∨ own = "xml") (rest : String) (space : Space) :
    Passes n ⟨own ++ ":" ++ rest, space⟩ := by
  have free : ':' ∉ own.toList := by rcases standard with rfl | rfl <;> decide
  have split := splitName_prefixed free rest
  rcases standard with rfl | rfl
  · have stands : namespaceOf n.scope (some "xs") = some (some Vocabulary.xmlSchema) :=
      congrArg (Option.map some) doc.language
    exact (passes_iff split stands).mpr (.inl ⟨_, rfl, .inl rfl⟩)
  · have stands : namespaceOf n.scope (some "xml") = some (some Vocabulary.xml) := rfl
    exact (passes_iff split stands).mpr (.inl ⟨_, rfl, .inr (.inl rfl)⟩)

theorem Found.passes_standard (doc : Found schema n) {q : QName} (standard : Standard q)
    (space : Space) : Passes n ⟨readValue q.text, space⟩ := by
  obtain ⟨before, last⟩ := q
  obtain ⟨own, rfl, which⟩ : ∃ own, before = some own ∧ (own = "xs" ∨ own = "xml") := by
    rcases standard with rfl | rfl
    · exact ⟨_, rfl, .inl rfl⟩
    · exact ⟨_, rfl, .inr rfl⟩
  have plain : own.toList.all (!isSpace ·) := by rcases which with rfl | rfl <;> decide
  rw [QName.text, Xml.readValue_colon fun c member => by
    simpa using List.all_eq_true.mp plain c member]
  exact doc.passes_language which _ space

theorem Found.passes_own (doc : Found schema n) (named : schema.PrefixesNamed)
    (part : ∀ c ∈ last.toList, NCName.isPart c) {space : Space}
    (declared : (Declarations.ofRoot n).declares last space) :
    Passes n ⟨readValue (ownName schema last).text, space⟩ := by
  obtain ⟨before, split, stands⟩ := doc.split_own named part
  exact (passes_iff split stands).mpr (.inr (.inl ⟨rfl, declared⟩))

theorem Found.passes_imported (doc : Found schema n) (named : schema.PrefixesNamed)
    {e : Import.Entry} (listed : e ∈ schema.imports) {own uri : String} (bound : e.bound = some own)
    (read : e.descriptor.uri = some uri) (last : String) (space : Space) :
    Passes n ⟨readValue (importedName schema e last).text, space⟩ := by
  have text : (importedName schema e last).text = own ++ ":" ++ last := by
    simp [importedName, bound, QName.text]
  obtain ⟨split, stands⟩ := doc.split named (.inr ⟨e, listed, bound, read⟩) last
  have present : readValue uri ∈ (Declarations.ofRoot n).imported :=
    (doc.imported _).mpr ⟨uri, mem_namespaces.mpr (.inr ⟨e, listed, read⟩), rfl⟩
  rw [text]
  exact (passes_iff split stands).mpr (.inl ⟨_, rfl, .inr (.inr present)⟩)

/-- A namespace in which the checks take every name for granted. -/
def Granted (schema : Schema) (uri : String) : Prop :=
  readValue uri = Vocabulary.xmlSchema ∨ readValue uri = Vocabulary.xml ∨
    ∃ e ∈ schema.imports, ∃ other, e.descriptor.uri = some other ∧ readValue other = readValue uri

theorem Found.granted_iff (doc : Found schema n) (uri : String) :
    (readValue uri = Vocabulary.xmlSchema ∨ readValue uri = Vocabulary.xml ∨
      readValue uri ∈ (Declarations.ofRoot n).imported) ↔ Granted schema uri := by
  have xml : readValue Vocabulary.xml = Vocabulary.xml := by decide
  rw [doc.imported]
  simp only [mem_namespaces]
  constructor
  · rintro (same | same | ⟨written, ⟨_, rfl⟩ | ⟨e, listed, read⟩, same⟩)
    · exact .inl same
    · exact .inr (.inl same)
    · exact .inr (.inl (same.trans xml))
    · exact .inr (.inr ⟨e, listed, written, read, same.symm⟩)
  · rintro (same | same | ⟨e, listed, other, read, same⟩)
    · exact .inl same
    · exact .inr (.inl same)
    · exact .inr (.inr ⟨other, .inr ⟨e, listed, read⟩, same.symm⟩)

/-- A name in the target namespace passes as that of a type exactly if there is such a type, or if
the namespace is taken for granted. -/
theorem Outcome.passes_own_iff (o : Outcome s schema) (doc : Found schema n)
    (named : schema.PrefixesNamed) (part : ∀ c ∈ last.toList, NCName.isPart c) {own uri : String}
    (target : schema.target = some (own, uri)) :
    Passes n ⟨readValue (ownName schema last).text, .type⟩ ↔
      last ∈ topLevel "xs:complexType" (toXml schema).children ∨ Granted schema uri := by
  obtain ⟨before, split, stands⟩ := doc.split_own named part
  have there : (Declarations.ofRoot n).target = some (readValue uri) := by
    rw [doc.target, target]
    rfl
  have declares : (Declarations.ofRoot n).declares last .type ↔
      last ∈ topLevel "xs:complexType" (toXml schema).children := by
    rw [Declarations.declares, o.types_found doc, List.contains_iff_mem]
  rw [passes_iff split stands, Accepts, there, ← doc.granted_iff, ← declares]
  simp [or_comm]

/-- In a schema without a namespace the types of schemas that it includes pass. -/
theorem Found.passes_included (doc : Found schema n) (named : schema.PrefixesNamed)
    (part : ∀ c ∈ last.toList, NCName.isPart c) (target : schema.target = none) {e : Import.Entry}
    (listed : e ∈ schema.imports) (none : e.descriptor.uri = none) (space : Space) :
    Passes n ⟨readValue (ownName schema last).text, space⟩ := by
  obtain ⟨before, split, stands⟩ := doc.split_own named part
  have there : (Declarations.ofRoot n).target = Option.none := by rw [doc.target, target]; rfl
  exact (passes_iff split stands).mpr (.inr (.inr ⟨there, doc.included e listed none⟩))

/-- The schema refers to a class whose own schema has no namespace, so that the name of its type is
in the target namespace. -/
structure Adopts (s : Source) (schema : Schema) (c : Class) : Prop where
  known : s.model.Knows c
  imported : ∃ e, ImportedBy s schema c e ∧ e.descriptor.uri = none
  referred : ∃ key, (key = "type" ∨ key = "base") ∧
    (key, (ownName schema (toNCName c.label)).text) ∈ references (toXml schema)

theorem members_written {x : Plan} {now : Progress} {a : String × String} (h : Written x now a)
    (key : a.1 = "memberTypes") :
    ∃ qs : List QName, (∀ q ∈ qs, IsSimple q) ∧ a.2 = " ".intercalate (qs.map QName.text) := by
  cases h with
  | members good => exact ⟨_, good, rfl⟩
  | type | base | group | language => simp at key

theorem simple_solid {q : QName} (h : IsSimple q) : Solid q.text := by
  obtain ⟨name, rfl, part⟩ := h
  have text : (builtin name).text.toList = 'x' :: 's' :: ':' :: name.toList := by
    simp [builtin, QName.text]
  have start : ['x', 's', ':'].all (!Unicode.isBlank ·) := by decide
  rw [Solid, text]
  refine ⟨by simp, fun c member => ?_⟩
  rcases List.mem_append.mp
    (show c ∈ ['x', 's', ':'] ++ name.toList from member) with first | inside
  · simpa using List.all_eq_true.mp start c first
  · exact isBlank_part (part c inside)

/-- Solid words with spaces between them are read as they are written. -/
theorem readValue_words {ws : List String} (solid : ∀ w ∈ ws, Solid w) :
    readValue (" ".intercalate ws) = " ".intercalate ws := by
  have free : Query.Free ['\t', '\n', '\r'] (" ".intercalate ws) := by
    refine Query.free_intercalate (by decide) fun w member c inside blank => ?_
    have blanks : ['\t', '\n', '\r'].all Unicode.isBlank := by decide
    have other := (solid w member).2 c inside
    rw [List.all_eq_true.mp blanks c blank] at other
    cases other
  rw [readValue, Xml.normalised_spaces fun c inside blank => ?_, String.ofList_toList]
  have apart := free c inside
  simp only [isSpace, Bool.or_eq_true, decide_eq_true_eq] at blank
  simp only [List.mem_cons, List.not_mem_nil, or_false, not_or] at apart
  rcases blank with ((space | tab) | feed) | back
  · exact space
  · exact absurd tab apart.1
  · exact absurd feed apart.2.1
  · exact absurd back apart.2.2

theorem Found.passes_member (doc : Found schema n) {qs : List QName} (simple : ∀ q ∈ qs, IsSimple q)
    {name : String} (inside : name ∈ words (readValue (" ".intercalate (qs.map QName.text)))) :
    Passes n ⟨name, .type⟩ := by
  have solid : ∀ w ∈ qs.map QName.text, Solid w := by
    intro w member
    obtain ⟨q, present, rfl⟩ := List.mem_map.mp member
    exact simple_solid (simple q present)
  rw [readValue_words solid, words_intercalate solid] at inside
  obtain ⟨q, present, rfl⟩ := List.mem_map.mp inside
  obtain ⟨last, rfl, _⟩ := simple q present
  exact doc.passes_language (.inl rfl) last .type

theorem Found.passes_single (doc : Found schema n) {qs : List QName} {space : Space}
    (standard : ∀ q ∈ qs, Standard q) (one : qs.length = 1) :
    Passes n ⟨readValue (" ".intercalate (qs.map QName.text)), space⟩ := by
  obtain ⟨q, rfl⟩ := List.length_eq_one_iff.mp one
  exact doc.passes_standard (standard q List.mem_cons_self) space

/-- A reference to a class of another specification passes, unless the schema of that class has no
namespace. -/
theorem Outcome.imported_passes (o : Outcome s schema) (doc : Found schema n)
    (named : schema.PrefixesNamed) {c : Class} {e : Import.Entry} {key : String}
    (keyed : key = "type" ∨ key = "base") (known : s.model.Knows c)
    (imported : ImportedBy s schema c e)
    (member : (key, (importedName schema e (toNCName c.label)).text) ∈ references (toXml schema))
    (adopted : ∀ own uri, schema.target = some (own, uri) → Adopts s schema c →
      toNCName c.label ∈ topLevel "xs:complexType" (toXml schema).children ∨ Granted schema uri) :
    Passes n ⟨readValue (importedName schema e (toNCName c.label)).text, .type⟩ := by
  cases read : e.descriptor.uri with
  | some uri =>
    obtain ⟨own, bound, _⟩ := imported.bound uri read
    exact doc.passes_imported named imported.listed bound read _ _
  | none =>
    have part := toNCName_part c.label
    have text : importedName schema e (toNCName c.label) =
        ownName schema (toNCName c.label) := by
      rw [importedName, imported.unbound read]
    rw [text] at member ⊢
    -- The name is like one of the schema's own, but nothing need be declared for it.
    cases target : schema.target with
    | none => exact doc.passes_included named part target imported.listed read _
    | some pair =>
      obtain ⟨own, uri⟩ := pair
      refine (o.passes_own_iff doc named part target).mpr (adopted own uri target ?_)
      exact ⟨known, ⟨e, imported, read⟩, key, keyed, member⟩

/-- Of all references only those to classes of schemas without a namespace may not pass. -/
theorem Outcome.reference_passes (o : Outcome s schema) (doc : Found schema n)
    (named : schema.PrefixesNamed) {a : String × String} (member : a ∈ references (toXml schema))
    {r : Reference} (from_a : ReadFrom a r)
    (adopted : ∀ own uri, schema.target = some (own, uri) → ∀ c, Adopts s schema c →
      toNCName c.label ∈ topLevel "xs:complexType" (toXml schema).children ∨ Granted schema uri) :
    Passes n r := by
  have written := o.references_written a member
  cases from_a with
  | language => exact doc.passes_language (.inr rfl) "lang" _
  | member inside =>
    obtain ⟨qs, simple, rfl⟩ := members_written written rfl
    exact doc.passes_member simple inside
  | group =>
    cases o.written_resolves written with
    | standard standard one => exact doc.passes_single standard (one (by decide))
    | type keyed => exact absurd keyed (by decide)
    | imported keyed => exact absurd keyed (by decide)
    | @group name once =>
      have declared : name ∈ topLevel "xs:group" (toXml schema).children :=
        List.count_pos_iff.mp (by omega)
      refine doc.passes_own named (o.groups_belong name declared).part ?_
      rw [Declarations.declares, o.groups_found doc]
      exact List.contains_iff_mem.mpr declared
  | @type key v keyed =>
    cases o.written_resolves written with
    | standard standard one =>
      refine doc.passes_single standard (one ?_)
      rcases keyed with rfl | rfl <;> decide
    | @type _ name _ once =>
      have declared : name ∈ topLevel "xs:complexType" (toXml schema).children :=
        List.count_pos_iff.mp (by omega)
      refine doc.passes_own named (o.types_part declared) ?_
      rw [Declarations.declares, o.types_found doc]
      exact List.contains_iff_mem.mpr declared
    | group once => exact absurd keyed (by decide)
    | imported _ known _ imported =>
      exact o.imported_passes doc named keyed known imported member fun own uri target =>
        adopted own uri target _

end Schema

/-! ### The checks of a schema -/

variable {s : Source} {schema : Schema} {n : Node}

theorem Conformance.checkReferences_failed_iff {d : Declarations} :
    (checkReferences n d).severity = .failure ↔ ∃ detail, .unresolved detail ∈ resolutions n d := by
  unfold checkReferences
  dsimp only
  split
  next filled =>
    refine iff_of_true rfl ?_
    have filled := Bool.not_eq_true' _ |>.mp filled
    obtain ⟨detail, member⟩ := List.exists_mem_of_ne_nil _ (List.isEmpty_eq_false_iff.mp filled)
    obtain ⟨o, present, same⟩ := List.mem_filterMap.mp member
    cases o with
    | unresolved detail => exact ⟨detail, present⟩
    | resolved | deferred => cases same
  next empty =>
    refine iff_of_false (by split <;> simp [Finding.warned, Finding.passed]) ?_
    rintro ⟨detail, member⟩
    rw [Bool.not_eq_true', Bool.not_eq_false, List.isEmpty_iff] at empty
    cases List.filterMap_eq_nil_iff.mp empty _ member

/-- The prefixes for the namespace of a model and for those of the schemas it may import are made of
the characters of names. -/
structure Source.NamedPrefixes (s : Source) : Prop where
  own : ∀ target ∈ s.model.target?, ∀ c ∈ target.1.toList, isNamePart c
  published : ∀ manifest ∈ s.manifests, ∀ p ∈ manifest.publications, p.kind = .schema →
    ∀ nsPrefix ∈ p.nsPrefix, ∀ c ∈ nsPrefix.toList, isNamePart c

theorem Source.NamedPrefixes.plain (named : s.NamedPrefixes) : s.PlainPrefixes := by
  have other : isNamePart '=' = false := by decide
  refine ⟨fun target member inside => ?_, fun manifest listed p present kind own given inside => ?_⟩
  · exact absurd (named.own target member '=' inside) (by simp [other])
  · exact absurd (named.published manifest listed p present kind own given '=' inside)
      (by simp [other])

theorem Schema.prefixesNamed (named : s.NamedPrefixes) (h : generate s = .ok schema) :
    schema.PrefixesNamed := by
  refine generate_prefixes h named.own named.published fun k c member => ?_
  rw [Import.Table.numbered, String.toList_append] at member
  rcases List.mem_append.mp member with first | digit
  · have start : "imp".toList.all isNamePart := by decide
    exact List.all_eq_true.mp start c first
  · exact Xml.isNamePart_of_isDigit (toString_digits k c digit)

theorem Conformance.checkSchema_eq {text : String} {m : Model} (parsed : Node.parse? text = some n)
    (named : n.isNamed Vocabulary.xmlSchema "schema") :
    checkSchema text m = [checkReferences n (.ofRoot n), checkRoots (.ofRoot n) m] := by
  simp [checkSchema, parsed, named]

/-- No check of a schema fails that can be read, except where it refers to a class of a schema
without a namespace: the name of the type is in the target namespace then, and the check finds
nothing of that name unless the schema has such a type of its own or the namespace is taken for
granted. -/
theorem schema_checks_pass_iff (named : s.NamedPrefixes) (h : Schema.generate s = .ok schema)
    (parsed : (Node.parse? (Schema.render schema)).isSome) :
    (∀ f ∈ checkSchema (Schema.render schema) s.model, f.severity ≠ .failure) ↔
      ∀ own uri, s.model.target? = some (own, uri) → ∀ c, Schema.Adopts s schema c →
        toNCName c.label ∈ Schema.topLevel "xs:complexType" (Schema.toXml schema).children ∨
          Schema.Granted schema uri := by
  obtain ⟨n, parsed⟩ := Option.isSome_iff_exists.mp parsed
  obtain ⟨_, _, _, run, _⟩ := Schema.generate_run h
  obtain ⟨o, _, _⟩ := Schema.generate_history h run
  obtain ⟨cs, found, _⟩ := o.rooted
  have reads := Schema.generate_reads named.plain h parsed
  have prefixes := Schema.prefixesNamed named h
  have doc := Schema.found prefixes reads
  have roots := checkRoots_generated found h reads
  -- The check of the roots never fails, so that it is the references that decide.
  have all : (∀ f ∈ checkSchema (Schema.render schema) s.model, f.severity ≠ .failure) ↔
      ¬ ∃ detail, .unresolved detail ∈ resolutions n (.ofRoot n) := by
    rw [checkSchema_eq parsed doc.named, ← checkReferences_failed_iff]
    simp [roots]
  rw [all, ← o.source]
  constructor
  · intro none own uri target c adopts
    obtain ⟨key, keyed, referred⟩ := adopts.referred
    refine (o.passes_own_iff doc prefixes (toNCName_part c.label) target).mp
      fun ⟨detail, same⟩ => ?_
    exact none ⟨detail, same ▸ resolutions_type doc keyed referred⟩
  · rintro adopted ⟨detail, member⟩
    obtain ⟨a, written, r, from_a, same⟩ := resolutions_written doc member
    exact o.reference_passes doc prefixes written from_a adopted ⟨detail, same⟩

/-! ### The schema of a holder of agents -/

theorem holdings_named (uri : Option String) : (holdings uri).NamedPrefixes := by
  have parts : ∀ own ∈ ["a", "b"], own.toList.all isNamePart := by decide
  have inside {own : String} (member : own ∈ ["a", "b"]) : ∀ c ∈ own.toList, isNamePart c :=
    List.all_eq_true.mp (parts own member)
  constructor
  · rintro _ ⟨⟩
    exact @inside "a" (by decide)
  · intro manifest listed p present kind own given
    obtain rfl := List.mem_singleton.mp listed
    have first : own = "b" := by
      simp only [List.mem_cons, List.not_mem_nil, or_false] at present
      rcases present with rfl | rfl
      · exact (Option.some.inj given).symm
      · cases kind
    exact inside (by simp [first])

theorem schema_checks_pass_agents :
    (Node.parse? (Schema.render (holdingsSchema agentsUri))).isSome ∧
    ∀ f ∈ checkSchema (Schema.render (holdingsSchema agentsUri)) (holdings agentsUri).model,
      f.severity ≠ .failure := by
  have parsed : (Node.parse? (Schema.render (holdingsSchema agentsUri))).isSome := by
    rw [Schema.render, Xml.parse?_chars]
    decide +kernel
  refine ⟨parsed, ?_⟩
  refine (schema_checks_pass_iff (holdings_named agentsUri) (generate_holdings agentsUri)
    parsed).mpr ?_
  intro _ _ _ c adopts
  obtain ⟨e, imported, none⟩ := adopts.imported
  obtain rfl := List.mem_singleton.mp imported.listed
  cases none

/-- What the check of the references says of a schema. -/
def referencesRead (text : String) : Option (Bool × Severity × List String) :=
  (Node.parse? text).map fun n =>
    (n.isNamed Vocabulary.xmlSchema "schema", (checkReferences n (.ofRoot n)).severity,
      (checkReferences n (.ofRoot n)).details)

/-- Where the schema of the agents has no namespace, the holder's schema names the type of an agent
in the target namespace, and the check reports that there is no such type. -/
theorem adopted_type_reported : Schema.generate (holdings none) = .ok (holdingsSchema none) ∧
    (Node.parse? (Schema.render (holdingsSchema none))).isSome ∧
    ∃ f ∈ checkSchema (Schema.render (holdingsSchema none)) (holdings none).model,
      f.check = "schema/references" ∧ f.severity = .failure ∧ f.details = ["a:Agent"] := by
  have read : referencesRead (Schema.render (holdingsSchema none)) =
      some (true, .failure, ["a:Agent"]) := by
    rw [referencesRead, Schema.render, Xml.parse?_chars]
    decide +kernel
  obtain ⟨n, parsed, same⟩ := Option.map_eq_some_iff.mp read
  obtain ⟨named, severity, details⟩ := by simpa using same
  refine ⟨generate_holdings none, by simp [parsed], checkReferences n (.ofRoot n), ?_,
    checkReferences_check n _, severity, details⟩
  rw [checkSchema_eq parsed named]
  exact List.mem_cons_self

end RdfXmlMapping
