import RdfXmlMapping.Conformance.Schema
import RdfXmlMapping.Model.Build
import RdfXmlMapping.Proofs.Roots

/-!
Checks of the roots. Where prefixes do not break the markup, what a model generates passes the
checks of its own roots (`roots_agree`).
-/

namespace RdfXmlMapping

open Conformance
open Xml (Node normalised readValue)

variable {s : Source} {m : Model} {cs : List Class} {schema : Schema} {l : Lifting}
  {d : Declarations}

/-! ### What the checks ask for -/

namespace Conformance

theorem mem_expectedElements_iff {name : String} : name ∈ expectedElements m ↔
    ∃ iri ∈ m.rootCandidates, ∃ c, m.find? iri = some c ∧ toNCName c.label = name := by
  simp only [expectedElements, List.mem_eraseDups, List.mem_filterMap, Option.map_eq_some_iff]

theorem mem_expectedElements (roots : m.RootsOf m.rootCandidates cs) {name : String} :
    name ∈ expectedElements m ↔ name ∈ cs.map Model.elementName := by
  rw [mem_expectedElements_iff, List.mem_map]
  constructor
  · rintro ⟨iri, candidate, c, found, rfl⟩
    obtain ⟨d, member, rfl⟩ := (roots.named iri).mpr candidate
    obtain rfl := Option.some.inj (found.symm.trans (roots.knows d member))
    exact ⟨c, member, rfl⟩
  · rintro ⟨c, member, rfl⟩
    exact ⟨c.iri, (roots.named c.iri).mp ⟨c, member, rfl⟩, c, roots.knows c member, rfl⟩

/-- A schema does not fail whose candidates are classes and whose global elements are those of the
roots, each once. -/
theorem checkRoots_passes_iff : (checkRoots d m).severity ≠ .failure ↔
    (∀ iri ∈ m.rootCandidates, ∃ c, m.find? iri = some c) ∧
      d.elements.Nodup ∧ ∀ name, name ∈ d.elements ↔ name ∈ expectedElements m := by
  have dangling : (m.rootCandidates.filter fun iri => (m.find? iri).isNone) = [] ↔
      ∀ iri ∈ m.rootCandidates, ∃ c, m.find? iri = some c := by
    simp [List.filter_eq_nil_iff, Option.ne_none_iff_exists']
  have surplus : (d.elements.filter (!(expectedElements m).contains ·)) = [] ↔
      ∀ name ∈ d.elements, name ∈ expectedElements m := by
    simp [List.filter_eq_nil_iff]
  have verdict : (checkRoots d m).severity ≠ .failure ↔
      (∀ iri ∈ m.rootCandidates, ∃ c, m.find? iri = some c) ∧
        (∀ name ∈ expectedElements m, d.elements.count name = 1) ∧
        ∀ name ∈ d.elements, name ∈ expectedElements m := by
    unfold checkRoots
    dsimp only
    split
    next none =>
      simp only [List.append_eq_nil_iff, List.map_eq_nil_iff] at none
      obtain ⟨⟨known, counted⟩, no_other⟩ := none
      refine iff_of_true nofun ⟨dangling.mp known, fun name expected => ?_, surplus.mp no_other⟩
      have counted := List.filterMap_eq_nil_iff.mp counted name expected
      split at counted
      · cases counted
      · assumption
      · cases counted
    next some =>
      refine iff_of_false (fun h => h rfl) fun ⟨known, once, only⟩ => some ?_
      rw [dangling.mpr known, surplus.mpr only, List.filterMap_eq_nil_iff.mpr]
      · rfl
      · intro name expected
        rw [once name expected]
        rfl
  rw [verdict]
  refine and_congr_right fun _ => ⟨fun ⟨once, only⟩ => ⟨?_, fun name => ⟨only name, ?_⟩⟩, ?_⟩
  · refine List.nodup_iff_count_le_one.mpr fun name => ?_
    by_cases present : name ∈ d.elements
    · exact (once name (only name present)).le
    · simp [List.count_eq_zero_of_not_mem present]
  · exact fun expected => List.count_pos_iff.mp (by rw [once name expected]; decide)
  · rintro ⟨distinct, same⟩
    exact ⟨fun name expected => List.count_eq_one_of_mem distinct ((same name).mpr expected),
      fun name present => (same name).mp present⟩

theorem checkRoots_settled (passes : (checkRoots d m).severity ≠ .failure) :
    (checkRoots d m).severity = .pass := by
  unfold checkRoots at passes ⊢
  dsimp only at passes ⊢
  split at passes
  · rfl
  · exact absurd rfl passes

/-- A schema passes whose global elements are those of the roots, each once. -/
theorem checkRoots_passed (roots : m.RootsOf m.rootCandidates cs)
    (elements : d.elements = cs.map Model.elementName) : (checkRoots d m).severity = .pass := by
  refine checkRoots_settled
    (checkRoots_passes_iff.mpr ⟨fun iri candidate => ?_, ?_, fun name => ?_⟩)
  · obtain ⟨c, member, rfl⟩ := (roots.named iri).mpr candidate
    exact ⟨c, roots.knows c member⟩
  · rw [elements]
    exact roots.distinct
  · rw [elements, mem_expectedElements roots]

/-- A schema does not pass that has a global element for no root. -/
theorem checkRoots_failed {name : String} (present : name ∈ d.elements)
    (other : name ∉ expectedElements m) : (checkRoots d m).severity = .failure := by
  by_contra passes
  obtain ⟨_, _, same⟩ := checkRoots_passes_iff.mp passes
  exact other ((same name).mp present)

/-! ### Values as they are read -/

theorem normalised_elementName (c : Class) :
    normalised (Model.elementName c).toList = (Model.elementName c).toList :=
  Xml.normalised_plain fun _ member =>
    Xml.isSpace_of_plain fun blank => not_mem_of_isPart (toNCName_part c.label) blank member

theorem readValue_elementNames (cs : List Class) :
    (cs.map Model.elementName).map readValue = cs.map Model.elementName := by
  rw [List.map_map]
  refine List.map_congr_left fun c _ => ?_
  rw [Function.comp_apply, readValue, normalised_elementName, String.ofList_toList]

/-- Of the pattern of a rule, a reader may change the prefix only. -/
theorem readValue_pattern (own : Option String) (c : Class) :
    readValue ("/" ++ (⟨own, Model.elementName c⟩ : Xml.QName).text) =
      "/" ++ (⟨own.map readValue, Model.elementName c⟩ : Xml.QName).text := by
  rw [← String.toList_inj, readValue, String.toList_ofList, String.toList_append]
  have slash (cs : List Char) : normalised ("/".toList ++ cs) = "/".toList ++ normalised cs :=
    Xml.normalised_cons (by decide) rfl
  cases own with
  | none =>
    rw [slash, Option.map_none, Xml.QName.text, normalised_elementName, String.toList_append]
  | some own =>
    have written : (own ++ ":" ++ Model.elementName c).toList =
        own.toList ++ ':' :: (Model.elementName c).toList := by simp
    have name : normalised (':' :: (Model.elementName c).toList) =
        ':' :: (Model.elementName c).toList := by
      rw [Xml.normalised_cons (by decide) rfl, normalised_elementName]
    rw [slash, Option.map_some, Xml.QName.text, Xml.QName.text, written,
      Xml.normalised_append (by simp), name]
    simp [readValue]

/-! ### Names of checks -/

theorem checkReferences_check (root : Node) (d : Declarations) :
    (checkReferences root d).check = "schema/references" := by
  unfold checkReferences
  dsimp only
  split
  · rfl
  · split <;> rfl

theorem checkRoots_check (d : Declarations) (m : Model) :
    (checkRoots d m).check = "schema/roots" := by
  unfold checkRoots
  dsimp only
  split <;> rfl

theorem checkTemplates_check (lifting lowering : Node) :
    (checkTemplates lifting lowering).check = "consistency/templates" := by
  unfold checkTemplates
  dsimp only
  split <;> rfl

theorem checkCalls_check (kind : ArtifactKind) (sheet : Node) :
    (checkCalls kind sheet).check = "consistency/calls/" ++ kind.name := by
  unfold checkCalls
  dsimp only
  split
  · rfl
  · split <;> rfl

theorem checkParameters_check (lowering : Node) (b : Bindings) :
    (checkParameters lowering b).check = "consistency/bindings" := by
  unfold checkParameters
  dsimp only
  split <;> rfl

def rootChecks : List String := ["schema/roots", "consistency/roots"]

/-- Of the checks of a schema, only one is about the roots. -/
theorem checkSchema_roots {text : String} {f : Finding} (member : f ∈ checkSchema text m)
    (named : f.check ∈ rootChecks) :
    ∃ root, Node.parse? text = some root ∧ f = checkRoots (.ofRoot root) m := by
  unfold checkSchema at member
  split at member
  · obtain rfl := List.mem_singleton.mp member
    exact absurd named (by decide)
  next root parsed =>
    split at member
    · obtain rfl := List.mem_singleton.mp member
      exact absurd named (by decide)
    · rcases List.mem_cons.mp member with rfl | member
      · rw [checkReferences_check] at named
        exact absurd named (by decide)
      · exact ⟨root, parsed, List.mem_singleton.mp member⟩

theorem checkRoots_mem {text : String} {root : Node} (parsed : Node.parse? text = some root)
    (named : root.isNamed Vocabulary.xmlSchema "schema") :
    checkRoots (.ofRoot root) m ∈ checkSchema text m := by
  simp [checkSchema, parsed, named]

/-- Of the checks of artifacts against each other, only one is about the roots. -/
theorem checkAgreement_roots {set : ArtifactSet} {b : Bindings} {f : Finding}
    (member : f ∈ checkAgreement set b) (named : f.check ∈ rootChecks) :
    ∃ root sheet, set.schema.bind Node.parse? = some root ∧
      set.lifting.bind Node.parse? = some sheet ∧ f = checkRules root sheet := by
  unfold checkAgreement at member
  simp only [List.mem_append, Option.mem_toList, Option.map_eq_some_iff] at member
  rcases member with (((rules | templates) | ⟨sheet, _, rfl⟩) | ⟨sheet, _, rfl⟩) | ⟨sheet, _, rfl⟩
  · split at rules
    next root sheet schema lifting =>
      exact ⟨root, sheet, schema, lifting, List.mem_singleton.mp rules⟩
    next => cases rules
  · split at templates
    · obtain rfl := List.mem_singleton.mp templates
      rw [checkTemplates_check] at named
      exact absurd named (by decide)
    · cases templates
  · rw [checkCalls_check] at named
    exact absurd named (by decide)
  · rw [checkCalls_check] at named
    exact absurd named (by decide)
  · rw [checkParameters_check] at named
    exact absurd named (by decide)

end Conformance

/-! ### Prefixes -/

/-- The prefixes for the namespace of a model and for those of the schemas it may import end no
attribute early. -/
structure Source.PlainPrefixes (s : Source) : Prop where
  own : ∀ target ∈ s.model.target?, '=' ∉ target.1.toList
  published : ∀ manifest ∈ s.manifests, ∀ p ∈ manifest.publications, p.kind = .schema →
    ∀ nsPrefix ∈ p.nsPrefix, '=' ∉ nsPrefix.toList

/-- The prefixes in a schema are that of the model, those that are published with schemas, and
numbered ones. -/
theorem Schema.generate_prefixes {P : String → Prop} (h : generate s = .ok schema)
    (own : ∀ target ∈ s.model.target?, P target.1)
    (published : ∀ manifest ∈ s.manifests, ∀ p ∈ manifest.publications, p.kind = .schema →
      ∀ nsPrefix ∈ p.nsPrefix, P nsPrefix) (numbered : ∀ n, P (Import.Table.numbered n)) :
    (∀ own ∈ schema.target.map (·.1), P own) ∧ ∀ e ∈ schema.imports, ∀ own ∈ e.bound, P own := by
  obtain ⟨_, _, _, run, _⟩ := generate_run h
  obtain ⟨o, _, _⟩ := generate_outcome h run
  constructor
  · intro name member
    rw [o.source] at member
    obtain ⟨pair, bound, rfl⟩ := Option.map_eq_some_iff.mp member
    exact own pair bound
  · intro e member name bound
    rw [o.imports] at member
    obtain ⟨c, _, resolved⟩ := o.kept.origins e member
    obtain ⟨manifest, listed, p, present, kind, same⟩ := Import.Outlook.resolve_published resolved
    rw [o.outlook] at listed kind
    rcases (o.kept.imports.free e member name bound).2 with given | ⟨n, rfl⟩
    · exact published manifest listed p present kind name (same ▸ given)
    · exact numbered n

theorem Schema.generate_reads {n : Node} (plain : s.PlainPrefixes) (h : generate s = .ok schema)
    (parsed : Node.parse? (render schema) = some n) : Xml.Reads [] (toXml schema) n := by
  have numbered : ∀ n, '=' ∉ (Import.Table.numbered n).toList := by
    intro n inside
    rcases List.mem_append.mp (String.toList_append ▸ inside) with first | digit
    · exact absurd first (by decide)
    · exact absurd (toString_digits n '=' digit) (by decide)
  obtain ⟨target, imports⟩ := generate_prefixes h plain.own plain.published numbered
  exact Xml.parse?_document (readable_schema (headAttributes_keys target imports)) parsed

theorem Lifting.generate_target (h : generate s = .ok l) : l.target = s.model.target? := by
  obtain ⟨_, _, h⟩ := except_bind_ok h
  obtain ⟨_, _, h⟩ := except_bind_ok h
  obtain rfl := Except.ok.inj h
  rfl

theorem Lifting.generate_reads {n : Node} (plain : s.PlainPrefixes) (h : generate s = .ok l)
    (parsed : Node.parse? (render l) = some n) : Xml.Reads [] (toXml l) n := by
  refine Xml.parse?_document (readable_lifting h fun own member => ?_) parsed
  rw [generate_target h] at member
  obtain ⟨pair, bound, rfl⟩ := Option.map_eq_some_iff.mp member
  exact plain.own pair bound

/-! ### The roots in the artifacts -/

/-- The elements that the checks find in a schema. -/
theorem Schema.read_elements {n : Node} (found : s.model.rootClasses = .ok cs)
    (h : generate s = .ok schema) (reads : Xml.Reads [] (toXml schema) n)
    {P : Xml.ExpandedName → Bool}
    (chosen : ∀ last, P ⟨some Vocabulary.xmlSchema, last⟩ = decide (last = "element")) :
    (n.children.filter fun n => n.name?.any P).filterMap (·.attribute? "name") =
      cs.map Model.elementName := by
  have written : Xml.valuesOf "xs:element" "name" (toXml schema).children =
      cs.map Model.elementName := generate_elements found h
  rw [elements_read reads chosen, written]
  exact readValue_elementNames cs

/-- The elements that the checks find at the rules of a stylesheet. -/
theorem Lifting.read_rules {n : Node} (found : s.model.rootClasses = .ok cs)
    (h : generate s = .ok l) (reads : Xml.Reads [] (toXml l) n) :
    ((n.childrenNamed Vocabulary.xslt "template").filterMap fun n =>
      (n.attribute? "match").bind rootName?) = cs.map Model.elementName := by
  have other : rootName? (readValue "@*|node()") = none := by decide
  rw [← List.filterMap_filterMap, Xml.childrenNamed_eq, patterns_read reads fun last => by simp]
  refine rootNames_patterns readValue (generate_roots found h) (fun c _ => ?_) other
  rw [Stylesheet.targetName, readValue_pattern]
  exact rootName?_element _ c

theorem Conformance.checkRoots_generated {n : Node} (found : s.model.rootClasses = .ok cs)
    (h : Schema.generate s = .ok schema) (reads : Xml.Reads [] (Schema.toXml schema) n) :
    (checkRoots (.ofRoot n) s.model).severity = .pass :=
  checkRoots_passed (Model.rootClasses_roots found)
    (Schema.read_elements found h reads fun last => by simp)

theorem Conformance.checkRules_generated {n n' : Node} (found : s.model.rootClasses = .ok cs)
    (made : Schema.generate s = .ok schema) (reads : Xml.Reads [] (Schema.toXml schema) n)
    (made' : Lifting.generate s = .ok l) (reads' : Xml.Reads [] (Lifting.toXml l) n') :
    (checkRules n n').severity = .pass := by
  have elements : (n.childrenNamed Vocabulary.xmlSchema "element").filterMap (·.attribute? "name") =
      cs.map Model.elementName := by
    rw [Xml.childrenNamed_eq]
    exact Schema.read_elements found made reads fun last => by simp
  rw [checkRules, elements, Lifting.read_rules found made' reads', if_pos rfl]
  rfl

/-- The artifacts of a model have the same roots in the same order: those of the model, each with a
name of its own. The checks of the roots find nothing wrong unless a prefix breaks the markup. -/
theorem roots_agree {w : Lowering} (made : Schema.generate s = .ok schema)
    (lifted : Lifting.generate s = .ok l) (lowered : Lowering.generate s = .ok w) :
    ∃ cs : List Class, s.model.rootCandidates.eraseDups.map s.model.find? = cs.map some ∧
      (cs.map fun c => toNCName c.label).Nodup ∧
      Schema.globalElements (Schema.toXml schema) = (cs.map fun c => toNCName c.label) ∧
      Lifting.matchedElements (Lifting.toXml l) = (cs.map fun c => toNCName c.label) ∧
      Lowering.writtenElements (Lowering.toXml w) = (cs.map fun c => toNCName c.label) ∧
      (s.PlainPrefixes → ∀ (set : ArtifactSet) (b : Bindings),
        set.schema = some (Schema.render schema) → set.lifting = some (Lifting.render l) →
        ∀ f ∈ checkSchema (Schema.render schema) s.model ++ checkAgreement set b,
          f.check = "schema/roots" ∨ f.check = "consistency/roots" → f.severity = .pass) := by
  obtain ⟨_, _, _, run, _⟩ := Schema.generate_run made
  obtain ⟨o, _, _⟩ := Schema.generate_history made run
  obtain ⟨cs, found, _⟩ := o.rooted
  have roots := Model.rootClasses_roots found
  refine ⟨cs, roots.ordered, roots.distinct, Schema.generate_elements found made,
    Lifting.generate_matches found lifted, Lowering.generate_writes_roots found lowered, ?_⟩
  intro plain set b has_schema has_lifting f member named
  have about : f.check ∈ rootChecks := by simpa [rootChecks] using named
  rcases List.mem_append.mp member with alone | together
  · obtain ⟨n, parsed, rfl⟩ := checkSchema_roots alone about
    exact checkRoots_generated found made (Schema.generate_reads plain made parsed)
  · obtain ⟨n, n', parsed, parsed', rfl⟩ := checkAgreement_roots together about
    rw [has_schema] at parsed
    rw [has_lifting] at parsed'
    exact checkRules_generated found made (Schema.generate_reads plain made parsed) lifted
      (Lifting.generate_reads plain lifted parsed')

/-! ### The roots of a quay -/

/-- A quay with ships and cranes, whose elements are in a namespace with the given prefix. -/
def quay (own : String) : Source where
  model := { Model.make "quay" "harbour" with uri := some "u", nsPrefix := some own }
    |>.rootedAt ["Ship"] |>.rootedAt ["Crane", "Ship"]
    |>.declaring { Class.make "Ship" "Ship" with meaning := some "https://ex.org/Ship" }
    |>.declaring { Class.make "Crane" "Quay crane" with meaning := some "https://ex.org/Crane" }
  manifests := []
  config := { output := { baseAddress := "https://own.org/" } }

def quaySchema (own : String) : Schema where
  target := some (own, "u")
  importsXml := false
  imports := []
  declarations :=
    [.root "Ship" {} (.nested [.identity]), .root "Quay_crane" {} (.nested [.identity])]

set_option maxRecDepth 2000 in
theorem generate_quay (own : String) : Schema.generate (quay own) = .ok (quaySchema own) := by cbv

set_option maxRecDepth 2000 in
theorem transform_quay (own : String) :
    (Lifting.generate (quay own)).isOk ∧ (Lowering.generate (quay own)).isOk := by
  constructor <;> cbv

/-- What the check of the roots looks at in a schema. -/
def rootsRead (text : String) : Option (Bool × List String) :=
  (Node.parse? text).map fun n =>
    (n.isNamed Vocabulary.xmlSchema "schema", (Declarations.ofRoot n).elements)

theorem checkRoots_read {text : String} {names : List String}
    (read : rootsRead text = some (true, names)) : ∃ d : Declarations, d.elements = names ∧
      checkRoots d m ∈ checkSchema text m := by
  obtain ⟨n, parsed, same⟩ := Option.map_eq_some_iff.mp read
  obtain ⟨named, elements⟩ := Prod.mk.inj same
  exact ⟨.ofRoot n, elements, checkRoots_mem parsed named⟩

theorem roots_agree_quay : ∃ l w,
    Schema.generate (quay "own") = .ok (quaySchema "own") ∧
    Lifting.generate (quay "own") = .ok l ∧ Lowering.generate (quay "own") = .ok w ∧
    Schema.globalElements (Schema.toXml (quaySchema "own")) = ["Ship", "Quay_crane"] ∧
    Lifting.matchedElements (Lifting.toXml l) = ["Ship", "Quay_crane"] ∧
    Lowering.writtenElements (Lowering.toXml w) = ["Ship", "Quay_crane"] ∧
    ∃ f ∈ checkSchema (Schema.render (quaySchema "own")) (quay "own").model,
      f.check = "schema/roots" ∧ f.severity = .pass := by
  have read : rootsRead (Schema.render (quaySchema "own")) =
      some (true, ["Ship", "Quay_crane"]) := by
    rw [rootsRead, Schema.render, Xml.parse?_chars]
    decide +kernel
  have plain : (quay "own").PlainPrefixes := by
    refine ⟨fun target member => ?_, fun _ member => by cases member⟩
    obtain rfl := Option.some.inj member
    decide
  have elements : Schema.globalElements (Schema.toXml (quaySchema "own")) =
      ["Ship", "Quay_crane"] := by decide +kernel
  obtain ⟨lifts, lowers⟩ := transform_quay "own"
  obtain ⟨l, lifted⟩ := except_isOk lifts
  obtain ⟨w, lowered⟩ := except_isOk lowers
  obtain ⟨cs, _, _, declared, matched, written, check⟩ :=
    roots_agree (generate_quay "own") lifted lowered
  rw [← declared, elements] at matched written
  obtain ⟨d, _, member⟩ := checkRoots_read (m := (quay "own").model) read
  refine ⟨l, w, generate_quay "own", lifted, lowered, elements, matched, written, _, member,
    checkRoots_check d _, ?_⟩
  refine check plain { schema := some (Schema.render (quaySchema "own"))
                       lifting := some (Lifting.render l) } {} rfl rfl _ ?_ ?_
  · exact List.mem_append_left _ member
  · exact .inl (checkRoots_check d _)

/-- A prefix that holds the end of an attribute, the end of a tag, and an element. -/
def intruder : String := "p=\"u\"><element name=\"Evil\"/>"

/-- Where a prefix holds markup, the schema has an element that is no root, and the check of the
roots says so. -/
theorem roots_reported : ∃ l w,
    Schema.generate (quay intruder) = .ok (quaySchema intruder) ∧
    Lifting.generate (quay intruder) = .ok l ∧ Lowering.generate (quay intruder) = .ok w ∧
    ∃ f ∈ checkSchema (Schema.render (quaySchema intruder)) (quay intruder).model,
      f.check = "schema/roots" ∧ f.severity = .failure := by
  have read : rootsRead (Schema.render (quaySchema intruder)) =
      some (true, ["Evil", "Ship", "Quay_crane"]) := by
    rw [rootsRead, Schema.render, Xml.parse?_chars]
    decide +kernel
  have other : "Evil" ∉ expectedElements (quay intruder).model := by decide +kernel
  obtain ⟨lifts, lowers⟩ := transform_quay intruder
  obtain ⟨l, lifted⟩ := except_isOk lifts
  obtain ⟨w, lowered⟩ := except_isOk lowers
  obtain ⟨d, elements, member⟩ := checkRoots_read (m := (quay intruder).model) read
  have present : "Evil" ∈ d.elements := by simp [elements]
  exact ⟨l, w, generate_quay intruder, lifted, lowered, _, member, checkRoots_check d _,
    checkRoots_failed present other⟩

end RdfXmlMapping
