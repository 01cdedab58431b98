import Mathlib.Data.List.SplitBy
import RdfXmlMapping.Proofs.Conformance.Documents
import RdfXmlMapping.Proofs.Conformance.Words

/-!
What the check of the references looks up. It finds the references that were written in a schema
document (`resolutions_written`, `resolutions_type`), takes their names apart (`splitName_prefixed`,
`words_intercalate`), and has no objection where a name is in a known namespace (`resolve_iff`).
-/

namespace RdfXmlMapping

open Conformance
open Xml (Element Node isNamePart isSpace readValue)

/-! ### Characters of names -/

theorem isBlank_part {c : Char} (part : NCName.isPart c) : Unicode.isBlank c = false := by
  have blanks : ∀ r ∈ Unicode.blankRanges, ∀ n ∈ List.range' r.1 (r.2 + 1 - r.1),
      NCName.isPart (Char.ofNat n) = false := by decide +kernel
  refine Bool.eq_false_iff.mpr fun blank => ?_
  obtain ⟨r, member, low, high⟩ := Unicode.mem_of_inRanges blank
  have none := blanks r member c.toNat (List.mem_range'_1.mpr (by omega))
  rw [Char.ofNat_toNat, part] at none
  cases none

theorem isSpace_part {c : Char} (part : NCName.isPart c) : isSpace c = false := by
  refine Xml.isSpace_of_plain fun markup => ?_
  rw [isPart_markup markup] at part
  cases part

theorem isSpace_namePart {c : Char} (part : isNamePart c) : isSpace c = false := by
  refine Bool.eq_false_iff.mpr fun blank => ?_
  simp only [isSpace, Bool.or_eq_true, decide_eq_true_eq] at blank
  rcases blank with ((rfl | rfl) | rfl) | rfl <;> exact absurd part (by decide)

namespace Conformance

variable {own last : String}

/-- Whether two characters are both blank or both not. -/
def alike (a b : Char) : Bool := Unicode.isBlank a = Unicode.isBlank b

theorem splitBy_run {run rest : List Char} {blank : Bool} (filled : run ≠ [])
    (same : ∀ c ∈ run, Unicode.isBlank c = blank)
    (next : ∀ c ∈ rest.head?, Unicode.isBlank c = !blank) :
    (run ++ rest).splitBy alike = run :: rest.splitBy alike := by
  have one : run.splitBy alike = [run] := by
    refine List.splitBy_of_isChain filled (List.Pairwise.isChain ?_)
    refine List.pairwise_of_forall_mem_list fun a first b second => ?_
    simp [alike, same a first, same b second]
  rw [List.splitBy_append, one, List.singleton_append]
  intro a final b first
  simp [alike, same a (List.mem_of_getLast? final), next b first]

/-- A text that is not empty and has no blank in it. -/
def Solid (w : String) : Prop := w.toList ≠ [] ∧ ∀ c ∈ w.toList, Unicode.isBlank c = false

theorem solid_head {w : String} {ws : List String} (solid : Solid w) :
    ∀ c ∈ ([' '].intercalate ((w :: ws).map String.toList)).head?, Unicode.isBlank c = false := by
  obtain ⟨c, cs, written⟩ := List.exists_cons_of_ne_nil solid.1
  have first := solid.2 c (written ▸ List.mem_cons_self)
  cases ws with
  | nil => simpa [written] using first
  | cons => simpa [written, List.intercalate_cons_cons] using first

/-- The word that a run of characters is, if it is not blank. -/
def wordOf? (run : List Char) : Option String :=
  if run.any Unicode.isBlank then none else some (.ofList run)

theorem wordOf?_solid {w : String} (solid : Solid w) : wordOf? w.toList = some w := by
  rw [wordOf?, if_neg, String.ofList_toList]
  simpa using solid.2

/-- Words with spaces between them are found again. -/
theorem words_intercalate {ws : List String} (solid : ∀ w ∈ ws, Solid w) :
    words (" ".intercalate ws) = ws := by
  -- The functions inside the definition are given their names.
  change ((" ".intercalate ws).toList.splitBy alike).filterMap wordOf? = ws
  rw [String.toList_intercalate]
  change (([' '].intercalate (ws.map String.toList)).splitBy alike).filterMap wordOf? = ws
  induction ws with
  | nil => rfl
  | cons w ws ih =>
    obtain ⟨first, others⟩ := List.forall_mem_cons.mp solid
    cases ws with
    | nil =>
      have one := @splitBy_run w.toList [] false first.1 first.2 (by simp)
      rw [List.append_nil] at one
      rw [List.map_singleton, List.intercalate_singleton, one,
        List.filterMap_cons_some (wordOf?_solid first)]
      rfl
    | cons w' ws =>
      have blank : Unicode.isBlank ' ' := by decide
      have space := @splitBy_run [' '] ([' '].intercalate ((w' :: ws).map String.toList)) true
        (by simp) (by simpa using blank) (solid_head (others w' List.mem_cons_self))
      rw [List.map_cons, List.map_cons, List.intercalate_cons_cons, ← List.map_cons,
        List.append_assoc, splitBy_run first.1 first.2 (by simpa using blank), space,
        List.filterMap_cons_some (wordOf?_solid first), List.filterMap_cons_none (by rfl),
        ih others]

theorem splitName_prefixed (free : ':' ∉ own.toList) (last : String) :
    splitName (own ++ ":" ++ last) = (some own, last) := by
  have written : (own ++ ":" ++ last).toList = own.toList ++ ':' :: last.toList := by simp
  have cut : (own.toList ++ ':' :: last.toList).span (· ≠ ':') =
      (own.toList, ':' :: last.toList) := by
    refine Text.span_append (fun c member => decide_eq_true ?_) (by simp)
    rintro rfl
    exact free member
  rw [splitName, written, cut]
  simp

theorem splitName_plain (free : ':' ∉ last.toList) : splitName last = (none, last) := by
  have cut : (last.toList ++ []).span (· ≠ ':') = (last.toList, []) := by
    refine Text.span_append (fun c member => decide_eq_true ?_) (by simp)
    rintro rfl
    exact free member
  rw [List.append_nil] at cut
  rw [splitName, cut]

/-! ### References of a document -/

open Schema (Found referenceKeys references referencesIn referring)

variable {schema : Schema} {n : Node} {d : Declarations} {r : Reference} {e : Element}

/-- A reference that the check finds in an attribute as it has been written. -/
inductive ReadFrom : String × String → Reference → Prop
  | type {key v : String} : key = "type" ∨ key = "base" → ReadFrom (key, v) ⟨readValue v, .type⟩
  | member {v name : String} : name ∈ words (readValue v) →
      ReadFrom ("memberTypes", v) ⟨name, .type⟩
  | group {v : String} : ReadFrom ("ref", v) ⟨readValue v, .group⟩
  | language {space : Space} : ReadFrom ("ref", "xml:lang") ⟨"xml:lang", space⟩

theorem attribute_written (regular : Schema.Regular e) {scope : Xml.Scope}
    (read : Xml.ReadIn scope e n) {key v' : String} (refers : key ∈ referenceKeys)
    (found : n.attribute? key = some v') :
    ∃ v, (key, v) ∈ referring e.attributes ∧ readValue v = v' := by
  rw [Schema.regular_value regular read refers] at found
  obtain ⟨v, written, rfl⟩ := Option.map_eq_some_iff.mp found
  have member := (Schema.lookup_iff (Schema.regular_once regular)).mp written
  exact ⟨v, List.mem_filter.mpr ⟨member, List.contains_iff_mem.mpr refers⟩, rfl⟩

theorem attribute_read (regular : Schema.Regular e) {scope : Xml.Scope}
    (read : Xml.ReadIn scope e n) {key v : String} (member : (key, v) ∈ referring e.attributes) :
    n.attribute? key = some (readValue v) := by
  obtain ⟨present, refers⟩ := List.mem_filter.mp member
  rw [Schema.regular_value regular read (List.contains_iff_mem.mp refers),
    (Schema.lookup_iff (Schema.regular_once regular)).mpr present]
  rfl

/-- The references that the check finds in an element have been written there. -/
theorem referencesOf_written (regular : Schema.Regular e) {scope : Xml.Scope}
    (read : Xml.ReadIn scope e n) (stands : scope.get? (some "xs") = some Vocabulary.xmlSchema)
    (member : r ∈ referencesOf n) : ∃ a ∈ referring e.attributes, ReadFrom a r := by
  obtain ⟨_, last, written, named⟩ := Schema.regular_read regular read stands
  simp only [referencesOf, List.mem_append, List.mem_map, List.mem_flatMap,
    Option.mem_toList] at member
  rcases member with ((⟨v', found, rfl⟩ | ⟨v', found, rfl⟩) | ⟨v', found, name, inside, rfl⟩) |
    ⟨v', found, rfl⟩
  · obtain ⟨v, member, rfl⟩ := attribute_written regular read (by decide) found
    exact ⟨_, member, .type (.inl rfl)⟩
  · obtain ⟨v, member, rfl⟩ := attribute_written regular read (by decide) found
    exact ⟨_, member, .type (.inr rfl)⟩
  · obtain ⟨v, member, rfl⟩ := attribute_written regular read (by decide) found
    exact ⟨_, member, .member inside⟩
  · obtain ⟨v, member, rfl⟩ := attribute_written regular read (by decide) found
    -- Only a group's own name says that a group is meant.
    refine ⟨_, member, ?_⟩
    rcases Schema.regular_ref regular (List.mem_filter.mp member).1 with group | rfl
    · have raw : Xml.rawName? "xs:group" = some ⟨"xs", "group"⟩ := by decide
      rw [group, raw] at written
      obtain ⟨-, rfl⟩ := Xml.RawName.mk.inj (Option.some.inj written)
      rw [named]
      exact .group
    · have same : readValue "xml:lang" = "xml:lang" := by decide
      rw [same]
      exact .language

/-- The names of types that have been written are found. -/
theorem referencesOf_read (regular : Schema.Regular e) {scope : Xml.Scope}
    (read : Xml.ReadIn scope e n) {key v : String} (keyed : key = "type" ∨ key = "base")
    (member : (key, v) ∈ referring e.attributes) : ⟨readValue v, .type⟩ ∈ referencesOf n := by
  have found := attribute_read regular read member
  rcases keyed with rfl | rfl <;> simp [referencesOf, found]

theorem mem_resolutions {o : Resolution} : o ∈ resolutions n d ↔
    ∃ m ∈ n.descendants, m.name?.any (·.uri = some Vocabulary.xmlSchema) ∧
      ∃ r ∈ referencesOf m, d.resolve m.scope r = o := by
  simp only [resolutions, List.mem_flatMap, List.mem_filter, List.mem_map, and_assoc]

theorem mem_references {a : String × String} : a ∈ references (Schema.toXml schema) ↔
    ∃ e ∈ Element.allOf (Schema.toXml schema).children, a ∈ referring e.attributes := by
  have whole : references (Schema.toXml schema) = referring (Schema.headAttributes schema) ++
      referencesIn (Schema.toXml schema).children := rfl
  rw [whole, Schema.referring_head, List.nil_append, Schema.referencesIn_all, List.mem_flatMap]

theorem referencesOf_silent (silent : ∀ key ∈ referenceKeys, n.attribute? key = none) :
    referencesOf n = [] := by
  have none := silent
  simp only [referenceKeys, List.forall_mem_cons] at none
  obtain ⟨type, base, ref, members, _⟩ := none
  simp [referencesOf, type, base, ref, members]

theorem descendants_element (element : n.isElement) :
    n.descendants = n :: Node.descendantsOf n.children := by
  cases n with
  | element name attributes scope children => rw [Node.descendants, Node.children]
  | text content => cases element

/-- Whatever the check looks up has been written. -/
theorem resolutions_written (doc : Found schema n) {o : Resolution} (member : o ∈ resolutions n d) :
    ∃ a ∈ references (Schema.toXml schema), ∃ r, ReadFrom a r ∧ d.resolve n.scope r = o := by
  obtain ⟨m, present, chosen, r, found, rfl⟩ := mem_resolutions.mp member
  rw [descendants_element doc.element] at present
  rcases List.mem_cons.mp present with rfl | below
  · rw [referencesOf_silent doc.silent] at found
    cases found
  · have element : m.isElement := by
      obtain ⟨name, named, _⟩ := (Option.any_eq_true ..).mp chosen
      simp [Node.isElement, named]
    obtain ⟨e, inside, read⟩ :=
      forall₂_mem_right doc.inner (List.mem_filter.mpr ⟨below, element⟩)
    have regular := Schema.regular_schema schema e inside
    obtain ⟨a, written, from_a⟩ := referencesOf_written regular read doc.language found
    rw [(Schema.regular_read regular read doc.language).1]
    exact ⟨a, mem_references.mpr ⟨e, inside, written⟩, r, from_a, rfl⟩

/-- The names of types that have been written are looked up. -/
theorem resolutions_type (doc : Found schema n) {key v : String}
    (keyed : key = "type" ∨ key = "base") (member : (key, v) ∈ references (Schema.toXml schema)) :
    d.resolve n.scope ⟨readValue v, .type⟩ ∈ resolutions n d := by
  obtain ⟨e, inside, written⟩ := mem_references.mp member
  obtain ⟨m, present, read⟩ := forall₂_mem_left doc.inner inside
  obtain ⟨below, _⟩ := List.mem_filter.mp present
  have regular := Schema.regular_schema schema e inside
  obtain ⟨same, last, _, named⟩ := Schema.regular_read regular read doc.language
  refine mem_resolutions.mpr
    ⟨m, ?_, ?_, _, referencesOf_read regular read keyed written, by rw [same]⟩
  · rw [descendants_element doc.element]
    exact List.mem_cons_of_mem _ below
  · simp [named]

/-! ### Outcomes -/

/-- A name with a namespace, or without one, that the check accepts for a kind of thing. -/
def Accepts (d : Declarations) (uri : Option String) (last : String) (space : Space) : Prop :=
  (∃ u, uri = some u ∧ (u = Vocabulary.xmlSchema ∨ u = Vocabulary.xml ∨ u ∈ d.imported)) ∨
    (uri = d.target ∧ d.declares last space) ∨ (uri = none ∧ d.hasInclude)

theorem granted_iff {uri : Option String} :
    ((uri = some Vocabulary.xmlSchema ∨ uri = some Vocabulary.xml) ∨ uri.any d.imported.contains) ↔
      ∃ u, uri = some u ∧ (u = Vocabulary.xmlSchema ∨ u = Vocabulary.xml ∨ u ∈ d.imported) := by
  cases uri <;> simp [or_assoc]

theorem unresolved_iff {language imported own included : Prop} [Decidable language]
    [Decidable imported] [Decidable own] [Decidable included] (name : String) :
    (∃ detail, (if language then Resolution.resolved else if imported then .resolved
      else if own then .resolved else if included then .deferred name else .unresolved name) =
        .unresolved detail) ↔ ¬ ((language ∨ imported) ∨ own ∨ included) := by
  by_cases language <;> by_cases imported <;> by_cases own <;> by_cases included <;> simp [*]

theorem resolve_iff {before : Option String} {last : String}
    (split : splitName r.name = (before, last)) {scope : Xml.Scope} {uri : Option String}
    (stands : namespaceOf scope before = some uri) :
    (∃ detail, d.resolve scope r = .unresolved detail) ↔ ¬ Accepts d uri last r.space := by
  rw [Accepts, ← granted_iff, Declarations.resolve]
  simp only [split, stands]
  exact unresolved_iff r.name

end Conformance

end RdfXmlMapping
