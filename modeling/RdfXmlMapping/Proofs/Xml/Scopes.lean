import RdfXmlMapping.Proofs.Steps
import RdfXmlMapping.Proofs.Text.Lines
import RdfXmlMapping.Proofs.Xml.Reading
import RdfXmlMapping.Xml.Reference
import RdfXmlMapping.Xml.Writer

/-!
Names and attributes of a document that has been read back. The entities that a value has been
written with stand for the characters of it, so that a reader changes nothing but line ends and tabs
(`attributeValue_escape`). A namespace that is declared is what its prefix stands for, and an
element that declares none has the attributes that were written (`reads_plain`).
-/

namespace RdfXmlMapping.Xml

/-! ### Values -/

section

/-- What a reader makes of the blanks in a value. -/
def normalised (cs : List Char) : List Char :=
  (normaliseLineEnds cs).map fun c => if isSpace c then ' ' else c

/-- A value as a reader takes it in. -/
def readValue (v : String) : String := .ofList (normalised v.toList)

/-- A character that is written as an entity. -/
def IsMarked (c : Char) : Prop := c = '&' ∨ c = '<' ∨ c = '>' ∨ c = '"'

instance (c : Char) : Decidable (IsMarked c) := inferInstanceAs (Decidable (_ ∨ _))

variable {c : Char} {cs ds : List Char}

theorem escapeChar_unmarked (plain : ¬ IsMarked c) : escapeChar c = [c] := by
  obtain ⟨amp, plain⟩ := not_or.mp plain
  obtain ⟨lt, plain⟩ := not_or.mp plain
  obtain ⟨gt, quot⟩ := not_or.mp plain
  simp only [escapeChar]

/-- The entity of a character is read as the character. -/
theorem escapeChar_marked (marked : IsMarked c) : ∃ name, escapeChar c = '&' :: name ∧ '&' ∉ name ∧
    ∀ rest, scanReference (name ++ rest) = some (c, rest) := by
  rcases marked with rfl | rfl | rfl | rfl
  · exact ⟨['a', 'm', 'p', ';'], rfl, by decide, fun _ => rfl⟩
  · exact ⟨['l', 't', ';'], rfl, by decide, fun _ => rfl⟩
  · exact ⟨['g', 't', ';'], rfl, by decide, fun _ => rfl⟩
  · exact ⟨['q', 'u', 'o', 't', ';'], rfl, by decide, fun _ => rfl⟩

/-! ### Line ends -/

/-- A line end is found before what does not begin with a line feed. -/
theorem normaliseLineEnds_append (next : ds.head? ≠ some '\n') :
    normaliseLineEnds (cs ++ ds) = normaliseLineEnds cs ++ normaliseLineEnds ds := by
  induction cs using normaliseLineEnds.induct with
  | case1 cs ih => simp [normaliseLineEnds, ih]
  | case2 cs other ih =>
    have alone : ∀ rest, cs ++ ds ≠ '\n' :: rest := by
      intro rest same
      cases cs with
      | nil => exact next (by rw [List.nil_append] at same; rw [same]; rfl)
      | cons c cs =>
        obtain ⟨rfl, -⟩ := List.cons.inj same
        exact other cs rfl
    simp [normaliseLineEnds, ih]
  | case3 c cs first second ih =>
    have back : c ≠ '\r' := second
    simp [normaliseLineEnds, ih, back]
  | case4 => rfl

theorem normaliseLineEnds_plain (plain : '\r' ∉ cs) : normaliseLineEnds cs = cs := by
  induction cs with
  | nil => rfl
  | cons c cs ih =>
    have other : c ≠ '\r' := fun same => plain (same ▸ List.mem_cons_self)
    simp [normaliseLineEnds, other, ih (List.not_mem_of_not_mem_cons plain)]

theorem normalised_append (next : ds.head? ≠ some '\n') :
    normalised (cs ++ ds) = normalised cs ++ normalised ds := by
  rw [normalised, normaliseLineEnds_append next, List.map_append]
  rfl

/-- A value with no blanks but spaces is kept. -/
theorem normalised_spaces (plain : ∀ c ∈ cs, isSpace c → c = ' ') : normalised cs = cs := by
  have back : '\r' ∉ cs := fun member => absurd (plain _ member (by decide)) (by decide)
  rw [normalised, normaliseLineEnds_plain back]
  refine (List.map_congr_left fun c member => ?_).trans (List.map_id _)
  split
  next blank => exact (plain c member blank).symm
  next => rfl

theorem normalised_plain (plain : ∀ c ∈ cs, isSpace c = false) : normalised cs = cs :=
  normalised_spaces fun c member blank => absurd blank (by simp [plain c member])

theorem readValue_plain {v : String} (plain : ∀ c ∈ v.toList, isSpace c = false) :
    readValue v = v := by
  rw [readValue, normalised_plain plain, String.ofList_toList]

theorem normalised_cons (other : c ≠ '\r') (solid : isSpace c = false) :
    normalised (c :: cs) = c :: normalised cs := by
  simp [normalised, normaliseLineEnds, other, solid]

/-- What stands before a colon is read by itself. -/
theorem readValue_colon {own : String} (plain : ∀ c ∈ own.toList, isSpace c = false)
    (rest : String) : readValue (own ++ ":" ++ rest) = own ++ ":" ++ readValue rest := by
  have written : (own ++ ":" ++ rest).toList = own.toList ++ ':' :: rest.toList := by simp
  rw [← String.toList_inj, readValue, String.toList_ofList, written, normalised_append (by simp),
    normalised_plain plain, normalised_cons (by decide) rfl]
  simp [readValue]

/-! ### Entities -/

/-- What is done to a value piece by piece, and leaves the characters as they are that references
stand for. -/
structure GoesByPieces (plain : List Char → List Char) : Prop where
  append : ∀ {cs ds : List Char}, ds.head? ≠ some '\n' → plain (cs ++ ds) = plain cs ++ plain ds
  cons : ∀ {c : Char} {cs : List Char}, IsMarked c → plain (c :: cs) = c :: plain cs

variable {plain : List Char → List Char}

theorem GoesByPieces.nil (pieces : GoesByPieces plain) : plain [] = [] := by
  have none : ([] : List Char).head? ≠ some '\n' := by simp
  have twice : plain ([] ++ []) = plain [] ++ plain [] := pieces.append none
  exact List.self_eq_append_right.mp twice

theorem goesByPieces_id : GoesByPieces id := ⟨fun _ => rfl, fun _ => rfl⟩

theorem goesByPieces_normalised : GoesByPieces normalised := by
  refine ⟨normalised_append, fun marked => ?_⟩
  rcases marked with rfl | rfl | rfl | rfl <;> exact normalised_cons (by decide) (by decide)

/-- One segment of a value after its first. -/
def readSegment (plain : List Char → List Char) (segment : List Char) : Option (List Char) := do
  let (c, rest) ← scanReference segment
  return c :: plain rest

/-- A value cut at its entities: characters that stand for themselves, then one segment for each
entity. -/
theorem segments_escape (pieces : GoesByPieces plain) (cs : List Char) :
    ∃ first rest others read, cs = first ++ rest ∧ (∀ c ∈ rest.head?, IsMarked c) ∧
      Text.segments '&' (cs.flatMap escapeChar) = first :: others ∧
      others.mapM (readSegment plain) = some read ∧ read.flatten = plain rest := by
  induction cs with
  | nil => exact ⟨[], [], [], [], rfl, by simp, rfl, rfl, pieces.nil.symm⟩
  | cons c cs ih =>
    obtain ⟨first, rest, others, read, rfl, next, segments, each, whole⟩ := ih
    by_cases marked : IsMarked c
    · obtain ⟨name, written, free, reference⟩ := escapeChar_marked marked
      have apart : rest.head? ≠ some '\n' := fun same => absurd (next _ same) (by decide)
      refine ⟨[], c :: (first ++ rest), (name ++ first) :: others, (c :: plain first) :: read, rfl,
        by simpa using marked, ?_, ?_, ?_⟩
      · rw [List.flatMap_cons, written, List.cons_append, Text.segments, if_pos rfl,
          Text.segments_prepend free segments]
      · rw [List.mapM_cons, each, readSegment, reference]
        rfl
      · rw [List.flatten_cons, whole, pieces.cons marked, pieces.append apart, List.cons_append]
    · have other : c ≠ '&' := fun same => marked (.inl same)
      refine ⟨c :: first, rest, others, read, rfl, next, ?_, each, whole⟩
      rw [List.flatMap_cons, escapeChar_unmarked marked, List.singleton_append, Text.segments,
        if_neg other, segments]

/-- A value is read as it was before it was written, but for what is done between references. -/
theorem expand_escape (pieces : GoesByPieces plain) (v : String) :
    expand plain (escape v).toList = some (plain v.toList) := by
  obtain ⟨first, rest, others, read, same, next, segments, each, whole⟩ :=
    segments_escape pieces v.toList
  have apart : rest.head? ≠ some '\n' := fun same => absurd (next _ same) (by decide)
  rw [expand, escape, String.toList_ofList, segments]
  change (others.mapM (readSegment plain) >>=
    fun others => some (plain first ++ others.flatten)) = _
  rw [each, same, pieces.append apart, ← whole]
  rfl

theorem attributeValue_escape (v : String) :
    attributeValue (escape v).toList = some (normalised v.toList) :=
  expand_escape goesByPieces_normalised v

end

/-! ### Namespaces and attributes -/

variable {scope outer : Scope} {own uri name : String} {attributes : Attributes} {tag : StartTag}

theorem value?_eq (v : String) : value? v = some (readValue v) := by
  rw [value?, attributeValue_escape]
  rfl

/-! ### Declarations -/

theorem get?_append {more : Scope} (found : scope.get? (some own) = some uri) :
    Scope.get? (scope ++ more) (some own) = some uri := by
  obtain ⟨d, first, rfl⟩ := Option.map_eq_some_iff.mp found
  rw [Scope.get?, List.find?_append, first]
  rfl

theorem get?_new (absent : scope.any (·.1 == some own) = false) :
    Scope.get? (scope ++ [(some own, uri)]) (some own) = some uri := by
  have none : scope.find? (·.1 == some own) = none := by
    exact List.find?_eq_none.mpr fun d member => by simpa using List.any_eq_false.mp absent d member
  rw [Scope.get?, List.find?_append, none]
  simp

theorem declare_grows {scope' : Scope} {n : RawName} (h : scope.declare n uri = some scope') :
    scope' = scope ∨ ∃ d, scope' = scope ++ [d] := by
  unfold Scope.declare at h
  split at h
  · split at h
    · cases h
    · split at h
      · exact .inl (Option.some.inj h).symm
      · exact .inr ⟨_, (Option.some.inj h).symm⟩
  · split at h
    · cases h
    · exact .inr ⟨_, (Option.some.inj h).symm⟩

theorem declare_get? {scope' : Scope} (other : uri ≠ Vocabulary.xml)
    (h : scope.declare ⟨"xmlns", own⟩ uri = some scope') : scope'.get? (some own) = some uri := by
  unfold Scope.declare at h
  rw [if_pos rfl] at h
  split at h
  · cases h
  next proper =>
    obtain rfl := Option.some.inj h
    exact get?_new (Bool.eq_false_iff.mpr (not_or.mp (not_or.mp proper).2).2)

/-- A prefix that is declared stands for its namespace after all declarations. -/
theorem declared_get? {declarations : List (RawName × String)} {scope' : Scope}
    (h : declarations.foldlM (fun scope a => Scope.declare scope a.1 a.2) scope = some scope')
    (stands : scope.get? (some own) = some uri ∨
      ((⟨"xmlns", own⟩, uri) ∈ declarations ∧ uri ≠ Vocabulary.xml)) :
    scope'.get? (some own) = some uri := by
  induction declarations generalizing scope with
  | nil =>
    obtain rfl := Option.some.inj h
    exact stands.elim id fun new => absurd new.1 List.not_mem_nil
  | cons a as ih =>
    obtain ⟨next, declared, h⟩ := Option.bind_eq_some_iff.mp h
    refine ih h ?_
    rcases stands with found | ⟨member, other⟩
    · rcases declare_grows declared with rfl | ⟨d, rfl⟩
      · exact .inl found
      · exact .inl (get?_append found)
    · rcases List.mem_cons.mp member with rfl | later
      · exact .inl (declare_get? other declared)
      · exact .inr ⟨later, other⟩

theorem within_get? {inner : Scope} (found : inner.get? (some own) = some uri) :
    (Scope.within inner outer).get? (some own) = some uri := get?_append found

theorem within_nil : Scope.within [] outer = outer := by
  rw [Scope.within, List.nil_append]
  exact List.filter_eq_self.mpr fun _ _ => rfl

theorem mapM_some {α β : Type} {f : α → Option β} {xs : List α} {ys : List β}
    (h : xs.mapM f = some ys) : List.Forall₂ (fun x y => f x = some y) xs ys := by
  induction xs generalizing ys with
  | nil =>
    obtain rfl := Option.some.inj h
    exact .nil
  | cons x xs ih =>
    rw [List.mapM_cons] at h
    obtain ⟨y, first, h⟩ := Option.bind_eq_some_iff.mp h
    obtain ⟨zs, rest, h⟩ := Option.bind_eq_some_iff.mp h
    obtain rfl := Option.some.inj h
    exact .cons first (ih rest)

/-- An attribute is read by its name, with the value as a reader normalises it. -/
theorem readAttributes?_each {as : List (RawName × String)}
    (read : readAttributes? attributes = some as) : List.Forall₂ (fun a b =>
      rawName? a.1 = some b.1 ∧ b.2 = readValue a.2) attributes as := by
  refine (mapM_some read).imp fun a b h => ?_
  obtain ⟨n, named, h⟩ := Option.bind_eq_some_iff.mp h
  obtain ⟨v, valued, h⟩ := Option.bind_eq_some_iff.mp h
  obtain rfl := Option.some.inj h
  exact ⟨named, Option.some.inj (valued.symm.trans (value?_eq a.2))⟩

/-- A declaration of an element holds in it. -/
theorem tagged_get? (h : Tagged outer name attributes tag) {key value : String}
    (member : (key, value) ∈ attributes) (declares : rawName? key = some ⟨"xmlns", own⟩)
    (same : readValue value = uri) (other : uri ≠ Vocabulary.xml) :
    tag.scope.get? (some own) = some uri := by
  obtain ⟨n, as, _, read, h⟩ := h
  obtain ⟨declared, run, h⟩ := Option.bind_eq_some_iff.mp h
  obtain ⟨expanded, _, h⟩ := Option.bind_eq_some_iff.mp h
  have present : (⟨"xmlns", own⟩, uri) ∈ as := by
    obtain ⟨b, inside, named, valued⟩ := forall₂_mem_left (readAttributes?_each read) member
    have first : b.1 = ⟨"xmlns", own⟩ := Option.some.inj (named.symm.trans declares)
    have second : b.2 = uri := valued.trans same
    rwa [← first, ← second]
  have found : declared.get? (some own) = some uri :=
    declared_get? run (.inr ⟨List.mem_filter.mpr ⟨present, rfl⟩, other⟩)
  dsimp only at h
  split at h
  · cases h
  · obtain ⟨name, _, h⟩ := Option.bind_eq_some_iff.mp h
    obtain rfl := Option.some.inj h
    exact within_get? found

/-! ### Elements without declarations -/

/-- The name of an attribute in no namespace that declares nothing. -/
def isPlainKey (key : String) : Bool :=
  key.toList.all (fun c => isNamePart c && c ≠ ':') && key ≠ "xmlns"

theorem rawName?_plain {key : String} {n : RawName} (plain : isPlainKey key)
    (h : rawName? key = some n) : n = ⟨"", key⟩ := by
  have all := List.all_eq_true.mp ((Bool.and_eq_true _ _).mp plain).1
  have parts : ∀ c ∈ key.toList, isNamePart c = true := fun c member =>
    ((Bool.and_eq_true _ _).mp (all c member)).1
  have colon : ':' ∉ key.toList := fun member => absurd (all ':' member) (by decide)
  have whole : key.toList.span isNamePart = (key.toList, []) := by
    have cut : (key.toList ++ []).span isNamePart = (key.toList, []) :=
      Text.span_append parts (by simp)
    rwa [List.append_nil] at cut
  rw [rawName?, scanRawName, whole] at h
  dsimp only at h
  rw [Text.segments_of_notMem colon] at h
  obtain ⟨⟨n', _⟩, found, rfl⟩ := Option.map_eq_some_iff.mp h
  dsimp only at found
  split at found
  · obtain ⟨rfl, -⟩ := Prod.mk.inj (Option.some.inj found)
    rw [String.ofList_toList]
  · cases found

/-- An element with attributes in no namespace keeps them, and the scope of what is around it. -/
theorem tagged_plain (h : Tagged outer name attributes tag)
    (plain : ∀ a ∈ attributes, isPlainKey a.1)
    {localName : String} (written : rawName? name = some ⟨own, localName⟩) (qualified : own ≠ "") :
    tag.scope = outer ∧
      tag.attributes = attributes.map (fun a => (⟨none, a.1⟩, readValue a.2)) ∧
      ∃ uri, outer.get? (some own) = some uri ∧ tag.name = ⟨some uri, localName⟩ := by
  obtain ⟨n, as, named, read, h⟩ := h
  obtain rfl := Option.some.inj (named.symm.trans written)
  have same : as = attributes.map fun a => (⟨"", a.1⟩, readValue a.2) := by
    have each := readAttributes?_each read
    clear read h
    induction each with
    | nil => rfl
    | @cons a b _ _ first _ ih =>
      obtain ⟨here, others⟩ := List.forall_mem_cons.mp plain
      have key : b.1 = ⟨"", a.1⟩ := rawName?_plain here first.1
      rw [List.map_cons, ← ih others, ← key, ← first.2]
  have undeclared : ∀ a ∈ as, a.1.isDeclaration = false := by
    intro a member
    rw [same] at member
    obtain ⟨b, inside, rfl⟩ := List.mem_map.mp member
    have other := ((Bool.and_eq_true _ _).mp (plain b inside)).2
    simpa [RawName.isDeclaration] using other
  have declarations : as.filter (·.1.isDeclaration) = [] := by
    simpa using undeclared
  have others : as.filter (!·.1.isDeclaration) = as := by
    simpa using undeclared
  rw [StartTag.of?, declarations, others] at h
  obtain ⟨declared, run, h⟩ := Option.bind_eq_some_iff.mp h
  obtain rfl := Option.some.inj run
  have expanded : as.mapM (fun a => (outer.attributeName a.1).map fun name => (name, a.2)) =
      some (attributes.map fun a => (⟨none, a.1⟩, readValue a.2)) := by
    rw [same, List.mapM_map]
    exact List.mapM_pure
  rw [within_nil] at h
  obtain ⟨found, run, h⟩ := Option.bind_eq_some_iff.mp h
  obtain rfl := Option.some.inj (run.symm.trans expanded)
  dsimp only at h
  split at h
  · cases h
  · obtain ⟨expanded_name, named, h⟩ := Option.bind_eq_some_iff.mp h
    obtain rfl := Option.some.inj h
    have prefixed : own.isEmpty = false := by simpa using qualified
    rw [Scope.elementName, if_neg (by simp [prefixed])] at named
    obtain ⟨uri, found, named⟩ := Option.bind_eq_some_iff.mp named
    exact ⟨rfl, rfl, uri, found, (Option.some.inj named).symm⟩

/-! ### Elements as they are read -/

/-- A node is an element of a namespace with the attributes that were written. -/
structure ReadAs (own uri : String) (e : Element) (n : Node) : Prop where
  name : ∃ last, rawName? e.name = some ⟨own, last⟩ ∧ n.name? = some ⟨some uri, last⟩
  value : ∀ key, n.attribute? key =
    (e.attributes.lookup key).map readValue

/-- An element with a prefix and attributes that have none. -/
def isPlain (own : String) (e : Element) : Bool :=
  e.attributes.all (isPlainKey ·.1) && (rawName? e.name).any (·.nsPrefix = own)

variable {e : Element} {n : Node} {es : List Element} {ns : List Node}

theorem reads_tagged (h : Reads outer e n) : ∃ tag content, Tagged outer e.name e.attributes tag ∧
    n = .element tag.name tag.attributes tag.scope content ∧
    ReadsAll tag.scope e.children (content.filter Node.isElement) := by
  cases e <;> exact h

theorem find?_unprefixed (attributes : Attributes) (key : String) :
    ((attributes.map fun a => ((⟨none, a.1⟩ : ExpandedName), readValue a.2)).find?
      (·.1 == ⟨none, key⟩)).map (·.2) = (attributes.lookup key).map readValue := by
  induction attributes with
  | nil => rfl
  | cons a as ih =>
    obtain ⟨name, value⟩ := a
    by_cases same : key = name
    · simp [same]
    · have apart : ¬ name = key := fun equal => same equal.symm
      rw [List.lookup_cons, beq_eq_false_iff_ne.mpr same, ← ih]
      simp [apart]

theorem reads_plain (h : Reads scope e n) (plain : isPlain own e) (qualified : own ≠ "")
    (stands : scope.get? (some own) = some uri) : ReadAs own uri e n := by
  obtain ⟨keys, prefixed⟩ := (Bool.and_eq_true _ _).mp plain
  obtain ⟨last, written⟩ : ∃ last, rawName? e.name = some ⟨own, last⟩ := by
    cases written : rawName? e.name with
    | none => simp [written] at prefixed
    | some raw =>
      obtain rfl : raw.nsPrefix = own := by simpa [written] using prefixed
      exact ⟨raw.localName, rfl⟩
  obtain ⟨tag, content, tagged, rfl, _⟩ := reads_tagged h
  obtain ⟨_, attributes, uri', found, named⟩ :=
    tagged_plain tagged (List.all_eq_true.mp keys) written qualified
  obtain rfl := Option.some.inj (found.symm.trans stands)
  refine ⟨⟨last, written, congrArg some named⟩, fun key => ?_⟩
  rw [Node.attribute?, attributes]
  exact find?_unprefixed _ _

theorem readsAll_each (h : ReadsAll scope es ns) : List.Forall₂ (Reads scope) es ns := by
  induction es generalizing ns with
  | nil =>
    obtain rfl : ns = [] := h
    exact .nil
  | cons e es ih =>
    obtain ⟨n, rest, rfl, first, others⟩ := h
    exact .cons first (ih others)

/-- The values of an attribute of the elements with a name. -/
def valuesOf (tag key : String) (es : List Element) : List String :=
  es.filterMap fun e => if e.name = tag then e.attributes.lookup key else none

/-- A choice among the names of elements that picks out those with one name. -/
def Picks (own uri : String) (P : ExpandedName → Bool) (tag : String) (es : List Element) : Prop :=
  ∀ e ∈ es, ∀ last, rawName? e.name = some ⟨own, last⟩ → P ⟨some uri, last⟩ = decide (e.name = tag)

theorem picks_one {tag last : String}
    (named : ∀ e ∈ es, rawName? e.name = some ⟨own, last⟩ ↔ e.name = tag) {P : ExpandedName → Bool}
    (chosen : ∀ l, P ⟨some uri, l⟩ = decide (l = last)) : Picks own uri P tag es := by
  intro e member l written
  rw [chosen, ← Bool.coe_iff_coe]
  simp [← named e member, written]

/-- The nodes that are picked out are the elements with the name. -/
theorem picked_read (h : List.Forall₂ (ReadAs own uri) es ns) {tag : String}
    {P : ExpandedName → Bool} (picks : Picks own uri P tag es) :
    List.Forall₂ (ReadAs own uri) (es.filter (·.name = tag))
      (ns.filter fun n => n.name?.any P) := by
  induction h with
  | nil => exact .nil
  | @cons e n es ns first _ ih =>
    obtain ⟨here, others⟩ := List.forall_mem_cons.mp picks
    obtain ⟨l, written, expanded⟩ := first.name
    have choice : n.name?.any P = decide (e.name = tag) := by
      rw [expanded, Option.any_some, here l written]
    by_cases same : e.name = tag
    · rw [List.filter_cons_of_pos (by simp [same]),
        List.filter_cons_of_pos (by simp [choice, same])]
      exact .cons first (ih others)
    · rw [List.filter_cons_of_neg (by simp [same]),
        List.filter_cons_of_neg (by simp [choice, same])]
      exact ih others

/-- The values read are those written, as a reader normalises them. -/
theorem valuesOf_read (h : List.Forall₂ (ReadAs own uri) es ns) {tag : String}
    {P : ExpandedName → Bool} (picks : Picks own uri P tag es) (key : String) :
    (ns.filter fun n => n.name?.any P).filterMap (·.attribute? key) =
      (valuesOf tag key es).map readValue := by
  have written : valuesOf tag key es =
      (es.filter (·.name = tag)).filterMap (·.attributes.lookup key) := by
    simp [valuesOf, List.filterMap_filter]
  have each := picked_read h picks
  rw [written]
  generalize es.filter (·.name = tag) = es at each ⊢
  generalize ns.filter (fun n => n.name?.any P) = ns at each ⊢
  clear h picks written
  induction each with
  | nil => rfl
  | @cons e n _ _ first _ ih =>
    rw [List.filterMap_cons, List.filterMap_cons, first.value, ih]
    cases e.attributes.lookup key <;> rfl

/-- What stands right inside an element that declares the prefix of it all. -/
structure DeclaredIn (own uri : String) (attributes : Attributes) : Prop where
  member : ("xmlns:" ++ own, uri) ∈ attributes
  key : rawName? ("xmlns:" ++ own) = some ⟨"xmlns", own⟩
  plain : readValue uri = uri
  other : uri ≠ Vocabulary.xml
  qualified : own ≠ ""

theorem children_read (h : Reads outer (.node name attributes es) n)
    (declared : DeclaredIn own uri attributes) (plain : ∀ e ∈ es, isPlain own e) :
    List.Forall₂ (ReadAs own uri) es (n.children.filter Node.isElement) := by
  obtain ⟨tag, content, tagged, rfl, inside⟩ := h
  have stands := tagged_get? tagged declared.member declared.key declared.plain declared.other
  have each := readsAll_each inside
  refine List.forall₂_iff_zip.mpr ⟨each.length_eq, fun {e n} member => ?_⟩
  have reads := List.forall₂_zip each member
  exact reads_plain reads (plain e (List.of_mem_zip member).1) declared.qualified stands

theorem filter_elements (P : ExpandedName → Bool) (ns : List Node) :
    (ns.filter Node.isElement).filter (fun n => n.name?.any P) =
      ns.filter fun n => n.name?.any P := by
  rw [List.filter_filter]
  refine List.filter_congr fun n _ => ?_
  cases n <;> simp [Node.isElement, Node.name?]

theorem childrenNamed_eq (n : Node) (uri last : String) : n.childrenNamed uri last =
    n.children.filter fun n => n.name?.any (· = ⟨some uri, last⟩) := by
  refine List.filter_congr fun n _ => ?_
  rw [Node.isNamed]
  cases n.name? <;> simp

/-- The values that are read inside an element are those written. -/
theorem children_valuesOf (h : Reads outer (.node name attributes es) n)
    (declared : DeclaredIn own uri attributes) (plain : ∀ e ∈ es, isPlain own e) {tag : String}
    {P : ExpandedName → Bool} (picks : Picks own uri P tag es) (key : String) :
    (n.children.filter fun n => n.name?.any P).filterMap (·.attribute? key) =
      (valuesOf tag key es).map readValue := by
  rw [← filter_elements]
  exact valuesOf_read (children_read h declared plain) picks key

end RdfXmlMapping.Xml
