import RdfXmlMapping.Proofs.Import.References

/-!
References to targets with an origin of their own. Every document can name such a target by its
whole address, and `absolute_kept_iff` says which documents do.
-/

namespace RdfXmlMapping.Import

open Text

/-- Scheme and authority of an address, if it has them. -/
def origin? (address : String) : Option (List Char) := (splitOrigin? address.toList).map (·.1)

/-- An address that begins with a scheme, so that it means the same in every document. -/
def IsAbsolute (address : String) : Prop :=
  ∃ scheme rest : String, address = scheme ++ "://" ++ rest ∧ '/' ∉ scheme.toList

/-- The reference is the target, apart from an index document at its end. -/
def Keeps (reference target : String) : Prop :=
  target = reference ∨ target = reference ++ "index.html"

/-- Of the directories of the source, the target shares nothing but steps up, and there are as many
others: the steps that lead up from these are those with which the target begins. -/
def StartsUp (source target : String) : Prop :=
  ∃ ups below, (pathSegments source).dropLast = ups ++ below ∧
    LongestShared (pathSegments source).dropLast (pathSegments target) ups ∧
    (∀ s ∈ ups, s = ['.', '.']) ∧ below.length = ups.length

/-! ### Paths -/

variable {source target address reference : String}

theorem pathSegments_injective (h : pathSegments source = pathSegments target) :
    source = target := by
  have same := congrArg (joinSegments '/') h
  rw [pathSegments, pathSegments, joinSegments_segments, joinSegments_segments] at same
  exact String.toList_inj.mp same

theorem keeps_iff : Keeps reference target ↔ ∃ init last,
    pathSegments reference = init ++ [last] ∧
      (pathSegments target = init ++ [last] ∨
        pathSegments target = init ++ [last ++ indexFile]) := by
  have index {init last} (h : pathSegments reference = init ++ [last]) :
      pathSegments (reference ++ "index.html") = init ++ [last ++ indexFile] := by
    rw [pathSegments, String.toList_append]
    exact segments_extend (by decide) h
  constructor
  · intro keeps
    obtain ⟨init, last, split⟩ :=
      (List.eq_nil_or_concat' (pathSegments reference)).resolve_left (pathSegments_ne_nil _)
    rcases keeps with rfl | rfl
    · exact ⟨init, last, split, .inl split⟩
    · exact ⟨init, last, split, .inr (index split)⟩
  · rintro ⟨init, last, split, same | longer⟩
    · exact .inl (pathSegments_injective (same.trans split.symm))
    · exact .inr (pathSegments_injective (longer.trans (index split).symm))

theorem isAbsolute_iff : IsAbsolute address ↔ ∃ scheme after,
    pathSegments address = (scheme ++ [':']) :: [] :: after ∧ after ≠ [] := by
  constructor
  · rintro ⟨scheme, rest, rfl, free⟩
    have whole : (scheme ++ "://" ++ rest).toList =
        (scheme.toList ++ [':']) ++ '/' :: ([] ++ '/' :: rest.toList) := by simp
    refine ⟨scheme.toList, segments '/' rest.toList, ?_, segments_ne_nil _ _⟩
    rw [pathSegments, whole, segments_append (by simpa using free), segments_append (by simp)]
  · rintro ⟨scheme, after, split, filled⟩
    have whole : address.toList = joinSegments '/' ((scheme ++ [':']) :: [] :: after) := by
      rw [← split, pathSegments, joinSegments_segments]
    refine ⟨.ofList scheme, .ofList (joinSegments '/' after), ?_, ?_⟩
    · apply String.toList_inj.mp
      rw [whole, joinSegments_cons _ _ (by simp), joinSegments_cons _ _ filled]
      simp
    · have first : scheme ++ [':'] ∈ pathSegments address := split ▸ List.mem_cons_self
      have free : '/' ∉ scheme ++ [':'] := notMem_segments first
      simpa using free

/-! ### Origins -/

theorem origin?_ne_none : origin? address ≠ none ↔ "://".toList <:+: address.toList := by
  rw [← occurs_iff (by decide), occurs, origin?, splitOrigin?]
  show _ ↔ (cut? [':', '/', '/'] address.toList).isSome
  cases cut? [':', '/', '/'] address.toList <;> simp

theorem origin?_of_isAbsolute (h : IsAbsolute address) : origin? address ≠ none := by
  obtain ⟨scheme, rest, rfl, -⟩ := h
  exact origin?_ne_none.mpr ⟨scheme.toList, rest.toList, by simp⟩

/-- Where an address has an origin, its path has segments for it. -/
theorem pathSegments_hosted (h : origin? address ≠ none) : ∃ before scheme after,
    pathSegments address = before ++ (scheme ++ [':']) :: [] :: after ∧ after ≠ [] := by
  obtain ⟨start, rest, whole⟩ := origin?_ne_none.mp h
  obtain ⟨before, scheme, split⟩ :=
    (List.eq_nil_or_concat' (segments '/' start)).resolve_left (segments_ne_nil _ _)
  have cut : address.toList = (start ++ [':']) ++ '/' :: ([] ++ '/' :: rest) := by
    rw [← whole]
    simp
  refine ⟨before, scheme, segments '/' rest, ?_, segments_ne_nil _ _⟩
  rw [pathSegments, cut, segments_cut, segments_extend (by decide) split, segments_append (by simp)]
  simp

theorem relativeReference_hosted (hosted : origin? source ≠ none) (absolute : origin? target ≠ none)
    (apart : origin? source ≠ origin? target) : relativeReference source target = target := by
  unfold origin? at *
  rw [relativeReference, relativeReferenceChars]
  cases from_split : splitOrigin? source.toList with
  | none => simp [from_split] at hosted
  | some a =>
    cases to_split : splitOrigin? target.toList with
    | none => simp [to_split] at absolute
    | some b =>
      rw [from_split, to_split] at apart
      dsimp only
      rw [if_neg fun same => apart (congrArg some same), String.ofList_toList]

theorem pathSegments_relativeReference (bare : origin? source = none) (target : String) :
    pathSegments (relativeReference source target) =
      stepsBetween (pathSegments source) (pathSegments target) := by
  have none : splitOrigin? source.toList = none := Option.map_eq_none_iff.mp bare
  rw [pathSegments, relativeReference, String.toList_ofList, relativeReferenceChars, none]
  exact segments_relativePath _ _

/-! ### Steps that are those of the target -/

theorem colon_ne_up (scheme : List Char) : scheme ++ [':'] ≠ ['.', '.'] := by
  intro same
  have last := congrArg List.getLast? same
  simp at last

variable {from_path to_path shared below rest ups : List (List Char)}

theorem LongestShared.unique {first second other : List (List Char)}
    (h : LongestShared first second shared) (h' : LongestShared first second other) :
    shared = other := by
  have le := h'.longest _ h.left h.right
  have ge := h.longest _ h'.left h'.right
  exact (List.prefix_of_prefix_length_le h.left h'.left le).eq_of_length (Nat.le_antisymm le ge)

theorem dropIndex_dropLast (steps : List (List Char)) :
    (dropIndex steps).dropLast = steps.dropLast ∧ (dropIndex steps).length = steps.length := by
  rcases List.eq_nil_or_concat' steps with rfl | ⟨init, last, rfl⟩
  · exact ⟨rfl, rfl⟩
  · by_cases index : last = indexFile
    · subst index
      rw [dropIndex_index]
      simp
    · rw [dropIndex_other index]
      exact ⟨rfl, rfl⟩

/-- But for the last step, the steps between two paths are as they are made; if there are several,
an index document is all that is left out. -/
theorem stepsBetween_dropLast (from_path to_path : List (List Char)) :
    (stepsBetween from_path to_path).dropLast = (relativeSegments from_path to_path).dropLast ∧
    (1 < (stepsBetween from_path to_path).length →
      stepsBetween from_path to_path = dropIndex (relativeSegments from_path to_path)) := by
  have kept := (dropIndex_dropLast (relativeSegments from_path to_path)).1
  rw [stepsBetween]
  split
  next short =>
    rw [← kept]
    refine ⟨?_, fun several => by simp at several⟩
    rcases short with none | one
    · simp [none]
    · simp [one]
  next => exact ⟨kept, fun _ => rfl⟩

/-- Between paths of which the second has a segment, other than the last, that is no step up, the
steps are those of the second exactly if nothing has to be left out or put before it. -/
theorem stepsBetween_keeps
    (split : to_path = shared ++ rest)
    (made : relativeSegments from_path to_path = List.replicate below.length ['.', '.'] ++ rest)
    (several : 1 < to_path.length) (down : ∃ s ∈ to_path.dropLast, s ≠ ['.', '.']) :
    (∃ init last, stepsBetween from_path to_path = init ++ [last] ∧
      (to_path = init ++ [last] ∨ to_path = init ++ [last ++ indexFile])) ↔
    (∀ s ∈ shared, s = ['.', '.']) ∧ below.length = shared.length := by
  have same_iff : relativeSegments from_path to_path = to_path ↔
      (∀ s ∈ shared, s = ['.', '.']) ∧ below.length = shared.length := by
    rw [made, split, List.append_left_inj, eq_comm, List.eq_replicate_iff]
    exact ⟨fun ⟨size, up⟩ => ⟨up, size.symm⟩, fun ⟨up, size⟩ => ⟨size.symm, up⟩⟩
  rw [← same_iff]
  obtain ⟨kept, longer⟩ := stepsBetween_dropLast from_path to_path
  constructor
  · rintro ⟨init, last, steps, ends⟩
    have before : to_path.dropLast = init ∧ to_path.length = init.length + 1 := by
      rcases ends with same | same <;> simp [same]
    have size : (relativeSegments from_path to_path).length = to_path.length := by
      have := longer (by rw [steps, List.length_append, List.length_singleton]; omega)
      rw [← (dropIndex_dropLast _).2, ← this, steps, before.2, List.length_append,
        List.length_singleton]
    have start : (relativeSegments from_path to_path).dropLast = to_path.dropLast := by
      rw [← kept, steps, List.dropLast_concat, before.1]
    rw [made] at size start ⊢
    rcases List.eq_nil_or_concat' rest with rfl | ⟨rest, end_, rfl⟩
    · -- Steps up alone do not make the segment that is none.
      obtain ⟨s, member, other⟩ := down
      rw [← start, List.append_nil] at member
      exact absurd (List.eq_of_mem_replicate (List.dropLast_subset _ member)) other
    · rw [split, ← List.append_assoc, ← List.append_assoc, List.dropLast_concat,
        List.dropLast_concat] at start
      rw [split, ← List.append_assoc, ← List.append_assoc, start]
  · intro same
    obtain ⟨init, last, ends⟩ := (List.eq_nil_or_concat' to_path).resolve_left
      (List.ne_nil_of_length_pos (by omega))
    have two : stepsBetween from_path to_path = dropIndex to_path := by
      have size := (dropIndex_dropLast to_path).2
      rw [stepsBetween, same, if_neg]
      rintro (none | one)
      · simp only [none, List.length_nil] at size
        omega
      · simp only [one, List.length_singleton] at size
        omega
    rw [two, ends]
    by_cases index : last = indexFile
    · subst index
      exact ⟨init, [], dropIndex_index, .inr rfl⟩
    · exact ⟨init, last, dropIndex_other index, .inl rfl⟩

theorem keeps_bare_iff (bare : origin? source = none) (hosted : origin? target ≠ none) :
    Keeps (relativeReference source target) target ↔ StartsUp source target := by
  obtain ⟨before, scheme, after, path, filled⟩ := pathSegments_hosted hosted
  obtain ⟨shared, below, rest, whole, split, longest, made⟩ :=
    relativeSegments_split (pathSegments source) (pathSegments target)
  have down : ∃ s ∈ (pathSegments target).dropLast, s ≠ ['.', '.'] := by
    refine ⟨scheme ++ [':'], ?_, colon_ne_up scheme⟩
    rw [path, List.dropLast_append_of_ne_nil (by simp), List.dropLast_cons_of_ne_nil (by simp)]
    simp
  have several : 1 < (pathSegments target).length := by
    rw [path]
    simp
    omega
  rw [keeps_iff, pathSegments_relativeReference bare,
    stepsBetween_keeps split made several down]
  constructor
  · rintro ⟨up, size⟩
    exact ⟨shared, below, whole, longest, up, size⟩
  · rintro ⟨ups, others, whole', longest', up, size⟩
    obtain rfl := longest'.unique longest
    obtain rfl := List.append_cancel_left (whole'.symm.trans whole)
    exact ⟨up, size⟩

/-! ### Targets with a scheme -/

theorem pathSegments_dropLast_eq_nil :
    (pathSegments source).dropLast = [] ↔ '/' ∉ source.toList := by
  constructor
  · intro none
    rcases List.eq_nil_or_concat' (pathSegments source) with empty | ⟨init, last, split⟩
    · exact absurd empty (pathSegments_ne_nil _)
    · rw [split, List.dropLast_concat] at none
      subst none
      exact (segments_one split).1
  · intro free
    rw [pathSegments, segments_of_notMem free]
    rfl

theorem startsUp_iff (absolute : IsAbsolute target) :
    StartsUp source target ↔ '/' ∉ source.toList := by
  obtain ⟨scheme, after, path, -⟩ := isAbsolute_iff.mp absolute
  rw [← pathSegments_dropLast_eq_nil]
  constructor
  · rintro ⟨ups, below, whole, longest, up, size⟩
    have none : ups = [] := by
      cases ups with
      | nil => rfl
      | cons s ups =>
        have first := longest.right
        rw [path] at first
        obtain rfl := (List.cons_prefix_cons.mp first).1
        exact absurd (up _ List.mem_cons_self) (colon_ne_up scheme)
    subst none
    rw [whole, List.eq_nil_of_length_eq_zero size]
    rfl
  · intro none
    rw [StartsUp, none]
    exact ⟨[], [], rfl, ⟨List.nil_prefix, List.nil_prefix, fun other start _ => by
      rw [List.prefix_nil.mp start]⟩, by simp, rfl⟩

theorem IsAbsolute.of_keeps (absolute : IsAbsolute target) (keeps : Keeps reference target) :
    IsAbsolute reference := by
  obtain ⟨scheme, after, path, filled⟩ := isAbsolute_iff.mp absolute
  obtain ⟨init, last, split, ends⟩ := keeps_iff.mp keeps
  obtain ⟨before, final, rfl⟩ := (List.eq_nil_or_concat' after).resolve_left filled
  have start : init = (scheme ++ [':']) :: [] :: before := by
    have dropped : (pathSegments target).dropLast = init := by rcases ends with h | h <;> simp [h]
    rw [← dropped, path, ← List.cons_append, ← List.cons_append, List.dropLast_concat]
  exact isAbsolute_iff.mpr ⟨scheme, before ++ [last], by rw [split, start]; rfl, by simp⟩

/-- In a document without an origin but with directories no reference is an address of its own: it
begins with a step up, or behind the segment that the target shares with the document. -/
theorem not_isAbsolute (bare : origin? source = none) (absolute : IsAbsolute target)
    (directories : '/' ∈ source.toList) : ¬ IsAbsolute (relativeReference source target) := by
  intro found
  obtain ⟨scheme, after, path, -⟩ := isAbsolute_iff.mp absolute
  obtain ⟨scheme', after', path', filled⟩ := isAbsolute_iff.mp found
  obtain ⟨shared, below, rest, whole, split, -, made⟩ :=
    relativeSegments_split (pathSegments source) (pathSegments target)
  -- The reference begins as it is made, for its first step is not its last.
  have dropped : (scheme' ++ [':']) :: [] :: after'.dropLast =
      (relativeSegments (pathSegments source) (pathSegments target)).dropLast := by
    rw [← (stepsBetween_dropLast _ _).1, ← pathSegments_relativeReference bare, path',
      List.dropLast_cons_of_ne_nil (by simp), List.dropLast_cons_of_ne_nil filled]
  obtain ⟨more, start⟩ : (scheme' ++ [':']) :: [] :: after'.dropLast <+:
      List.replicate below.length ['.', '.'] ++ rest := made ▸ dropped ▸ List.dropLast_prefix _
  cases below with
  | cons s below => exact colon_ne_up scheme' (List.cons.inj start).1
  | nil =>
    rw [path] at split
    rw [List.append_nil] at whole
    match shared, split with
    | [], _ => exact pathSegments_dropLast_eq_nil.mp whole directories
    | [s], split =>
      have behind : [] :: after = rest := (List.cons.inj split).2
      have first : (scheme' ++ [':']) :: [] :: after'.dropLast ++ more = [] :: after :=
        start.trans behind.symm
      exact absurd (List.cons.inj first).1 (by simp)
    | s :: s' :: shared, split =>
      obtain ⟨rfl, behind⟩ := List.cons.inj split
      obtain ⟨rfl, -⟩ := List.cons.inj behind
      obtain ⟨init, last, ends⟩ :=
        (List.eq_nil_or_concat' (pathSegments source)).resolve_left (pathSegments_ne_nil _)
      rw [ends, List.dropLast_concat] at whole
      rw [whole] at ends
      exact origin?_of_isAbsolute
        (isAbsolute_iff.mpr ⟨scheme, shared ++ [last], ends, by simp⟩) bare

/-- A target with an origin that the source does not have is referred to by its address, apart from
a final index document, exactly if the source has an origin itself or lies in no directories but
such as the first steps of the target make up for. If the target begins with its scheme, this means
that the source has no directories, and in all other sources the reference is a path. -/
theorem absolute_kept_iff {source target : String} (hosted : origin? target ≠ none)
    (apart : origin? source ≠ origin? target) :
    (Keeps (relativeReference source target) target ↔
      origin? source ≠ none ∨ StartsUp source target) ∧
    (origin? source ≠ none → relativeReference source target = target) ∧
    (IsAbsolute target →
      (Keeps (relativeReference source target) target ↔
        origin? source ≠ none ∨ '/' ∉ source.toList) ∧
      (IsAbsolute (relativeReference source target) ↔
        origin? source ≠ none ∨ '/' ∉ source.toList)) := by
  have unchanged (own : origin? source ≠ none) : relativeReference source target = target :=
    relativeReference_hosted own hosted apart
  have kept : Keeps (relativeReference source target) target ↔
      origin? source ≠ none ∨ StartsUp source target := by
    by_cases own : origin? source = none
    · simpa [own] using keeps_bare_iff own hosted
    · simp [own, Keeps, unchanged own]
  refine ⟨kept, unchanged, fun absolute => ?_⟩
  have kept' : Keeps (relativeReference source target) target ↔
      origin? source ≠ none ∨ '/' ∉ source.toList := by rw [kept, startsUp_iff absolute]
  refine ⟨kept', fun found => ?_, fun either => absolute.of_keeps (kept'.mpr either)⟩
  by_contra neither
  obtain ⟨bare, directories⟩ := not_or.mp neither
  exact not_isAbsolute (not_not.mp bare) absolute (not_not.mp directories) found

/-- A schema beside none other refers to one at another origin. -/
theorem absolute_kept_schemas :
    origin? "https://ex.org/b/index.html" ≠ none ∧
    origin? "schema.xsd" ≠ origin? "https://ex.org/b/index.html" ∧
    relativeReference "schema.xsd" "https://ex.org/b/index.html" = "https://ex.org/b/" ∧
    Keeps "https://ex.org/b/" "https://ex.org/b/index.html" ∧
    IsAbsolute "https://ex.org/b/" := by
  have hosted : origin? "https://ex.org/b/index.html" ≠ none := by decide
  have apart : origin? "schema.xsd" ≠ origin? "https://ex.org/b/index.html" := by decide
  have absolute : IsAbsolute "https://ex.org/b/index.html" :=
    ⟨"https", "ex.org/b/index.html", by decide, by decide⟩
  have made : relativeReference "schema.xsd" "https://ex.org/b/index.html" =
      "https://ex.org/b/" := by
    decide
  obtain ⟨kept, whole⟩ := (absolute_kept_iff hosted apart).2.2 absolute
  rw [made] at kept whole
  exact ⟨hosted, apart, made, kept.mpr (.inr (by decide)), whole.mpr (.inr (by decide))⟩

/-- A schema in a directory refers to one at an origin by a path below its own place. -/
theorem absolute_below_directory :
    origin? "https://ex.org/b/schema.xsd" ≠ none ∧
    origin? "a/schema.xsd" ≠ origin? "https://ex.org/b/schema.xsd" ∧
    relativeReference "a/schema.xsd" "https://ex.org/b/schema.xsd" =
      "../https://ex.org/b/schema.xsd" ∧
    ¬ Keeps "../https://ex.org/b/schema.xsd" "https://ex.org/b/schema.xsd" := by
  refine ⟨by decide, by decide, by decide, ?_⟩
  rintro (same | longer)
  · exact absurd same (by decide)
  · exact absurd longer (by decide)

end RdfXmlMapping.Import
