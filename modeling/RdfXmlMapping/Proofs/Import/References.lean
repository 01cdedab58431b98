import RdfXmlMapping.Import.Resolve
import RdfXmlMapping.Proofs.Text.Lines

/-!
References between published documents. A document follows a reference from its own directory, and
the reference made for a target leads to that target, or to its directory if the target is an index
document (`relativeReference_resolves`).
-/

namespace RdfXmlMapping.Import

open Text

/-! ### Following a reference -/

def pathSegments (address : String) : List (List Char) := segments '/' address.toList

theorem pathSegments_ne_nil (address : String) : pathSegments address ≠ [] := segments_ne_nil _ _

/-- Takes the steps of a reference one after the other: to the directory above, nowhere, or down.
There is no directory above the first. -/
def follow? : List (List Char) → List (List Char) → Option (List (List Char))
  | base, [] => some base
  | base, step :: steps =>
    if step = ['.', '.'] then if base = [] then none else follow? base.dropLast steps
    else if step = ['.'] then follow? base steps
    else follow? (base ++ [step]) steps

/-- Where a reference leads in the document at an address. -/
def resolve? (address reference : String) : Option (List (List Char)) :=
  follow? (pathSegments address).dropLast (pathSegments reference)

/-- The segments of a path to a document. None is left out or stands for another directory, and no
directory is called like an index document. -/
structure PlainPath (path : List (List Char)) : Prop where
  named : ∀ s ∈ path, s ≠ [] ∧ s ≠ ['.'] ∧ s ≠ ['.', '.']
  directories : indexFile ∉ path.dropLast

/-- A scheme and an authority. -/
def IsOrigin (origin : String) : Prop :=
  ∃ scheme authority : String, origin = scheme ++ "://" ++ authority ∧
    ¬ "://".toList <:+: scheme.toList ∧ '/' ∉ authority.toList

/-- Two addresses that are paths, or paths at one origin. -/
inductive Related (source target : String) : Prop
  | bare : PlainPath (pathSegments source) → PlainPath (pathSegments target) →
      Related source target
  | hosted {origin source' target' : String} : IsOrigin origin →
      source = origin ++ "/" ++ source' → target = origin ++ "/" ++ target' →
      PlainPath (pathSegments source') → PlainPath (pathSegments target') → Related source target

/-- The longest list with which two lists begin. -/
structure LongestShared (first second shared : List (List Char)) : Prop where
  left : shared <+: first
  right : shared <+: second
  longest : ∀ other, other <+: first → other <+: second → other.length ≤ shared.length

/-! ### The steps that lead up -/

variable {source target base shared below rest steps : List (List Char)} {s t : List Char}

theorem sharedLength_append (start : List (List Char)) :
    sharedLength (start ++ source) (start ++ target) =
      start.length + sharedLength source target := by
  induction start with
  | nil => simp
  | cons first start ih =>
    rw [List.cons_append, List.cons_append, sharedLength, if_pos rfl, ih, List.length_cons]
    omega

theorem sharedLength_take (n : Nat) :
    sharedLength (source.take n) target = min (sharedLength source target) n := by
  induction source generalizing target n with
  | nil => simp [sharedLength]
  | cons a source ih =>
    cases n with
    | zero => simp [sharedLength]
    | succ n =>
      cases target with
      | nil => simp [sharedLength]
      | cons b target =>
        rw [List.take_succ_cons, sharedLength, sharedLength]
        split
        · rw [ih]
          omega
        · omega

/-- Both lists begin with as many segments as they are said to share, and then they part. -/
theorem sharedLength_split (source target : List (List Char)) : ∃ shared below rest,
    source = shared ++ below ∧ target = shared ++ rest ∧
    shared.length = sharedLength source target ∧ LongestShared source target shared := by
  induction source generalizing target with
  | nil =>
    refine ⟨[], [], target, rfl, rfl, by simp [sharedLength], List.nil_prefix, List.nil_prefix, ?_⟩
    intro other start _
    rw [List.prefix_nil.mp start]
  | cons a source ih =>
    cases target with
    | nil =>
      refine ⟨[], a :: source, [], rfl, rfl, by simp [sharedLength], List.nil_prefix,
        List.nil_prefix, ?_⟩
      intro other _ start
      rw [List.prefix_nil.mp start]
    | cons b target =>
      by_cases same : a = b
      · subst same
        obtain ⟨shared, below, rest, rfl, rfl, size, longest⟩ := ih target
        refine ⟨a :: shared, below, rest, rfl, rfl, ?_, ⟨below, rfl⟩, ⟨rest, rfl⟩, ?_⟩
        · rw [sharedLength, if_pos rfl, ← size, List.length_cons]
        · intro other left right
          cases other with
          | nil => simp
          | cons c other =>
            have inner := longest.longest other (List.cons_prefix_cons.mp left).2
              (List.cons_prefix_cons.mp right).2
            rw [List.length_cons, List.length_cons]
            omega
      · refine ⟨[], a :: source, b :: target, rfl, rfl, ?_, List.nil_prefix, List.nil_prefix, ?_⟩
        · rw [sharedLength, if_neg same]
          rfl
        · intro other left right
          cases other with
          | nil => simp
          | cons c other =>
            obtain rfl := (List.cons_prefix_cons.mp left).1
            exact absurd (List.cons_prefix_cons.mp right).1 same

theorem relativeSegments_append (start : List (List Char)) (filled : source ≠ []) :
    relativeSegments (start ++ source) (start ++ target) = relativeSegments source target := by
  have some := List.length_pos_iff.mpr filled
  have most : min (start.length + sharedLength source target) (start.length + source.length - 1) =
      start.length + min (sharedLength source target) (source.length - 1) := by omega
  have ups : start.length + source.length - 1 -
      (start.length + min (sharedLength source target) (source.length - 1)) =
        source.length - 1 - min (sharedLength source target) (source.length - 1) := by omega
  rw [relativeSegments, relativeSegments, sharedLength_append, List.length_append, most, ups,
    List.drop_append]
  simp

/-- A reference goes up from the directories that the target is not in, and then down. -/
theorem relativeSegments_split (source target : List (List Char)) : ∃ shared below rest,
    source.dropLast = shared ++ below ∧ target = shared ++ rest ∧
    LongestShared source.dropLast target shared ∧
    relativeSegments source target = List.replicate below.length ['.', '.'] ++ rest := by
  obtain ⟨shared, below, rest, left, right, size, longest⟩ :=
    sharedLength_split source.dropLast target
  refine ⟨shared, below, rest, left, right, longest, ?_⟩
  have most : min (sharedLength source target) (source.length - 1) = shared.length := by
    rw [size, List.dropLast_eq_take, sharedLength_take]
  have count : source.length - 1 - shared.length = below.length := by
    rw [← List.length_dropLast, left, List.length_append]
    omega
  rw [relativeSegments, most, count, right, List.drop_left]

theorem follow?_up (base steps : List (List Char)) : ∀ below : List (List Char),
    follow? (base ++ below) (List.replicate below.length ['.', '.'] ++ steps) =
      follow? base steps := by
  intro below
  induction below using List.reverseRecOn with
  | nil => simp
  | append_singleton below last ih =>
    rw [List.length_append, List.length_singleton, List.replicate_succ, List.cons_append, follow?,
      if_pos rfl, if_neg (by simp), ← List.append_assoc, List.dropLast_concat, ih]

theorem follow?_down (plain : ∀ s ∈ steps, s ≠ ['.'] ∧ s ≠ ['.', '.']) :
    follow? base steps = some (base ++ steps) := by
  induction steps generalizing base with
  | nil => simp [follow?]
  | cons step steps ih =>
    obtain ⟨⟨stay, up⟩, others⟩ := List.forall_mem_cons.mp plain
    rw [follow?, if_neg up, if_neg stay, ih others]
    simp

/-! ### The text of a reference -/

theorem joinSegments_eq_nil : joinSegments '/' steps = [] ↔ steps = [] ∨ steps = [[]] := by
  match steps with
  | [] => simp [joinSegments]
  | [step] => simp [joinSegments]
  | step :: other :: rest => simp [joinSegments]

/-- The steps of the reference between two paths; an empty text would not be a reference. -/
def stepsBetween (source target : List (List Char)) : List (List Char) :=
  let steps := dropIndex (relativeSegments source target)
  if steps = [] ∨ steps = [[]] then [['.']] else steps

theorem dropIndex_subset : dropIndex steps ⊆ [] :: steps := by
  intro s member
  unfold dropIndex at member
  split at member
  · rcases List.mem_append.mp member with inner | last
    · exact List.mem_cons_of_mem _ (List.dropLast_subset _ inner)
    · exact List.mem_cons.mpr (.inl (List.mem_singleton.mp last))
  · exact List.mem_cons_of_mem _ member

theorem segments_relativePath (s t : List Char) :
    segments '/' (relativePath s t) = stepsBetween (segments '/' s) (segments '/' t) := by
  have free : ∀ step ∈ dropIndex (relativeSegments (segments '/' s) (segments '/' t)),
      '/' ∉ step := by
    intro step member
    rcases List.mem_cons.mp (dropIndex_subset member) with rfl | member
    · simp
    · rcases List.mem_append.mp member with up | down
      · rw [List.eq_of_mem_replicate up]
        decide
      · exact notMem_segments (List.mem_of_mem_drop down)
  rw [relativePath, stepsBetween]
  split
  next none =>
    rw [if_pos (joinSegments_eq_nil.mp none)]
    rfl
  next filled =>
    have some : ¬ (_ ∨ _) := fun none => filled (joinSegments_eq_nil.mpr none)
    rw [if_neg some, segments_joinSegments (fun none => some (.inl none)) free]

theorem dropIndex_other {last : List Char} (other : last ≠ indexFile) :
    dropIndex (steps ++ [last]) = steps ++ [last] := by
  rw [dropIndex, List.getLast?_concat, if_neg]
  exact fun same => other (Option.some.inj same)

theorem dropIndex_index : dropIndex (steps ++ [indexFile]) = steps ++ [[]] := by
  rw [dropIndex, List.getLast?_concat, if_pos rfl, List.dropLast_concat]

/-- The steps that lead down to what is left of a target: all of them, but for a final index
document. Where none are left, the last step stays in its directory. -/
inductive StepsDown : List (List Char) → List (List Char) → Prop
  | all {rest : List (List Char)} (other : rest.getLast? ≠ some indexFile) : StepsDown rest rest
  | none : StepsDown [] [['.']]
  | index {rest : List (List Char)} : StepsDown (rest ++ [indexFile]) (rest ++ [[]])
  | only : StepsDown [indexFile] [['.']]

/-- After the steps up come those down. -/
theorem stepsBetween_split
    (whole : relativeSegments source target = List.replicate below.length ['.', '.'] ++ rest)
    (named : ∀ s ∈ rest, s ≠ []) : ∃ tail,
      stepsBetween source target = List.replicate below.length ['.', '.'] ++ tail ∧
      StepsDown rest tail := by
  rw [stepsBetween, whole]
  rcases List.eq_nil_or_concat' rest with rfl | ⟨rest, last, rfl⟩
  · rcases List.eq_nil_or_concat' below with rfl | ⟨below, last, rfl⟩
    · exact ⟨[['.']], by simp [dropIndex], .none⟩
    · refine ⟨[], ?_, .all (by simp)⟩
      rw [List.append_nil, List.length_append, List.length_singleton, List.replicate_succ',
        dropIndex_other (by decide), if_neg (by simp [List.append_eq_singleton_iff])]
  · rw [← List.append_assoc]
    by_cases index : last = indexFile
    · subst index
      rw [dropIndex_index]
      by_cases here : List.replicate below.length ['.', '.'] ++ rest = []
      · obtain ⟨stay, rfl⟩ := List.append_eq_nil_iff.mp here
        exact ⟨[['.']], by simp [stay], .only⟩
      · refine ⟨rest ++ [[]], ?_, .index⟩
        rw [if_neg, List.append_assoc]
        rintro (none | none)
        · exact List.append_ne_nil_of_right_ne_nil _ (by simp) none
        · exact here (List.append_eq_singleton_iff.mp none |>.elim (·.1) fun h => by simp at h)
    · refine ⟨rest ++ [last], ?_, .all (by simp [index])⟩
      have filled := named last (by simp)
      rw [dropIndex_other index, if_neg, List.append_assoc]
      simp [List.append_eq_singleton_iff, filled]

theorem StepsDown.takeWhile_up (h : StepsDown rest tail) (named : ∀ s ∈ rest, s ≠ ['.', '.']) :
    tail.takeWhile (· = ['.', '.']) = [] := by
  have down (first : List Char) (others : List (List Char)) (step : first ≠ ['.', '.']) :
      (first :: others).takeWhile (· = ['.', '.']) = [] := by simp [step]
  cases h with
  | all =>
    cases rest with
    | nil => rfl
    | cons first others => exact down first others (named first List.mem_cons_self)
  | none | only => rfl
  | @index rest =>
    cases rest with
    | nil => rfl
    | cons first others => exact down first _ (named first List.mem_cons_self)

/-- The steps down from a directory lead to the target, or to its directory if it is an index
document. -/
theorem StepsDown.reaches (h : StepsDown rest tail) (base : List (List Char))
    (plain : ∀ s ∈ rest, s ≠ ['.'] ∧ s ≠ ['.', '.']) :
    (rest.getLast? ≠ some indexFile → follow? base tail = some (base ++ rest)) ∧
    (rest.getLast? = some indexFile → follow? base tail = some (base ++ rest.dropLast) ∨
      follow? base tail = some (base ++ rest.dropLast ++ [[]])) := by
  cases h with
  | all other => exact ⟨fun _ => follow?_down plain, fun index => absurd index other⟩
  | none => exact ⟨fun _ => by simp [follow?], fun index => by cases index⟩
  | @index rest =>
    have down : ∀ s ∈ rest ++ [[]], s ≠ ['.'] ∧ s ≠ ['.', '.'] := by
      intro s member
      rcases List.mem_append.mp member with inner | last
      · exact plain s (List.mem_append_left _ inner)
      · simp [List.mem_singleton.mp last]
    refine ⟨fun other => absurd List.getLast?_concat other, fun _ => .inr ?_⟩
    rw [follow?_down down, List.dropLast_concat, List.append_assoc]
  | only => exact ⟨fun other => absurd rfl other, fun _ => .inl (by simp [follow?])⟩

theorem LongestShared.append {first second : List (List Char)}
    (h : LongestShared first second shared) (outer : List (List Char)) :
    LongestShared (outer ++ first) (outer ++ second) (outer ++ shared) := by
  induction outer with
  | nil => exact h
  | cons step outer ih =>
    refine ⟨List.cons_prefix_cons.mpr ⟨rfl, ih.left⟩, List.cons_prefix_cons.mpr ⟨rfl, ih.right⟩, ?_⟩
    intro other left right
    cases other with
    | nil => simp
    | cons other others =>
      have inner := ih.longest others (List.cons_prefix_cons.mp left).2
        (List.cons_prefix_cons.mp right).2
      simpa using inner

/-- The steps between two paths, taken in any directory that the paths start from. -/
theorem stepsBetween_resolve (from_plain : PlainPath source) (to_plain : PlainPath target) :
    ∃ shared, LongestShared source.dropLast target shared ∧
      ((stepsBetween source target).takeWhile (· = ['.', '.'])).length + shared.length =
        source.dropLast.length ∧
      ∀ outer : List (List Char),
        let reached := follow? (outer ++ source.dropLast) (stepsBetween source target)
        (target.getLast? ≠ some indexFile → reached = some (outer ++ target)) ∧
        (target.getLast? = some indexFile → reached = some (outer ++ target.dropLast) ∨
          reached = some (outer ++ target.dropLast ++ [[]])) := by
  obtain ⟨shared, below, rest, left, right, longest, whole⟩ := relativeSegments_split source target
  have named : ∀ s ∈ rest, s ≠ [] ∧ s ≠ ['.'] ∧ s ≠ ['.', '.'] := fun s member =>
    to_plain.named s (right ▸ List.mem_append_right shared member)
  obtain ⟨tail, steps, down⟩ := stepsBetween_split whole fun s member => (named s member).1
  refine ⟨shared, longest, ?_, fun outer => ?_⟩
  · rw [steps, List.takeWhile_append_of_pos (by simp),
      down.takeWhile_up fun s member => (named s member).2.2, left]
    simp [Nat.add_comm]
  · have reached : follow? (outer ++ source.dropLast) (stepsBetween source target) =
        follow? (outer ++ shared) tail := by
      rw [steps, left, ← List.append_assoc, follow?_up]
    obtain ⟨other, index⟩ := down.reaches (outer ++ shared) fun s member =>
      (named s member).2
    dsimp only
    rw [reached]
    refine ⟨fun ends => ?_, fun ends => ?_⟩
    · have onward : rest.getLast? ≠ some indexFile := by
        intro same
        rw [right, List.getLast?_append, same] at ends
        exact ends rfl
      rw [other onward, right, List.append_assoc]
    · -- No directory of the source is called like an index document, so that it lies below them.
      have onward : rest.getLast? = some indexFile := by
        rw [right, List.getLast?_append] at ends
        cases last : rest.getLast? with
        | some step => rwa [last] at ends
        | none =>
          rw [last, Option.none_or] at ends
          have among : indexFile ∈ source.dropLast :=
            left ▸ List.mem_append_left below (List.mem_of_getLast? ends)
          exact absurd among from_plain.directories
      have some : rest ≠ [] := by
        rintro rfl
        cases onward
      rw [right, List.dropLast_append_of_ne_nil some, ← List.append_assoc]
      exact index onward

/-! ### Addresses -/

theorem splitOrigin?_path {path : List Char} (named : ∀ s ∈ segments '/' path, s ≠ []) :
    splitOrigin? path = none := by
  have absent : ¬ occurs [':', '/', '/'] path := by
    rw [occurs_iff (by simp)]
    rintro ⟨before, after, same⟩
    have split : path = (before ++ [':']) ++ '/' :: ([] ++ '/' :: after) := by simp [← same]
    rw [split, segments_cut, segments_cut] at named
    exact named [] (by simp [segments]) rfl
  rw [splitOrigin?]
  cases cut : cut? [':', '/', '/'] path with
  | none => rfl
  | some parts => exact absurd (by simp [occurs, cut]) absent

theorem cut?_scheme {scheme : List Char} (absent : ¬ [':', '/', '/'] <:+: scheme)
    (rest : List Char) :
    cut? [':', '/', '/'] (scheme ++ [':', '/', '/'] ++ rest) = some (scheme, rest) := by
  induction scheme with
  | nil => exact cut?_append (by simp) rest
  | cons c scheme ih =>
    have later := ih fun inside => absent (inside.trans (List.suffix_cons c scheme).isInfix)
    have here : after? [':', '/', '/'] (c :: scheme ++ [':', '/', '/'] ++ rest) = none := by
      match scheme with
      | [] => simp [after?]
      | [_] => simp [after?]
      | d :: e :: more =>
        have apart : ¬ (':' = c ∧ '/' = d ∧ '/' = e) := by
          rintro ⟨rfl, rfl, rfl⟩
          exact absent (List.prefix_append [':', '/', '/'] more).isInfix
        simpa [after?] using apart
    rw [List.cons_append, List.cons_append, cut?, ← List.cons_append, ← List.cons_append, here,
      later]
    rfl

theorem splitOrigin?_hosted {origin : String} (h : IsOrigin origin) (path : List Char) :
    splitOrigin? (origin.toList ++ '/' :: path) = some (origin.toList, '/' :: path) := by
  obtain ⟨scheme, authority, rfl, absent, free⟩ := h
  have whole : (scheme ++ "://" ++ authority).toList ++ '/' :: path =
      scheme.toList ++ [':', '/', '/'] ++ (authority.toList ++ '/' :: path) := by simp
  have host : ∀ c ∈ authority.toList, decide (c ≠ '/') = true := by
    rintro c member
    exact decide_eq_true fun same => free (same ▸ member)
  rw [whole, splitOrigin?, cut?_scheme absent]
  dsimp only
  rw [List.takeWhile_append_of_pos host, List.dropWhile_append_of_pos host]
  simp

/-- Behind what two addresses have in common there are two paths, and between these the reference
leads. -/
theorem Related.paths {source target : String} (h : Related source target) :
    ∃ outer left right, pathSegments source = outer ++ left ∧ pathSegments target = outer ++ right ∧
      PlainPath left ∧ PlainPath right ∧ left ≠ [] ∧ right ≠ [] ∧
      pathSegments (relativeReference source target) = stepsBetween left right := by
  cases h with
  | bare from_plain to_plain =>
    refine ⟨[], pathSegments source, pathSegments target, rfl, rfl, from_plain, to_plain,
      pathSegments_ne_nil _, pathSegments_ne_nil _, ?_⟩
    rw [pathSegments, relativeReference, String.toList_ofList, relativeReferenceChars,
      splitOrigin?_path fun s member => (from_plain.named s member).1]
    exact segments_relativePath _ _
  | @hosted origin source' target' hosted from_whole to_whole from_plain to_plain =>
    have address (path : String) : (origin ++ "/" ++ path).toList =
        origin.toList ++ '/' :: path.toList := by simp
    have path (path : String) : pathSegments (origin ++ "/" ++ path) =
        pathSegments origin ++ pathSegments path := by
      rw [pathSegments, address, segments_cut]
      rfl
    have steps : stepsBetween ([[]] ++ pathSegments source') ([[]] ++ pathSegments target') =
        stepsBetween (pathSegments source') (pathSegments target') := by
      rw [stepsBetween, relativeSegments_append [[]] (pathSegments_ne_nil _)]
      rfl
    refine ⟨pathSegments origin, pathSegments source', pathSegments target', from_whole ▸ path _,
      to_whole ▸ path _, from_plain, to_plain, pathSegments_ne_nil _, pathSegments_ne_nil _, ?_⟩
    rw [from_whole, to_whole, pathSegments, relativeReference, String.toList_ofList,
      relativeReferenceChars, address, address, splitOrigin?_hosted hosted,
      splitOrigin?_hosted hosted]
    dsimp only
    rw [if_pos rfl, segments_relativePath, ← steps]
    rfl

/-- A document that follows the reference made for a target comes to it, or to its directory if the
target is an index document, and never above the first directory. The reference leads up as often as
the document has directories that the target is not in. -/
theorem relativeReference_resolves {source target : String} (h : Related source target) :
    ((pathSegments target).getLast? ≠ some indexFile →
      resolve? source (relativeReference source target) = some (pathSegments target)) ∧
    ((pathSegments target).getLast? = some indexFile →
      resolve? source (relativeReference source target) = some (pathSegments target).dropLast ∨
      resolve? source (relativeReference source target) =
        some ((pathSegments target).dropLast ++ [[]])) ∧
    ∃ shared, LongestShared (pathSegments source).dropLast (pathSegments target) shared ∧
      ((pathSegments (relativeReference source target)).takeWhile (· = ['.', '.'])).length +
        shared.length = (pathSegments source).dropLast.length := by
  obtain ⟨outer, left, right, from_path, to_path, from_plain, to_plain, some, some', steps⟩ :=
    h.paths
  obtain ⟨shared, longest, ups, reached⟩ := stepsBetween_resolve from_plain to_plain
  obtain ⟨document, index⟩ := reached outer
  have last : (outer ++ right).getLast? = right.getLast? := by
    rw [List.getLast?_append, List.getLast?_eq_some_getLast some']
    rfl
  rw [resolve?, steps, from_path, to_path, last, List.dropLast_append_of_ne_nil some,
    List.dropLast_append_of_ne_nil some']
  refine ⟨document, index, outer ++ shared, longest.append outer, ?_⟩
  rw [List.length_append, List.length_append, ← ups]
  omega

/-- From one schema to another, and to the index document of a directory beside its own. -/
theorem relativeReference_resolves_schemas :
    Related "a/b/schema.xsd" "a/c.xsd" ∧
    relativeReference "a/b/schema.xsd" "a/c.xsd" = "../c.xsd" ∧
    resolve? "a/b/schema.xsd" "../c.xsd" = some (pathSegments "a/c.xsd") ∧
    Related "https://ex.org/a/schema.xsd" "https://ex.org/b/index.html" ∧
    relativeReference "https://ex.org/a/schema.xsd" "https://ex.org/b/index.html" = "../b/" ∧
    (resolve? "https://ex.org/a/schema.xsd" "../b/" = some (pathSegments "https://ex.org/b") ∨
      resolve? "https://ex.org/a/schema.xsd" "../b/" =
        some (pathSegments "https://ex.org/b/")) := by
  have bare : Related "a/b/schema.xsd" "a/c.xsd" :=
    .bare ⟨by decide, by decide⟩ ⟨by decide, by decide⟩
  have up : relativeReference "a/b/schema.xsd" "a/c.xsd" = "../c.xsd" := by decide
  have origin : IsOrigin "https://ex.org" := ⟨"https", "ex.org", by decide, by decide, by decide⟩
  have hosted : Related "https://ex.org/a/schema.xsd" "https://ex.org/b/index.html" :=
    @Related.hosted _ _ "https://ex.org" "a/schema.xsd" "b/index.html" origin (by decide)
      (by decide) ⟨by decide, by decide⟩ ⟨by decide, by decide⟩
  have beside : relativeReference "https://ex.org/a/schema.xsd" "https://ex.org/b/index.html" =
      "../b/" := by decide
  have directory : (pathSegments "https://ex.org/b/index.html").dropLast =
      pathSegments "https://ex.org/b" := by decide
  have slash : pathSegments "https://ex.org/b" ++ [[]] = pathSegments "https://ex.org/b/" := by
    decide
  have found := (relativeReference_resolves bare).1 (by decide)
  have found' := (relativeReference_resolves hosted).2.1 (by decide)
  rw [up] at found
  rw [beside, directory, slash] at found'
  exact ⟨bare, up, found, hosted, beside, found'⟩

end RdfXmlMapping.Import
