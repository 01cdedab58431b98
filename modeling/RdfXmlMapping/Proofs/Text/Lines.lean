import Mathlib.Data.List.Infix
import Mathlib.Data.List.TakeDrop
import Mathlib.Data.List.TakeWhile
import RdfXmlMapping.Text.Replace
import RdfXmlMapping.Text.Segments

/-!
Texts cut into parts. A text is cut where a character does not belong any more, or into lines.
Cutting a text made of lines gives the lines back (`lines_unlines`), and a piece that contains no
line feed is found in it where it stands in a line.
-/

namespace RdfXmlMapping.Text

/-! ### Spans -/

variable {p : Char → Bool} {l rest : List Char}

/-- The cut is found in the first part of a text if the second begins with a character that does not
belong. -/
theorem span_stop (stop : ∀ c ∈ rest.head?, p c = false) :
    (l ++ rest).span p = (l.takeWhile p, l.dropWhile p ++ rest) := by
  rw [List.span_eq_takeWhile_dropWhile]
  induction l with
  | nil =>
    cases rest with
    | nil => rfl
    | cons c cs => simp [stop c rfl]
  | cons c cs ih =>
    obtain ⟨taken, dropped⟩ := Prod.mk.inj ih
    by_cases belongs : p c
    · simp [belongs, taken, dropped]
    · simp [belongs]

theorem span_append (all : ∀ c ∈ l, p c = true) (stop : ∀ c ∈ rest.head?, p c = false) :
    (l ++ rest).span p = (l, rest) := by
  rw [span_stop stop, List.takeWhile_eq_self_iff.mpr all, List.dropWhile_eq_nil_iff.mpr all,
    List.nil_append]

/-! ### Texts made of lines -/

variable {sep : Char} {piece : List Char} {ls : List (List Char)}

/-- The lines one after the other, each with its end. -/
def unlines (ls : List (List Char)) : List Char := ls.flatMap (· ++ ['\n'])

/-- A text without characters that end a line. -/
def Unbroken (l : List Char) : Prop := '\n' ∉ l ∧ '\r' ∉ l

theorem unlines_cons : unlines (l :: ls) = l ++ '\n' :: unlines ls := by
  simp [unlines]

theorem unlines_append (ls ls' : List (List Char)) :
    unlines (ls ++ ls') = unlines ls ++ unlines ls' :=
  List.flatMap_append

/-! ### Segments -/

theorem segments_of_notMem (free : sep ∉ l) : segments sep l = [l] := by
  induction l with
  | nil => rfl
  | cons c cs ih =>
    have other := List.ne_of_not_mem_cons free
    rw [segments, if_neg (Ne.symm other), ih (List.not_mem_of_not_mem_cons free)]

/-- The pieces of two texts with a separator between them are those of the one and of the other. -/
theorem segments_cut (l rest : List Char) :
    segments sep (l ++ sep :: rest) = segments sep l ++ segments sep rest := by
  induction l with
  | nil => simp [segments]
  | cons c cs ih =>
    by_cases same : c = sep
    · simp [segments, same, ih]
    · obtain ⟨first, others, split⟩ := List.exists_cons_of_ne_nil (segments_ne_nil sep cs)
      simp [segments, same, ih, split]

theorem segments_append (free : sep ∉ l) (rest : List Char) :
    segments sep (l ++ sep :: rest) = l :: segments sep rest := by
  rw [segments_cut, segments_of_notMem free]
  rfl

theorem segments_prepend {start first : List Char} {others : List (List Char)} (free : sep ∉ start)
    (h : segments sep l = first :: others) :
    segments sep (start ++ l) = (start ++ first) :: others := by
  induction start with
  | nil => exact h
  | cons c cs ih =>
    have other := List.ne_of_not_mem_cons free
    rw [List.cons_append, segments, if_neg (Ne.symm other), ih (List.not_mem_of_not_mem_cons free)]
    rfl

theorem notMem_segments {cs piece : List Char} (member : piece ∈ segments sep cs) :
    sep ∉ piece := by
  induction cs generalizing piece with
  | nil =>
    obtain rfl := List.mem_singleton.mp member
    simp
  | cons c cs ih =>
    obtain ⟨first, others, split⟩ := List.exists_cons_of_ne_nil (segments_ne_nil sep cs)
    rw [segments, split] at member
    rw [split] at ih
    split at member
    · rcases List.mem_cons.mp member with rfl | later
      · simp
      · exact ih later
    next other =>
      rcases List.mem_cons.mp member with rfl | later
      · have free := ih List.mem_cons_self
        simp [free, Ne.symm other]
      · exact ih (List.mem_cons_of_mem _ later)

theorem segments_one {piece : List Char} (h : segments sep l = [piece]) : sep ∉ l ∧ l = piece := by
  have whole : l = piece := by rw [← joinSegments_segments sep l, h]; rfl
  exact ⟨whole ▸ notMem_segments (h ▸ List.mem_singleton_self piece), whole⟩

theorem segments_joinSegments {ss : List (List Char)} (filled : ss ≠ [])
    (free : ∀ s ∈ ss, sep ∉ s) : segments sep (joinSegments sep ss) = ss := by
  induction ss with
  | nil => exact absurd rfl filled
  | cons s ss ih =>
    obtain ⟨first, others⟩ := List.forall_mem_cons.mp free
    by_cases last : ss = []
    · subst last
      exact segments_of_notMem first
    · rw [joinSegments_cons sep s last, segments_append first, ih last others]

theorem joinSegments_append (init : List (List Char)) (last piece : List Char) :
    joinSegments sep (init ++ [last]) ++ piece = joinSegments sep (init ++ [last ++ piece]) := by
  induction init with
  | nil => rfl
  | cons s init ih =>
    rw [List.cons_append, List.cons_append, joinSegments_cons sep s (by simp),
      joinSegments_cons sep s (by simp), List.append_assoc, List.cons_append, ih]

/-- A piece without separators belongs to the last segment. -/
theorem segments_extend {init : List (List Char)} {last : List Char} (free : sep ∉ piece)
    (h : segments sep l = init ++ [last]) :
    segments sep (l ++ piece) = init ++ [last ++ piece] := by
  have whole : l ++ piece = joinSegments sep (init ++ [last ++ piece]) := by
    rw [← joinSegments_append, ← h, joinSegments_segments]
  rw [whole, segments_joinSegments (by simp)]
  intro s member
  rcases List.mem_append.mp member with inner | same
  · exact notMem_segments (h ▸ List.mem_append_left _ inner)
  · obtain rfl := List.mem_singleton.mp same
    have first : sep ∉ last := notMem_segments (h ▸ List.mem_append_right init List.mem_cons_self)
    simp [first, free]

theorem intercalate_eq_joinSegments (sep : Char) (ss : List (List Char)) :
    [sep].intercalate ss = joinSegments sep ss := by
  induction ss with
  | nil => rfl
  | cons s ss ih =>
    cases ss with
    | nil => simp [joinSegments]
    | cons s' ss => rw [List.intercalate_cons_cons, ih, List.append_assoc]; rfl

theorem segments_unlines (free : ∀ l ∈ ls, '\n' ∉ l) (last : '\n' ∉ rest) :
    segments '\n' (unlines ls ++ rest) = ls ++ [rest] := by
  induction ls with
  | nil => exact segments_of_notMem last
  | cons l ls ih =>
    obtain ⟨first, others⟩ := List.forall_mem_cons.mp free
    rw [unlines_cons, List.append_assoc, List.cons_append, segments_append first, ih others]
    rfl

theorem mapIdx_unbroken (unbroken : ∀ l ∈ ls, Unbroken l) (ended : Nat) :
    ls.mapIdx (fun i l => if i < ended && l.getLast? = some '\r' then l.dropLast else l) = ls := by
  refine List.ext_getElem (by simp) fun i _ short => ?_
  have plain := (unbroken _ (List.getElem_mem short)).2
  rw [List.getElem_mapIdx, if_neg]
  intro both
  have last := (Bool.and_eq_true _ _ ▸ both).2
  exact plain (List.mem_of_getLast? (of_decide_eq_true last))

theorem lines_unlines (unbroken : ∀ l ∈ ls, Unbroken l) : lines (unlines ls) = ls := by
  have pieces : segments '\n' (unlines ls ++ []) = ls ++ [[]] :=
    segments_unlines (fun l member => (unbroken l member).1) (by simp)
  rw [List.append_nil] at pieces
  unfold lines
  rw [pieces]
  simp only [List.getLast?_append, List.getLast?_singleton, Option.some_or, if_true,
    List.dropLast_concat]
  exact mapIdx_unbroken unbroken _

/-- The last line may lack its end. -/
theorem lines_unlines_append (unbroken : ∀ l ∈ ls, Unbroken l) (last : Unbroken l)
    (filled : l ≠ []) :
    lines (unlines ls ++ l) = ls ++ [l] := by
  have pieces := segments_unlines (fun l member => (unbroken l member).1) last.1
  unfold lines
  rw [pieces]
  simp only [List.getLast?_append, List.getLast?_singleton, Option.some_or, Option.some.injEq,
    filled, if_false]
  refine mapIdx_unbroken (fun k member => ?_) _
  rcases List.mem_append.mp member with member | member
  · exact unbroken k member
  · exact List.mem_singleton.mp member ▸ last

/-! ### Pieces -/

theorem after?_append (piece rest : List Char) : after? piece (piece ++ rest) = some rest := by
  induction piece with
  | nil => rfl
  | cons c cs ih => rw [List.cons_append, after?, if_pos rfl, ih]

theorem eq_of_after? {cs : List Char} (h : after? piece cs = some rest) : cs = piece ++ rest := by
  induction piece generalizing cs with
  | nil => exact Option.some.inj h
  | cons p ps ih =>
    cases cs with
    | nil => cases h
    | cons c cs =>
      rw [after?] at h
      split at h
      next same => rw [ih h, same, List.cons_append]
      next => cases h

theorem after?_eq_none {c : Char} {cs : List Char} (other : piece.head? ≠ some c)
    (filled : piece ≠ []) : after? piece (c :: cs) = none := by
  cases piece with
  | nil => exact absurd rfl filled
  | cons p ps =>
    rw [after?, if_neg]
    rintro rfl
    exact other rfl

theorem occurs_iff {cs : List Char} (filled : piece ≠ []) : occurs piece cs ↔ piece <:+: cs := by
  induction cs with
  | nil =>
    rw [occurs, cut?, if_neg (by simpa using filled), List.infix_nil]
    simp [filled]
  | cons c cs ih =>
    rw [List.infix_cons_iff, ← ih, occurs, cut?]
    cases found : after? piece (c :: cs) with
    | some rest =>
      have start : piece <+: c :: cs := ⟨rest, (eq_of_after? found).symm⟩
      simp [start]
    | none =>
      have start : ¬ piece <+: c :: cs := by
        rintro ⟨rest, same⟩
        rw [← same, after?_append] at found
        cases found
      simp [start, occurs]

theorem cut?_append (filled : piece ≠ []) (rest : List Char) :
    cut? piece (piece ++ rest) = some ([], rest) := by
  cases piece with
  | nil => exact absurd rfl filled
  | cons c cs =>
    have here := after?_append (c :: cs) rest
    rw [List.cons_append] at here ⊢
    rw [cut?, here]

/-- A piece without a line feed that does not occur in the line is found after it, if at all. -/
theorem cut?_line (filled : piece ≠ []) (free : '\n' ∉ piece) (absent : ¬ piece <:+: l)
    (rest : List Char) : cut? piece (l ++ '\n' :: rest) =
      (cut? piece rest).map fun r => (l ++ '\n' :: r.1, r.2) := by
  induction l with
  | nil =>
    have none : after? piece ('\n' :: rest) = none :=
      after?_eq_none (fun first => free (List.mem_of_head? first)) filled
    show cut? piece ('\n' :: rest) = _
    rw [cut?, none]
    rfl
  | cons c cs ih =>
    have none : after? piece (c :: (cs ++ '\n' :: rest)) = none := by
      rw [Option.eq_none_iff_forall_ne_some]
      intro tail found
      have start : (c :: cs) ++ '\n' :: rest = piece ++ tail := eq_of_after? found
      rcases List.append_eq_append_iff.mp start with ⟨more, whole, ends⟩ | ⟨more, whole, _⟩
      · cases more with
        | nil => exact absent (by simp [whole])
        | cons d more =>
          obtain ⟨rfl, -⟩ := List.cons.inj ends
          exact free (by simp [whole])
      · exact absent (whole ▸ (List.prefix_append piece more).isInfix)
    show cut? piece (c :: (cs ++ '\n' :: rest)) = _
    rw [cut?, none, ih fun inside => absent (inside.trans (List.suffix_cons c cs).isInfix)]
    cases cut? piece rest <;> rfl

theorem cut?_unlines (filled : piece ≠ []) (free : '\n' ∉ piece)
    (absent : ∀ l ∈ ls, ¬ piece <:+: l) (rest : List Char) : cut? piece (unlines ls ++ rest) =
      (cut? piece rest).map fun r => (unlines ls ++ r.1, r.2) := by
  induction ls with
  | nil =>
    show cut? piece rest = _
    cases cut? piece rest <;> rfl
  | cons l ls ih =>
    obtain ⟨first, others⟩ := List.forall_mem_cons.mp absent
    rw [unlines_cons, List.append_assoc, List.cons_append, cut?_line filled free first, ih others]
    cases cut? piece rest <;> simp

theorem occurs_unlines (filled : piece ≠ []) (free : '\n' ∉ piece)
    (absent : ∀ l ∈ ls, ¬ piece <:+: l) : occurs piece (unlines ls) = false := by
  have cut := cut?_unlines filled free absent []
  rw [List.append_nil] at cut
  rw [occurs, cut, cut?, if_neg (by simpa using filled)]
  rfl

theorem infix_unlines (member : l ∈ ls) (inside : piece <:+: l) : piece <:+: unlines ls := by
  obtain ⟨before, after, rfl⟩ := List.append_of_mem member
  rw [unlines_append, unlines_cons]
  exact inside.trans ⟨unlines before, '\n' :: unlines after, by simp⟩

/-- A piece that begins with a line feed does not begin inside a line. -/
theorem cut?_break (free : '\n' ∉ l) (rest : List Char) :
    cut? ('\n' :: piece) (l ++ '\n' :: rest) = match after? piece rest with
      | some tail => some (l, tail)
      | none => (cut? ('\n' :: piece) rest).map fun r => (l ++ '\n' :: r.1, r.2) := by
  induction l with
  | nil =>
    show cut? ('\n' :: piece) ('\n' :: rest) = _
    rw [cut?, after?, if_pos rfl]
    cases after? piece rest <;> rfl
  | cons c cs ih =>
    have other := List.ne_of_not_mem_cons free
    show cut? ('\n' :: piece) (c :: (cs ++ '\n' :: rest)) = _
    rw [cut?, after?, if_neg other, ih (List.not_mem_of_not_mem_cons free)]
    cases after? piece rest with
    | some tail => rfl
    | none => cases cut? ('\n' :: piece) rest <;> rfl

/-- The first line that begins with a piece is found with the end of the line before. -/
theorem cut?_unlines_break (filled : piece ≠ []) (free : ∀ k ∈ l :: ls, '\n' ∉ k)
    (absent : ∀ k ∈ ls, k.head? ≠ piece.head?) (notBreak : piece.head? ≠ some '\n')
    (rest : List Char) : ∃ before, unlines (l :: ls) = before ++ ['\n'] ∧
      cut? ('\n' :: piece) (unlines (l :: ls) ++ (piece ++ rest)) = some (before, rest) := by
  induction ls generalizing l with
  | nil =>
    refine ⟨l, unlines_cons, ?_⟩
    rw [unlines_cons, List.append_assoc, List.cons_append, cut?_break (free l List.mem_cons_self)]
    show (match after? piece (piece ++ rest) with | some tail => _ | none => _) = _
    rw [after?_append]
  | cons k ls ih =>
    obtain ⟨other, others⟩ := List.forall_mem_cons.mp absent
    obtain ⟨before, whole, cut⟩ :=
      ih (fun k member => free k (List.mem_cons_of_mem _ member)) others
    refine ⟨l ++ '\n' :: before, by rw [unlines_cons, whole, List.append_assoc]; rfl, ?_⟩
    have none : after? piece (unlines (k :: ls) ++ (piece ++ rest)) = none := by
      rw [unlines_cons, List.append_assoc, List.cons_append]
      cases k with
      | nil => exact after?_eq_none notBreak filled
      | cons c cs => exact after?_eq_none (Ne.symm other) filled
    rw [unlines_cons, List.append_assoc, List.cons_append, cut?_break (free l List.mem_cons_self),
      none, cut]
    rfl

end RdfXmlMapping.Text
