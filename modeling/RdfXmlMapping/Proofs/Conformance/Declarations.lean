import RdfXmlMapping.Proofs.Conformance.Words

/-!
The declarations that are found in a query are those of its first lines (`declarations_eq`).
-/

namespace RdfXmlMapping.Conformance.Query

open RdfXmlMapping.Query (IsWord)
open Text (unlines)

variable {l rest : List Char} {name uri query : String}

/-- A prefix and its namespace of which a declaration is read to its end. -/
structure Delimited (d : String × String) : Prop where
  word : IsWord d.1
  letter : d.1.toList.head?.any isLetter
  closes : '>' ∉ d.2.toList

/-- A prefix and its namespace as they can be declared. -/
structure Declarable (d : String × String) : Prop where
  word : IsWord d.1
  letter : d.1.toList.head?.any isLetter
  plain : Plain d.2

theorem Declarable.delimited {d : String × String} (h : Declarable d) : Delimited d :=
  ⟨h.word, h.letter, fun member => (h.plain '>' member).2.1 rfl⟩

/-! ### One declaration -/

theorem cut?_notMem {c : Char} (free : c ∉ l) (rest : List Char) :
    Text.cut? [c] (l ++ c :: rest) = some (l, rest) := by
  induction l with
  | nil => exact Text.cut?_append (by simp) rest
  | cons d ds ih =>
    have none : Text.after? [c] (d :: (ds ++ c :: rest)) = none :=
      Text.after?_eq_none (fun same => List.ne_of_not_mem_cons free (Option.some.inj same))
        (by simp)
    rw [List.cons_append, Text.cut?, none, ih (List.not_mem_of_not_mem_cons free)]
    rfl

theorem scanPrefix?_append (word : IsWord name) (letter : name.toList.head?.any isLetter)
    (rest : List Char) : scanPrefix? (name.toList ++ ':' :: rest) = some (name.toList, rest) := by
  have first : (name.toList ++ ':' :: rest).head?.any isLetter := by
    cases read : name.toList with
    | nil =>
      rw [read] at letter
      cases letter
    | cons c cs =>
      rw [read] at letter
      exact letter
  have words : ∀ c ∈ name.toList, (Unicode.isWordChar c || c = '-') = true := by
    intro c member
    rw [isWord_wordChar word c member, Bool.true_or]
  have colon : (Unicode.isWordChar ':' || ':' = '-') = false := by decide
  have taken : (name.toList ++ ':' :: rest).takeWhile (fun c => Unicode.isWordChar c || c = '-') =
      name.toList := by
    rw [List.takeWhile_append_of_pos words, List.takeWhile_cons, if_neg (by rw [colon]; decide),
      List.append_nil]
  rw [scanPrefix?, if_pos first, taken, List.drop_left]
  rfl

/-- The line that declares a prefix. -/
def declarationLine (d : String × String) : String := "PREFIX " ++ d.1 ++ ": <" ++ d.2 ++ ">"

theorem scanDeclaration?_line {d : String × String} (h : Delimited d) (rest : List Char) :
    scanDeclaration? ((declarationLine d).toList ++ rest) = some (d, rest) := by
  obtain ⟨name, uri⟩ := d
  have line : (declarationLine (name, uri)).toList ++ rest = declarationWord ++
      ' ' :: (name.toList ++ ':' :: ' ' :: '<' :: (uri.toList ++ '>' :: rest)) := by
    simp [declarationLine, declarationWord]
  have blank : Unicode.isBlank ' ' := by decide
  have start : (name.toList ++ ':' :: ' ' :: '<' :: (uri.toList ++ '>' :: rest)).dropWhile
      Unicode.isBlank = name.toList ++ ':' :: ' ' :: '<' :: (uri.toList ++ '>' :: rest) := by
    have letter := h.letter
    have word := isWord_wordChar h.word
    cases read : name.toList with
    | nil =>
      rw [read] at letter
      cases letter
    | cons c cs =>
      have first := isBlank_isWordChar (word c (by rw [read]; exact List.mem_cons_self))
      rw [List.cons_append, List.dropWhile_cons, if_neg (by simp [first])]
  have opens : (' ' :: '<' :: (uri.toList ++ '>' :: rest)).dropWhile Unicode.isBlank =
      '<' :: (uri.toList ++ '>' :: rest) := by
    rw [List.dropWhile_cons, if_pos blank, List.dropWhile_cons, if_neg (by decide)]
  rw [line, scanDeclaration?, Text.after?_append]
  simp only [Option.bind_eq_bind, Option.bind_some, List.head?_cons, Option.any_some, blank,
    if_true, List.dropWhile_cons, start, scanPrefix?_append h.word h.letter, opens,
    cut?_notMem h.closes]
  simp

theorem scanDeclaration?_other {c : Char} (other : c ≠ 'P') (cs : List Char) :
    scanDeclaration? (c :: cs) = none := by
  have none : Text.after? declarationWord (c :: cs) = none :=
    Text.after?_eq_none (fun same => other (Option.some.inj same).symm) (by simp [declarationWord])
  rw [scanDeclaration?, none]
  rfl

/-! ### Lines -/

theorem declarationsFrom_rest (free : '\n' ∉ l) (rest : List Char) :
    declarationsFrom 0 false (l ++ '\n' :: rest) = declarationsFrom 0 true rest := by
  induction l with
  | nil => rfl
  | cons c cs ih =>
    have other : decide (c = '\n') = false :=
      decide_eq_false (Ne.symm (List.ne_of_not_mem_cons free))
    rw [List.cons_append, declarationsFrom, other]
    exact ih (List.not_mem_of_not_mem_cons free)

/-- The rest of a declaration is passed over, also where it has more than one line. -/
theorem declarationsFrom_skip {c : Char} (last : c ≠ '\n') (atStart : Bool) (rest : List Char) :
    declarationsFrom (l.length + 1) atStart (l ++ c :: '\n' :: rest) =
      declarationsFrom 0 true rest := by
  induction l generalizing atStart with
  | nil =>
    rw [List.nil_append, List.length_nil, declarationsFrom, decide_eq_false last]
    rfl
  | cons d ds ih => exact ih _

theorem declarationsFrom_other (free : '\n' ∉ l) (other : l.head? ≠ some 'P') (rest : List Char) :
    declarationsFrom 0 true (l ++ '\n' :: rest) = declarationsFrom 0 true rest := by
  cases l with
  | nil =>
    show declarationsFrom 0 true ('\n' :: rest) = _
    rw [declarationsFrom, if_pos rfl, scanDeclaration?_other (by decide)]
    rfl
  | cons c cs =>
    have inside : decide (c = '\n') = false :=
      decide_eq_false (Ne.symm (List.ne_of_not_mem_cons free))
    have none :=
      scanDeclaration?_other (fun same => other (congrArg some same)) (cs ++ '\n' :: rest)
    rw [List.cons_append, declarationsFrom, if_pos rfl, none, inside]
    exact declarationsFrom_rest (List.not_mem_of_not_mem_cons free) rest

theorem declarationsFrom_line {d : String × String} (h : Delimited d) (rest : List Char) :
    declarationsFrom 0 true ((declarationLine d).toList ++ '\n' :: rest) =
      d :: declarationsFrom 0 true rest := by
  obtain ⟨tail, whole⟩ : ∃ tail, (declarationLine d).toList = 'P' :: (tail ++ ['>']) :=
    ⟨"REFIX ".toList ++ d.1.toList ++ ": <".toList ++ d.2.toList, by simp [declarationLine]⟩
  have found := scanDeclaration?_line h ('\n' :: rest)
  rw [whole, List.cons_append, List.append_assoc] at found ⊢
  rw [declarationsFrom, if_pos rfl, found]
  show d :: declarationsFrom ((tail ++ ('>' :: '\n' :: rest)).length - ('\n' :: rest).length) false
    (tail ++ '>' :: '\n' :: rest) = _
  have length : (tail ++ ('>' :: '\n' :: rest)).length - ('\n' :: rest).length =
      tail.length + 1 := by
    simp only [List.length_append, List.length_cons]
    omega
  rw [length, declarationsFrom_skip (by decide)]

theorem declarationsFrom_lines {ls : List String}
    (others : ∀ l ∈ ls, '\n' ∉ l.toList ∧ l.toList.head? ≠ some 'P') :
    declarationsFrom 0 true (unlines (ls.map String.toList)) = [] := by
  induction ls with
  | nil => rfl
  | cons l ls ih =>
    obtain ⟨⟨free, other⟩, others⟩ := List.forall_mem_cons.mp others
    rw [List.map_cons, Text.unlines_cons, declarationsFrom_other free other, ih others]

theorem foldl_distinct {ds table : List (String × String)}
    (distinct : ((table ++ ds).map (·.1)).Nodup) :
    ds.foldl (fun table d => table.filter (·.1 != d.1) ++ [d]) table = table ++ ds := by
  induction ds generalizing table with
  | nil => exact (List.append_nil _).symm
  | cons d ds ih =>
    rw [List.append_cons] at distinct
    have new : ∀ e ∈ table, (e.1 != d.1) = true := by
      intro e member
      have apart := distinct
      rw [List.map_append, List.map_append] at apart
      have apart := (List.nodup_append.mp (List.nodup_append.mp apart).1).2.2
      exact bne_iff_ne.mpr (apart e.1 (List.mem_map_of_mem member) d.1 (by simp))
    rw [List.foldl_cons, List.filter_eq_self.mpr new, ih distinct, ← List.append_cons]

theorem declarationsFrom_eq {ds : List (String × String)} {ls : List String}
    (delimited : ∀ d ∈ ds, Delimited d)
    (others : ∀ l ∈ ls, '\n' ∉ l.toList ∧ l.toList.head? ≠ some 'P') :
    declarationsFrom 0 true (unlines ((ds.map declarationLine ++ ls).map String.toList)) = ds := by
  induction ds with
  | nil => exact declarationsFrom_lines others
  | cons d ds ih =>
    obtain ⟨first, later⟩ := List.forall_mem_cons.mp delimited
    rw [List.map_cons, List.cons_append, List.map_cons, Text.unlines_cons,
      declarationsFrom_line first, ih later]

theorem declarations_eq {ds : List (String × String)} {ls : List String}
    (declarable : ∀ d ∈ ds, Declarable d) (distinct : (ds.map (·.1)).Nodup)
    (others : ∀ l ∈ ls, '\n' ∉ l.toList ∧ l.toList.head? ≠ some 'P')
    (made : query.toList = unlines ((ds.map declarationLine ++ ls).map String.toList)) :
    declarations query = ds := by
  rw [declarations, made,
    declarationsFrom_eq (fun d member => (declarable d member).delimited) others]
  exact foldl_distinct distinct

end RdfXmlMapping.Conformance.Query
