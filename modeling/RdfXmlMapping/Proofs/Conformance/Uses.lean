import RdfXmlMapping.Proofs.Conformance.Words
import RdfXmlMapping.Proofs.Text.Lines

/-!
The prefixes that are found in a query. Its lines are made of names, IRIs in full and other words;
every prefix that is found in such lines is the prefix of one of the names (`uses_subset`).
-/

namespace RdfXmlMapping.Conformance.Query

open RdfXmlMapping.Query (Free IsWord)
open Text (Unbroken unlines)

variable {names : List String} {a b e l rest x y : List Char} {text word : String}

/-! ### Sentences -/

/-- A name with one of the prefixes, or an IRI in full. -/
inductive Token (names : List String) : String → Prop
  | short {name last : String} : name ∈ names → Plain last → ':' ∉ last.toList →
      Token names (name ++ ":" ++ last)
  | full {iri : String} : Plain iri → Token names ("<" ++ iri ++ ">")

/-- What is neither in a name nor in an IRI, and does not end a line. -/
abbrev Bare : String → Prop := Free ['<', ':', '\n', '\r', '\x7b']

/-- The text is empty, or a name may follow it. -/
def Open (l : List Char) : Prop := ∀ c ∈ l.getLast?, separates c

/-- A line of names and IRIs with other words before, between and after them. -/
inductive Sentence (names : List String) : String → Prop
  | empty : Sentence names ""
  | bare {l w : String} : Sentence names l → Bare w → Sentence names (l ++ w)
  | token {l t : String} : Sentence names l → Open l.toList → Token names t →
      Sentence names (l ++ t)

/-! ### Emptied IRIs -/

theorem emptyIris_skip (l rest : List Char) :
    emptyIris l.length (l ++ rest) = emptyIris 0 rest := by
  induction l with
  | nil => rfl
  | cons c cs ih => exact ih

theorem emptyIris_free (free : '<' ∉ l) (rest : List Char) :
    emptyIris 0 (l ++ rest) = l ++ emptyIris 0 rest := by
  induction l with
  | nil => rfl
  | cons c cs ih =>
    rw [List.cons_append, emptyIris, if_neg (Ne.symm (List.ne_of_not_mem_cons free)),
      ih (List.not_mem_of_not_mem_cons free), List.cons_append]

theorem emptyIris_full {iri : String} (plain : Plain iri) (rest : List Char) :
    emptyIris 0 ('<' :: (iri.toList ++ '>' :: rest)) = '<' :: '>' :: emptyIris 0 rest := by
  have inside : ∀ c ∈ iri.toList, (c ≠ '<' && c ≠ '>' && !Unicode.isBlank c) = true := by
    intro c member
    obtain ⟨opens, closes, blank⟩ := plain c member
    simp [opens, closes, blank]
  have cut : (iri.toList ++ '>' :: rest).span (fun c => c ≠ '<' && c ≠ '>' && !Unicode.isBlank c) =
      (iri.toList, '>' :: rest) := Text.span_append inside (by simp)
  rw [emptyIris, if_pos rfl, cut]
  have passed := emptyIris_skip (iri.toList ++ ['>']) rest
  rw [List.length_append, List.append_assoc] at passed
  exact congrArg ('<' :: '>' :: ·) passed

/-! ### Colons -/

/-- Every colon of the text follows one of the names, and a name may stand there. -/
def Colons (names : List String) (l : List Char) : Prop := ∀ a b, l = a ++ ':' :: b →
  ∃ before, ∃ name ∈ names, a = before ++ name.toList ∧ Open before

theorem colons_nil : Colons names [] := by
  intro a b same
  simp at same

/-- A character of two texts together stands in the second or in the first. -/
theorem append_eq_append_cons {c : Char} (same : e ++ l = a ++ c :: b) :
    (∃ m, a = e ++ m ∧ l = m ++ c :: b) ∨ ∃ m, e = a ++ c :: m ∧ b = m ++ l := by
  rcases List.append_eq_append_iff.mp same with ⟨m, whole, ends⟩ | ⟨m, whole, starts⟩
  · exact .inl ⟨m, whole, ends⟩
  · cases m with
    | nil => exact .inl ⟨[], by simp [whole], starts.symm⟩
    | cons d m =>
      obtain ⟨rfl, rest⟩ := List.cons.inj starts
      exact .inr ⟨m, whole, rest⟩

theorem Colons.append (h : Colons names e) (free : ':' ∉ l) : Colons names (e ++ l) := by
  intro a b same
  rcases append_eq_append_cons same with ⟨m, -, ends⟩ | ⟨m, whole, -⟩
  · exact absurd (by rw [ends]; simp) free
  · exact h a m whole

theorem Colons.name (h : Colons names e) (ready : Open e) {name : String} (member : name ∈ names)
    (word : ':' ∉ name.toList) : Colons names (e ++ name.toList ++ [':']) := by
  intro a b same
  rcases List.eq_nil_or_concat b with rfl | ⟨b, c, rfl⟩
  · exact ⟨e, name, member, ((List.append_left_inj _).mp same).symm, ready⟩
  · rw [List.concat_eq_append, ← List.cons_append, ← List.append_assoc] at same
    obtain ⟨same, -⟩ := List.append_inj' same rfl
    exact h.append word a b same

/-! ### Uses -/

theorem separates_isWord (h : IsWord word) : ∀ c ∈ word.toList, separates c = false := by
  intro c member
  have part := isWord_wordChar h c member
  rw [Bool.eq_false_iff]
  intro separator
  rw [(separates_word separator).1] at part
  cases part

/-- A piece without separators after an open text is the whole rest after its last separator. -/
theorem open_append_eq_nil (ready : Open (a ++ x)) (free : ∀ c ∈ x, separates c = false) :
    x = [] := by
  rcases List.eq_nil_or_concat x with rfl | ⟨y, c, rfl⟩
  · rfl
  · have separator : separates c := ready c (by simp)
    rw [free c (by simp)] at separator
    cases separator

theorem append_inj_of_open (same : a ++ x = b ++ y) (first : Open a) (second : Open b)
    (free : ∀ c ∈ x, separates c = false) (free' : ∀ c ∈ y, separates c = false) : x = y := by
  rcases List.append_eq_append_iff.mp same with ⟨more, rfl, rfl⟩ | ⟨more, rfl, rfl⟩
  · have none := open_append_eq_nil second fun c member => free c (List.mem_append_left _ member)
    rw [none, List.nil_append]
  · have none := open_append_eq_nil first fun c member => free' c (List.mem_append_left _ member)
    rw [none, List.nil_append]

theorem Colons.mem (h : Colons names (a ++ (x ++ ':' :: b))) (words : ∀ n ∈ names, IsWord n)
    (ready : Open a) (free : ∀ c ∈ x, separates c = false) : String.ofList x ∈ names := by
  obtain ⟨before, name, member, same, ready'⟩ := h (a ++ x) b (List.append_assoc ..).symm
  have found := append_inj_of_open same ready ready' free (separates_isWord (words name member))
  rw [found, String.ofList_toList]
  exact member

theorem scanPrefix?_eq {cs : List Char} (h : scanPrefix? cs = some (x, rest)) :
    cs = x ++ ':' :: rest ∧ ∀ c ∈ x, (Unicode.isWordChar c || c = '-') = true := by
  unfold scanPrefix? at h
  generalize taken : (if cs.head?.any isLetter then
      cs.takeWhile fun c => Unicode.isWordChar c || c = '-' else []) = name at h
  have start : name <+: cs ∧ ∀ c ∈ name, (Unicode.isWordChar c || c = '-') = true := by
    subst taken
    split
    · exact ⟨List.takeWhile_prefix _, List.all_eq_true.mp List.all_takeWhile⟩
    · exact ⟨List.nil_prefix, fun c member => by cases member⟩
  obtain ⟨⟨tail, rfl⟩, words⟩ := start
  dsimp only at h
  rw [List.drop_left] at h
  split at h
  next =>
    obtain ⟨rfl, rfl⟩ := Prod.mk.inj (Option.some.inj h)
    exact ⟨rfl, words⟩
  next => cases h

theorem scanUse?_eq {cs : List Char} {name : String} (h : scanUse? cs = some (name, rest)) :
    ∃ x b, cs = x ++ ':' :: b ∧ name = .ofList x ∧ ∀ c ∈ x, separates c = false := by
  unfold scanUse? at h
  split at h
  next x c b found =>
    obtain ⟨whole, words⟩ := scanPrefix?_eq found
    split at h
    next =>
      obtain ⟨rfl, rfl⟩ := Prod.mk.inj (Option.some.inj h)
      refine ⟨x, _, whole, rfl, fun d member => ?_⟩
      rw [Bool.eq_false_iff]
      intro separator
      have part := words d member
      rw [(separates_word separator).1, decide_eq_false (separates_word separator).2] at part
      cases part
    next => cases h
  next => cases h

theorem usesFrom_subset (words : ∀ n ∈ names, IsWord n) {skip : Nat} {atStart : Bool}
    (colons : Colons names (a ++ l)) (start : atStart → a = []) :
    usesFrom skip atStart l ⊆ names := by
  induction l generalizing a skip atStart with
  | nil =>
    intro name member
    cases skip <;> cases member
  | cons c cs ih =>
    have colons' : Colons names ((a ++ [c]) ++ cs) := by
      rw [List.append_assoc]
      exact colons
    cases skip with
    | succ skip => exact ih colons' (fun h => by cases h)
    | zero =>
      rw [usesFrom]
      split
      next name rest found =>
        refine List.cons_subset.mpr ⟨?_, ih colons' (fun h => by cases h)⟩
        rcases Option.or_eq_some_iff.mp found with here | ⟨-, after⟩
        · split at here
          next h =>
            obtain ⟨x, b, whole, rfl, free⟩ := scanUse?_eq here
            rw [whole, start h] at colons
            exact colons.mem words (by simp [Open]) free
          next => cases here
        · split at after
          next h =>
            obtain ⟨x, b, whole, rfl, free⟩ := scanUse?_eq after
            rw [whole] at colons'
            exact colons'.mem words (by simpa [Open] using h) free
          next => cases after
      next => exact ih colons' (fun h => by cases h)

/-! ### Lines -/

/-- A line, and what it is with its IRIs emptied. -/
structure Emptied (names : List String) (l e : List Char) : Prop where
  read : ∀ rest, emptyIris 0 (l ++ rest) = e ++ emptyIris 0 rest
  unbroken : Unbroken e
  colons : Colons names e

/-- Only the names of a line have prefixes, which are among `names`. -/
def Legible (names : List String) (l : String) : Prop := ∃ e, Emptied names l.toList e

theorem legible_free {l : String} (free : Free ['<', ':', '\n', '\r'] l) : Legible names l :=
  ⟨l.toList, {
    read := emptyIris_free (free.notMem (by simp))
    unbroken := ⟨free.notMem (by simp), free.notMem (by simp)⟩
    colons := colons_nil.append (free.notMem (by simp)) }⟩

theorem unbroken_append (h : Unbroken e) (h' : Unbroken l) : Unbroken (e ++ l) := by
  simpa [Unbroken, or_imp, and_and_and_comm] using And.intro h h'

theorem emptied_sentence (words : ∀ n ∈ names, IsWord n) {l : String} (h : Sentence names l) :
    ∃ e, Emptied names l.toList e ∧ e.getLast? = l.toList.getLast? := by
  induction h with
  | empty => exact ⟨[], ⟨fun _ => rfl, by simp [Unbroken], colons_nil⟩, rfl⟩
  | @bare l w _ free ih =>
    obtain ⟨e, ⟨read, unbroken, colons⟩, last⟩ := ih
    refine ⟨e ++ w.toList, ⟨fun rest => ?_, ?_, colons.append (free.notMem (by simp))⟩, ?_⟩
    · rw [String.toList_append, List.append_assoc, read, emptyIris_free (free.notMem (by simp)),
        List.append_assoc]
    · exact unbroken_append unbroken ⟨free.notMem (by simp), free.notMem (by simp)⟩
    · rw [String.toList_append, List.getLast?_append, List.getLast?_append, last]
  | @token l t _ ready token ih =>
    obtain ⟨e, ⟨read, unbroken, colons⟩, last⟩ := ih
    have ready : Open e := by
      rw [Open, last]
      exact ready
    cases token with
    | @short name localName member plain free =>
      have word := isWord_free (words name member)
      have free' := plain_free plain
      refine ⟨e ++ name.toList ++ [':'] ++ localName.toList, ⟨fun rest => ?_, ?_, ?_⟩, ?_⟩
      · have whole : '<' ∉ name.toList ++ [':'] ++ localName.toList := by
          simp [word.notMem, free'.notMem]
        have here := emptyIris_free whole rest
        simp only [String.toList_append, List.append_assoc, read] at here ⊢
        exact congrArg (e ++ ·) here
      · refine unbroken_append
          (unbroken_append (unbroken_append unbroken ?_) (by simp [Unbroken])) ?_
        · exact ⟨word.notMem (by simp), word.notMem (by simp)⟩
        · exact ⟨free'.notMem (by simp), free'.notMem (by simp)⟩
      · exact (colons.name ready member (word.notMem (by simp))).append free
      · simp [List.getLast?_append, last]
    | @full iri plain =>
      refine ⟨e ++ ['<', '>'], ⟨fun rest => ?_, ?_, colons.append (by simp)⟩, ?_⟩
      · have here := emptyIris_full plain rest
        simp only [String.toList_append, List.append_assoc, read]
        exact congrArg (e ++ ·) here
      · exact unbroken_append unbroken (by simp [Unbroken])
      · simp [List.getLast?_append, List.getLast?_cons]

theorem legible_sentence (words : ∀ n ∈ names, IsWord n) {l : String} (h : Sentence names l) :
    Legible names l := by
  obtain ⟨e, emptied, -⟩ := emptied_sentence words h
  exact ⟨e, emptied⟩

theorem emptyIris_unlines {ls : List String} (legible : ∀ l ∈ ls, Legible names l) :
    ∃ es, emptyIris 0 (unlines (ls.map String.toList)) = unlines es ∧
      ∀ e ∈ es, Unbroken e ∧ Colons names e := by
  induction ls with
  | nil => exact ⟨[], rfl, fun e member => by cases member⟩
  | cons l ls ih =>
    obtain ⟨⟨e, first⟩, others⟩ := List.forall_mem_cons.mp legible
    obtain ⟨es, same, all⟩ := ih others
    refine ⟨e :: es, ?_, List.forall_mem_cons.mpr ⟨⟨first.unbroken, first.colons⟩, all⟩⟩
    have broken := emptyIris_free (l := ['\n']) (by decide) (unlines (ls.map String.toList))
    rw [List.map_cons, Text.unlines_cons, Text.unlines_cons, first.read, ← same]
    exact congrArg (e ++ ·) broken

/-- Every prefix in legible lines is one of the names. -/
theorem uses_subset (words : ∀ n ∈ names, IsWord n) {ls : List String}
    (legible : ∀ l ∈ ls, Legible names l) {query : String}
    (made : query.toList = unlines (ls.map String.toList)) : uses query ⊆ names := by
  obtain ⟨es, same, all⟩ := emptyIris_unlines legible
  intro name member
  unfold uses at member
  rw [made, same, Text.lines_unlines fun e member => (all e member).1] at member
  obtain ⟨e, inside, found⟩ := List.mem_flatMap.mp member
  exact usesFrom_subset words (a := []) (all e (List.mem_filter.mp inside).1).2 (fun _ => rfl) found

end RdfXmlMapping.Conformance.Query
