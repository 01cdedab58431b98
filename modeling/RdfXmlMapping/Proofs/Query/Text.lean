import RdfXmlMapping.Proofs.Query.Names
import RdfXmlMapping.Proofs.Text.Lines
import RdfXmlMapping.Query.Text

/-!
The text of a query. Its lines are brackets and triples at their depths (`mem_groupLines`), and
which characters they hold follows from the words of which they are made.
-/

namespace RdfXmlMapping.Query

variable {forbidden : List Char} {text text' : String} {depth : Nat} {ts ts' : List Triple}

/-! ### Characters of texts -/

/-- None of the characters occurs in the text. -/
def Free (forbidden : List Char) (text : String) : Prop := ∀ c ∈ text.toList, c ∉ forbidden

instance : Decidable (Free forbidden text) := List.decidableBAll _ _

/-- A text of letters of the Latin alphabet, digits and underscores. -/
def IsWord (text : String) : Prop := ∀ c ∈ text.toList, c.isAlphanum ∨ c = '_'

instance : Decidable (IsWord text) := List.decidableBAll _ _

theorem free_append :
    Free forbidden (text ++ text') ↔ Free forbidden text ∧ Free forbidden text' := by
  rw [Free, String.toList_append, List.forall_mem_append]
  rfl

theorem Free.append (h : Free forbidden text) (h' : Free forbidden text') :
    Free forbidden (text ++ text') := free_append.mpr ⟨h, h'⟩

theorem Free.notMem (h : Free forbidden text) {c : Char} (member : c ∈ forbidden) :
    c ∉ text.toList := fun inside => h c inside member

theorem Free.mono (h : Free forbidden text) {fewer : List Char} (subset : fewer ⊆ forbidden) :
    Free fewer text := fun c inside member => h c inside (subset member)

theorem free_of_all {P : Char → Prop} [DecidablePred P] (all : ∀ c ∈ text.toList, P c)
    (other : forbidden.all fun c => !decide (P c)) : Free forbidden text := by
  intro c inside member
  have apart := List.all_eq_true.mp other c member
  rw [decide_eq_true (all c inside)] at apart
  cases apart

theorem isWord_toString (n : Nat) : IsWord (toString n) := by
  intro c inside
  exact .inl (Bool.or_eq_true _ _ ▸ .inr (toString_digits n c inside))

theorem IsWord.append (h : IsWord text) (h' : IsWord text') : IsWord (text ++ text') := by
  rw [IsWord, String.toList_append, List.forall_mem_append]
  exact ⟨h, h'⟩

theorem free_toString (digits : forbidden.all fun c => !decide (c.isDigit = true)) (n : Nat) :
    Free forbidden (toString n) := free_of_all (toString_digits n) digits

theorem free_indent (blank : ' ' ∉ forbidden) : Free forbidden (line depth "") := by
  intro c inside member
  rw [line, String.append_empty, String.toList_ofList] at inside
  exact blank (List.eq_of_mem_replicate inside ▸ member)

theorem free_intercalate (blank : ' ' ∉ forbidden) {words : List String}
    (free : ∀ w ∈ words, Free forbidden w) : Free forbidden (" ".intercalate words) := by
  unfold Free
  rw [String.toList_intercalate]
  induction words with
  | nil => exact fun c inside => by cases inside
  | cons w words ih =>
    obtain ⟨first, others⟩ := List.forall_mem_cons.mp free
    cases words with
    | nil =>
      rw [List.map_singleton, List.intercalate_singleton]
      exact first
    | cons w' words =>
      rw [List.map_cons, List.map_cons, List.intercalate_cons_cons, List.forall_mem_append,
        List.forall_mem_append]
      refine ⟨⟨first, fun c inside => ?_⟩, ih others⟩
      obtain rfl := List.mem_singleton.mp inside
      exact blank

/-! ### Lines -/

theorem line_append (depth : Nat) (s s' : String) : line depth (s ++ s') = line depth s ++ s' :=
  String.append_assoc.symm

theorem line_head? (deep : 0 < depth) (s : String) : (line depth s).toList.head? = some ' ' := by
  rw [line, String.toList_append, String.toList_ofList, List.head?_append, List.head?_replicate,
    if_neg (by omega)]
  rfl

theorem render_toList (q : RdfXmlMapping.Query) (form : QueryForm) (b : Bindings) :
    (q.render form b).toList =
      Text.unlines ((headLines q ++ bodyLines q b form).map String.toList) := by
  rw [render, String.toList_join, Text.unlines, List.flatMap_map, List.flatMap_map]
  exact List.flatMap_congr fun l _ => String.toList_append

/-- The lines between the triples of conditions. -/
def brackets : List String := ["OPTIONAL \x7b", "\x7b", "\x7d", "UNION"]

/-- A line of conditions with the triples `ts`, no less indented than the conditions. -/
inductive LineOf (depth : Nat) (ts : List Triple) : String → Prop
  | bracket {d : Nat} {s : String} : depth ≤ d → s ∈ brackets → LineOf depth ts (line d s)
  | triple {d : Nat} {t : Triple} : depth ≤ d → t ∈ ts → LineOf depth ts (line d t.text)

theorem LineOf.mono {d : Nat} {l : String} (h : LineOf d ts l) (deeper : depth ≤ d)
    (more : ts ⊆ ts') : LineOf depth ts' l := by
  cases h with
  | bracket deep member => exact .bracket (by omega) member
  | triple deep member => exact .triple (by omega) (more member)

theorem LineOf.head? {l : String} (h : LineOf (depth + 1) ts l) : l.toList.head? = some ' ' := by
  cases h with
  | bracket deep _ => exact line_head? (by omega) _
  | triple deep _ => exact line_head? (by omega) _

mutual

theorem Pattern.mem_lines (p : Pattern) (depth : Nat) :
    ∀ l ∈ p.lines depth, LineOf depth p.triples l := by
  intro l member
  match p with
  | .triple t =>
    obtain rfl := List.mem_singleton.mp member
    exact .triple (Nat.le_refl _) List.mem_cons_self
  | .optional group =>
    rcases List.mem_append.mp member with inside | last
    · rcases List.mem_cons.mp inside with rfl | inside
      · exact .bracket (Nat.le_refl _) (by simp [brackets])
      · exact (mem_groupLines group _ l inside).mono (by omega) (List.Subset.refl _)
    · obtain rfl := List.mem_singleton.mp last
      exact .bracket (Nat.le_refl _) (by simp [brackets])
  | .union [] => cases member
  | .union (b :: bs) =>
    rcases List.mem_append.mp member with inside | later
    · rcases List.mem_cons.mp inside with rfl | inside
      · exact .bracket (Nat.le_refl _) (by simp [brackets])
      · exact (mem_groupLines b _ l inside).mono (by omega) (List.subset_append_left _ _)
    · rcases List.mem_cons.mp later with rfl | later
      · exact .bracket (Nat.le_refl _) (by simp [brackets])
      · exact (mem_branchLines bs _ l later).mono (Nat.le_refl _) (List.subset_append_right _ _)

theorem mem_groupLines (ps : List Pattern) (depth : Nat) :
    ∀ l ∈ groupLines depth ps, LineOf depth (groupTriples ps) l := by
  intro l member
  match ps with
  | [] => cases member
  | p :: ps =>
    rcases List.mem_append.mp member with here | later
    · exact (p.mem_lines depth l here).mono (Nat.le_refl _) (List.subset_append_left _ _)
    · exact (mem_groupLines ps depth l later).mono (Nat.le_refl _) (List.subset_append_right _ _)

theorem mem_branchLines (bs : List (List Pattern)) (depth : Nat) :
    ∀ l ∈ branchLines depth bs, LineOf depth (branchTriples bs) l := by
  intro l member
  match bs with
  | [] => cases member
  | b :: bs =>
    rcases List.mem_append.mp member with inside | later
    · rcases List.mem_cons.mp inside with rfl | inside
      · exact .bracket (Nat.le_refl _) (by simp [brackets])
      rcases List.mem_cons.mp inside with rfl | inside
      · exact .bracket (Nat.le_refl _) (by simp [brackets])
      · exact (mem_groupLines b _ l inside).mono (by omega) (List.subset_append_left _ _)
    · rcases List.mem_cons.mp later with rfl | later
      · exact .bracket (Nat.le_refl _) (by simp [brackets])
      · exact (mem_branchLines bs _ l later).mono (Nat.le_refl _) (List.subset_append_right _ _)

end

section

variable {α : Type} {f : String → Option α} {g : Triple → α}

mutual

theorem Pattern.filterMap_lines (p : Pattern) (depth : Nat)
    (bracket : ∀ s ∈ brackets, ∀ d, f (line d s) = none)
    (triple : ∀ t ∈ p.triples, ∀ d, f (line d t.text) = some (g t)) :
    (p.lines depth).filterMap f = p.triples.map g := by
  match p with
  | .triple t =>
    have here := triple t List.mem_cons_self depth
    simp only [Pattern.lines, Pattern.triples, List.filterMap_cons, here, List.filterMap_nil,
      List.map_cons, List.map_nil]
  | .optional group =>
    have start := bracket "OPTIONAL \x7b" (by decide) depth
    have last := bracket "\x7d" (by decide) depth
    have inside := filterMap_groupLines group (depth + 1) bracket triple
    simp only [Pattern.lines, Pattern.triples, List.cons_append, List.filterMap_cons,
      List.filterMap_append, start, inside, last, List.filterMap_nil, List.append_nil]
  | .union [] => rfl
  | .union (b :: bs) =>
    rw [Pattern.triples, branchTriples, List.forall_mem_append] at triple
    have start := bracket "\x7b" (by decide) depth
    have last := bracket "\x7d" (by decide) depth
    have inside := filterMap_groupLines b (depth + 1) bracket triple.1
    have others := filterMap_branchLines bs depth bracket triple.2
    simp only [Pattern.lines, Pattern.triples, branchTriples, List.cons_append,
      List.filterMap_cons, List.filterMap_append, start, inside, last, others, List.map_append]

/-- A line-by-line reading that finds nothing in brackets finds the triples in their order. -/
theorem filterMap_groupLines (ps : List Pattern) (depth : Nat)
    (bracket : ∀ s ∈ brackets, ∀ d, f (line d s) = none)
    (triple : ∀ t ∈ groupTriples ps, ∀ d, f (line d t.text) = some (g t)) :
    (groupLines depth ps).filterMap f = (groupTriples ps).map g := by
  match ps with
  | [] => rfl
  | p :: ps =>
    rw [groupTriples, List.forall_mem_append] at triple
    rw [groupLines, groupTriples, List.filterMap_append, List.map_append,
      p.filterMap_lines depth bracket triple.1, filterMap_groupLines ps depth bracket triple.2]

theorem filterMap_branchLines (bs : List (List Pattern)) (depth : Nat)
    (bracket : ∀ s ∈ brackets, ∀ d, f (line d s) = none)
    (triple : ∀ t ∈ branchTriples bs, ∀ d, f (line d t.text) = some (g t)) :
    (branchLines depth bs).filterMap f = (branchTriples bs).map g := by
  match bs with
  | [] => rfl
  | b :: bs =>
    rw [branchTriples, List.forall_mem_append] at triple
    have word := bracket "UNION" (by decide) depth
    have start := bracket "\x7b" (by decide) depth
    have last := bracket "\x7d" (by decide) depth
    have inside := filterMap_groupLines b (depth + 1) bracket triple.1
    have others := filterMap_branchLines bs depth bracket triple.2
    simp only [branchLines, branchTriples, List.cons_append, List.filterMap_cons,
      List.filterMap_append, word, start, inside, last, others, List.map_append]

end

end

end RdfXmlMapping.Query
