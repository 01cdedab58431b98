import Mathlib.Data.Set.Basic
import RdfXmlMapping.Proofs.Query.Matching
import RdfXmlMapping.Query.Basic

/-!
What a query finds in a graph: joins, left joins and unions of solutions, the triples that the
template builds from a solution, and the rows that the projection lists. `solution_matches` leads
from a solution to the way of matching behind it.
-/

namespace RdfXmlMapping.Query

variable {Node : Type}

structure Statement (Node : Type) where
  subject : Node
  predicate : Node
  object : Node

abbrev Graph (Node : Type) := Set (Statement Node)

/-- A solution gives nodes to some variables. -/
abbrev Solution (Node : Type) := Nat → Option Node

namespace Solution

def empty : Solution Node := fun _ => none

/-- Two solutions agree on the variables that they share. -/
def Compatible (μ ν : Solution Node) : Prop := ∀ n x y, μ n = some x → ν n = some y → x = y

def merge (μ ν : Solution Node) : Solution Node := fun n => (μ n).or (ν n)

def Extends (ρ μ : Solution Node) : Prop := ∀ n x, μ n = some x → ρ n = some x

theorem merge_extends_left (μ ν : Solution Node) : (merge μ ν).Extends μ := by
  intro n x given
  simp [merge, given]

theorem merge_extends_right {μ ν : Solution Node} (h : Compatible μ ν) :
    (merge μ ν).Extends ν := by
  intro n x given
  cases known : μ n with
  | none => simp [merge, known, given]
  | some y => simp [merge, known, h n y x known given]

theorem merge_ne_none {μ ν : Solution Node} {n : Nat} :
    merge μ ν n ≠ none ↔ μ n ≠ none ∨ ν n ≠ none := by
  cases known : μ n <;> simp [merge, known]

end Solution

open Solution

/-- The node that a term stands for. `read` gives the nodes of written IRIs. -/
def Term.value (read : String → Node) (μ : Solution Node) : Term → Option Node
  | var n => μ n
  | iri text | type text => some (read text)

/-- The statement that a triple stands for, if all its variables are known. -/
def Triple.value (read : String → Node) (μ : Solution Node) (t : Triple) :
    Option (Statement Node) := do
  return ⟨← t.subject.value read μ, ← t.predicate.value read μ, ← t.object.value read μ⟩

/-! ### Conditions -/

def join (A B : Set (Solution Node)) : Set (Solution Node) :=
  { ρ | ∃ μ ∈ A, ∃ ν ∈ B, Compatible μ ν ∧ ρ = merge μ ν }

/-- The same, with the solutions of the first set that agree with none of the second. -/
def leftJoin (A B : Set (Solution Node)) : Set (Solution Node) :=
  join A B ∪ { μ | μ ∈ A ∧ ∀ ν ∈ B, ¬Compatible μ ν }

/-- The solutions of a triple: its variables and no others, so that the graph has the statement. -/
def Triple.solutions (read : String → Node) (G : Graph Node) (t : Triple) : Set (Solution Node) :=
  { μ | (∀ n, μ n ≠ none ↔ n ∈ t.vars) ∧ ∃ x ∈ G, t.value read μ = some x }

section

variable (read : String → Node) (G : Graph Node)

mutual

/-- The solutions of a group after those that the conditions before it have. -/
def groupSolutions (A : Set (Solution Node)) : List Pattern → Set (Solution Node)
  | [] => A
  | p :: ps => groupSolutions (patternSolutions A p) ps

def patternSolutions (A : Set (Solution Node)) : Pattern → Set (Solution Node)
  | .triple t => join A (t.solutions read G)
  | .optional group => leftJoin A (groupSolutions {empty} group)
  | .union [] => A
  | .union (b :: bs) => join A (groupSolutions {empty} b ∪ branchSolutions bs)

def branchSolutions : List (List Pattern) → Set (Solution Node)
  | [] => ∅
  | b :: bs => groupSolutions {empty} b ∪ branchSolutions bs

end

end

def found (read : String → Node) (G : Graph Node) (q : Query) : Set (Solution Node) :=
  groupSolutions read G {empty} q.pattern

def built (read : String → Node) (μ : Solution Node) (q : Query) : Set (Statement Node) :=
  { x | ∃ t ∈ q.template, t.value read μ = some x }

theorem value_iff {read : String → Node} {μ : Solution Node} {t : Triple} {x : Statement Node} :
    t.value read μ = some x ↔ t.subject.value read μ = some x.subject ∧
      t.predicate.value read μ = some x.predicate ∧ t.object.value read μ = some x.object := by
  simp only [Triple.value, Option.bind_eq_bind, Option.bind_eq_some_iff, Option.pure_def]
  constructor
  · rintro ⟨_, subject, _, predicate, _, object, same⟩
    obtain rfl := Option.some.inj same
    exact ⟨subject, predicate, object⟩
  · rintro ⟨subject, predicate, object⟩
    exact ⟨_, subject, _, predicate, _, object, rfl⟩

theorem value_extends {read : String → Node} {μ ρ : Solution Node} (h : ρ.Extends μ) {t : Triple}
    {x : Statement Node} (known : t.value read μ = some x) : t.value read ρ = some x := by
  have term : ∀ (u : Term) (y : Node), u.value read μ = some y → u.value read ρ = some y := by
    intro u y given
    cases u with
    | var n => exact h n y given
    | iri text => exact given
    | type text => exact given
  obtain ⟨subject, predicate, object⟩ := value_iff.mp known
  exact value_iff.mpr ⟨term _ _ subject, term _ _ predicate, term _ _ object⟩

/-- A solution comes from an earlier one by matching triples, all of which the graph has. -/
structure Explains (read : String → Node) (G : Graph Node) (μ ρ : Solution Node)
    (ts : List Triple) : Prop where
  more : ρ.Extends μ
  vars : ∀ n, ρ n ≠ none ↔ μ n ≠ none ∨ Mentions ts n
  holds : ∀ t ∈ ts, ∃ x ∈ G, t.value read ρ = some x

namespace Explains

variable {read : String → Node} {G : Graph Node} {μ ν ρ : Solution Node} {us ts : List Triple}

theorem refl : Explains read G μ μ [] where
  more := fun _ _ given => given
  vars := by simp [Mentions]
  holds := nofun

theorem trans (first : Explains read G μ ν us) (second : Explains read G ν ρ ts) :
    Explains read G μ ρ (us ++ ts) where
  more := fun n x given => second.more n x (first.more n x given)
  vars := by
    intro n
    rw [second.vars, first.vars, mentions_append, or_assoc]
  holds := by
    intro t member
    rcases List.mem_append.mp member with member | member
    · obtain ⟨x, present, known⟩ := first.holds t member
      exact ⟨x, present, value_extends second.more known⟩
    · exact second.holds t member

theorem merge (agree : μ.Compatible ν) (h : Explains read G empty ν ts) :
    Explains read G μ (μ.merge ν) ts where
  more := merge_extends_left μ ν
  vars := by
    intro n
    rw [merge_ne_none, h.vars]
    simp [empty]
  holds := by
    intro t member
    obtain ⟨x, present, known⟩ := h.holds t member
    exact ⟨x, present, value_extends (merge_extends_right agree) known⟩

theorem triple {t : Triple} (h : ν ∈ t.solutions read G) : Explains read G empty ν [t] where
  more := nofun
  vars := by
    intro n
    simpa [empty, Mentions] using h.1 n
  holds := by
    intro u member
    obtain rfl := List.mem_singleton.mp member
    exact h.2

end Explains

section

variable {read : String → Node} {G : Graph Node}

mutual

theorem group_matches (A : Set (Solution Node)) {ρ : Solution Node} : ∀ ps : List Pattern,
    ρ ∈ groupSolutions read G A ps → ∃ μ ∈ A, ∃ ts, Matches ps ts ∧ Explains read G μ ρ ts
  | [], h => ⟨ρ, h, [], .nil, .refl⟩
  | p :: ps, h => by
    obtain ⟨ν, found, vs, rest, explained'⟩ := group_matches (patternSolutions read G A p) ps h
    obtain ⟨μ, start, us, first, explained⟩ := pattern_matches A p found
    exact ⟨μ, start, us ++ vs, first vs rest, explained.trans explained'⟩

/-- What follows the condition in its group may be matched in any way. -/
theorem pattern_matches (A : Set (Solution Node)) {ρ : Solution Node} : ∀ p : Pattern,
    ρ ∈ patternSolutions read G A p → ∃ μ ∈ A, ∃ us,
      (∀ {ps} ts, Matches ps ts → Matches (p :: ps) (us ++ ts)) ∧ Explains read G μ ρ us
  | .triple t, ⟨μ, start, ν, found, agree, same⟩ =>
    ⟨μ, start, [t], fun _ => .triple, same ▸ .merge agree (.triple found)⟩
  | .optional group, .inl ⟨μ, start, ν, found, agree, same⟩ => by
    obtain ⟨_, none, us, way, explained⟩ := group_matches {empty} group found
    obtain rfl := none
    exact ⟨μ, start, us, fun _ => .taken way, same ▸ .merge agree explained⟩
  | .optional _, .inr ⟨start, _⟩ => ⟨ρ, start, [], fun _ => .passed, .refl⟩
  | .union [], h => ⟨ρ, h, [], fun _ => .noBranch, .refl⟩
  | .union (b :: bs), ⟨μ, start, ν, found, agree, same⟩ => by
    have ⟨c, chosen, us, way, explained⟩ :
        ∃ c ∈ b :: bs, ∃ us, Matches c us ∧ Explains read G empty ν us := by
      rcases found with found | found
      · obtain ⟨_, none, us, way, explained⟩ := group_matches {empty} b found
        obtain rfl := none
        exact ⟨b, List.mem_cons_self, us, way, explained⟩
      · obtain ⟨c, chosen, rest⟩ := branch_matches bs found
        exact ⟨c, List.mem_cons_of_mem _ chosen, rest⟩
    exact ⟨μ, start, us, fun _ => .branch chosen way, same ▸ .merge agree explained⟩

theorem branch_matches {ν : Solution Node} : ∀ bs : List (List Pattern),
    ν ∈ branchSolutions read G bs →
      ∃ b ∈ bs, ∃ us, Matches b us ∧ Explains read G empty ν us
  | b :: bs, .inl found => by
    obtain ⟨_, none, us, way, explained⟩ := group_matches {empty} b found
    obtain rfl := none
    exact ⟨b, List.mem_cons_self, us, way, explained⟩
  | b :: bs, .inr found => by
    obtain ⟨c, chosen, rest⟩ := branch_matches bs found
    exact ⟨c, List.mem_cons_of_mem _ chosen, rest⟩

end

/-- Behind each solution stands a way of matching: its variables are those of the solution, and the
graph has all its triples. -/
theorem solution_matches {q : Query} {ρ : Solution Node} (h : ρ ∈ found read G q) :
    ∃ ts, Matches q.pattern ts ∧ (∀ n, ρ n ≠ none ↔ Mentions ts n) ∧
      ∀ t ∈ ts, ∃ x ∈ G, t.value read ρ = some x := by
  obtain ⟨_, none, ts, way, explained⟩ := group_matches {empty} q.pattern h
  obtain rfl := none
  exact ⟨ts, way, fun n => by rw [explained.vars]; simp [empty], explained.holds⟩

end

/-! ### Rows -/

def RowValue.at (row : Nat) : RowValue → Term
  | term t => t
  | atRow k t otherwise => if row = k then t else otherwise.at row

/-- A row as it is kept: subject and object are bound, and the predicate if it is known. -/
structure Row (Node : Type) where
  subject : Node
  predicate : Option Node
  object : Node

/-- The rows that the projection lists for a solution; those without subject or object are left
out. -/
def listed (read : String → Node) (μ : Solution Node) (q : Query) : Set (Row Node) :=
  { x | ∃ p, Projection.ofTemplate? q.template = some p ∧ ∃ row < p.rows,
    (p.subject.at row).value read μ = some x.subject ∧
    (p.predicate.at row).value read μ = x.predicate ∧
    (p.object.at row).value read μ = some x.object }

theorem ofTerms_at (first : Nat) (t : Term) (ts : List Term) (k : Nat) (lt : k < ts.length + 1) :
    (RowValue.ofTerms first t ts).at (first + k) = (t :: ts)[k] := by
  induction ts generalizing first t k with
  | nil =>
    obtain rfl : k = 0 := by simpa using lt
    rfl
  | cons t' ts ih =>
    rw [RowValue.ofTerms, RowValue.at]
    cases k with
    | zero => rw [if_pos (by omega)]; rfl
    | succ k =>
      rw [if_neg (by omega), show first + (k + 1) = first + 1 + k by omega,
        ih (first + 1) t' k (by simpa using lt)]
      rfl

theorem listed_iff {read : String → Node} {μ : Solution Node} {q : Query} {x : Row Node} :
    x ∈ listed read μ q ↔ ∃ t ∈ q.template, t.subject.value read μ = some x.subject ∧
      t.predicate.value read μ = x.predicate ∧ t.object.value read μ = some x.object := by
  unfold listed
  cases q.template with
  | nil => simp [Projection.ofTemplate?]
  | cons t ts =>
    have column (f : Triple → Term) (k : Nat) (lt : k < (t :: ts).length) :
        (RowValue.ofTerms 0 (f t) (ts.map f)).at k = f (t :: ts)[k] := by
      have row := ofTerms_at 0 (f t) (ts.map f) k (by simpa using lt)
      rw [Nat.zero_add] at row
      rw [row, ← List.getElem_map (f := f) (h := by simpa using lt)]
      rfl
    constructor
    · rintro ⟨p, made, k, lt, subject, predicate, object⟩
      obtain rfl := Option.some.inj made
      refine ⟨(t :: ts)[k], List.getElem_mem lt, ?_, ?_, ?_⟩
      · rwa [← column (·.subject) k lt]
      · rwa [← column (·.predicate) k lt]
      · rwa [← column (·.object) k lt]
    · rintro ⟨u, member, subject, predicate, object⟩
      obtain ⟨k, lt, rfl⟩ := List.getElem_of_mem member
      refine ⟨_, rfl, k, lt, ?_, ?_, ?_⟩
      · rwa [column (·.subject) k lt]
      · rwa [column (·.predicate) k lt]
      · rwa [column (·.object) k lt]

end RdfXmlMapping.Query
