import RdfXmlMapping.Proofs.Query.Matching

/-!
The variables of conditions. `Describes` is what the conditions made for one resource keep: they
mention the resource and variables of their own only, and a way of matching that mentions a variable
of a property matches the triple that introduces it.
-/

namespace RdfXmlMapping.Query

variable {outer : List Nat} {isOptional : Bool} {lo mid hi : Nat} {new old : List Triple}
  {ps qs : List Pattern} {branches : List (List Pattern)}

/-- A variable is one of the resources described or one of those from `lo` to `hi - 1`. -/
def InScope (outer : List Nat) (lo hi n : Nat) : Prop := n ∈ outer ∨ (lo ≤ n ∧ n < hi)

/-- The triple cannot be complete in a way of matching that does not match it, as it mentions a
variable that is mentioned only then. -/
def Tied (lo hi : Nat) (ways : List Triple → Prop) (t : Triple) : Prop :=
  ∃ n ∈ t.vars, lo ≤ n ∧ n < hi ∧ ∀ ts, ways ts → Mentions ts n → t ∈ ts

/-- The triple states the class of the resource and is asked for, which is so only where the class
need not be optional. -/
def Stated (outer : List Nat) (isOptional : Bool) (ps : List Pattern) (t : Triple) : Prop :=
  isOptional = false ∧ t.StatesClass ∧ (∃ n ∈ outer, t.subject = .var n) ∧ .triple t ∈ ps

/-- The conditions `ps` and the triples `new` were made together; they describe the resources
`outer` and introduce the variables from `lo` to `hi - 1`. -/
structure Describes (outer : List Nat) (isOptional : Bool) (lo hi : Nat) (new : List Triple)
    (ps : List Pattern) : Prop where
  le : lo ≤ hi
  predicate : ∀ t ∈ new, ∀ n, t.predicate ≠ .var n
  scope : ∀ ts, Matches ps ts → ∀ n, Mentions ts n → InScope outer lo hi n
  kept : ∀ t ∈ new, Stated outer isOptional ps t ∨ (t.StatesClass ∧ Offers t ps) ∨
    Tied lo hi (Matches ps) t

/-- The same of the branches of a union, of which one is matched. -/
structure DescribesEach (outer : List Nat) (isOptional : Bool) (lo hi : Nat) (new : List Triple)
    (branches : List (List Pattern)) : Prop where
  le : lo ≤ hi
  predicate : ∀ t ∈ new, ∀ n, t.predicate ≠ .var n
  scope : ∀ b ∈ branches, ∀ ts, Matches b ts → ∀ n, Mentions ts n → InScope outer lo hi n
  kept : ∀ t ∈ new, (∃ b ∈ branches, Stated outer isOptional b t) ∨
    (∃ b ∈ branches, t.StatesClass ∧ Offers t b) ∨
    Tied lo hi (fun ts => ∃ b ∈ branches, Matches b ts) t

theorem inScope_left {n : Nat} (h : InScope outer lo mid n) (le : mid ≤ hi) :
    InScope outer lo hi n := h.imp_right fun ⟨a, b⟩ => ⟨a, by omega⟩

theorem inScope_right {n : Nat} (h : InScope outer mid hi n) (le : lo ≤ mid) :
    InScope outer lo hi n := h.imp_right fun ⟨a, b⟩ => ⟨by omega, b⟩

theorem not_inScope_of_lt {n : Nat} (below : ∀ v ∈ outer, v < lo) (from_ : lo ≤ n) (lt : n < mid) :
    ¬InScope outer mid hi n := by
  rintro (member | ⟨le, _⟩)
  · have := below n member
    omega
  · omega

theorem not_inScope_of_le {n : Nat} (below : ∀ v ∈ outer, v < lo) (le : lo ≤ mid)
    (from_ : mid ≤ n) : ¬InScope outer lo mid n := by
  rintro (member | ⟨_, lt⟩)
  · have := below n member
    omega
  · omega

/-- A triple stays tied among more variables if its own lead from each of the new ways of matching
to one of the old. -/
theorem Tied.extend {a b : Nat} {ways ways' : List Triple → Prop} {t : Triple}
    (h : Tied a b ways t) (from_ : lo ≤ a) (until_ : b ≤ hi)
    (reduce : ∀ ts, ways' ts → ∀ n, a ≤ n → n < b → Mentions ts n →
      ∃ us, us ⊆ ts ∧ ways us ∧ Mentions us n) : Tied lo hi ways' t := by
  obtain ⟨n, mentioned, le, lt, tied⟩ := h
  refine ⟨n, mentioned, Nat.le_trans from_ le, Nat.lt_of_lt_of_le lt until_, fun ts way said => ?_⟩
  obtain ⟨us, sub, way', said'⟩ := reduce ts way n le lt said
  exact sub (tied us way' said')

theorem not_mentions_nil {n : Nat} : ¬Mentions [] n := by
  rintro ⟨_, member, _⟩
  cases member

namespace Describes

theorem weaken (h : Describes outer true lo hi new ps) : Describes outer isOptional lo hi new ps :=
  { h with kept := fun t member => (h.kept t member).imp_left fun ⟨off, _⟩ => nomatch off }

theorem nothing : Describes outer isOptional lo lo [] [] where
  le := Nat.le_refl _
  predicate := nofun
  scope := by
    intro ts way n mentioned
    cases way
    exact absurd mentioned not_mentions_nil
  kept := nofun

/-- The conditions of a resource one after the other; what the first introduce the others do not
mention. -/
theorem append (below : ∀ v ∈ outer, v < lo) (first : Describes outer isOptional lo mid new ps)
    (second : Describes outer isOptional mid hi old qs) :
    Describes outer isOptional lo hi (new ++ old) (ps ++ qs) where
  le := Nat.le_trans first.le second.le
  predicate := by
    intro t member
    rcases List.mem_append.mp member with member | member
    · exact first.predicate t member
    · exact second.predicate t member
  scope := by
    intro ts way n mentioned
    obtain ⟨us, vs, left, right, rfl⟩ := matches_append way
    rcases mentions_append.mp mentioned with mentioned | mentioned
    · exact inScope_left (first.scope us left n mentioned) second.le
    · exact inScope_right (second.scope vs right n mentioned) first.le
  kept := by
    intro t member
    rcases List.mem_append.mp member with member | member
    · rcases first.kept t member with ⟨off, class_, subject, stands⟩ | ⟨class_, offered⟩ | tied
      · exact .inl ⟨off, class_, subject, List.mem_append_left _ stands⟩
      · exact .inr (.inl ⟨class_, offers_mono offered (List.subset_append_left _ _)⟩)
      · refine .inr (.inr (tied.extend (Nat.le_refl _) second.le fun ts way n from_ lt said => ?_))
        obtain ⟨us, vs, left, right, rfl⟩ := matches_append way
        rcases mentions_append.mp said with said | said
        · exact ⟨us, List.subset_append_left _ _, left, said⟩
        · exact absurd (second.scope vs right n said) (not_inScope_of_lt below from_ lt)
    · rcases second.kept t member with ⟨off, class_, subject, stands⟩ | ⟨class_, offered⟩ | tied
      · exact .inl ⟨off, class_, subject, List.mem_append_right _ stands⟩
      · exact .inr (.inl ⟨class_, offers_mono offered (List.subset_append_right _ _)⟩)
      · refine .inr (.inr (tied.extend first.le (Nat.le_refl _) fun ts way n from_ _ said => ?_))
        obtain ⟨us, vs, left, right, rfl⟩ := matches_append way
        rcases mentions_append.mp said with said | said
        · exact absurd (first.scope us left n said) (not_inScope_of_le below first.le from_)
        · exact ⟨vs, List.subset_append_right _ _, right, said⟩

theorem optional (h : Describes outer true lo hi new ps) :
    Describes outer true lo hi new [.optional ps] where
  le := h.le
  predicate := h.predicate
  scope := by
    intro ts way n mentioned
    rcases matches_optional way with rfl | inner
    · exact absurd mentioned not_mentions_nil
    · exact h.scope ts inner n mentioned
  kept := by
    intro t member
    rcases h.kept t member with ⟨off, _⟩ | ⟨class_, offered⟩ | tied
    · cases off
    · exact .inr (.inl ⟨class_, .inOptional List.mem_cons_self offered⟩)
    · refine .inr (.inr (tied.extend (Nat.le_refl _) (Nat.le_refl _) fun ts way n _ _ said => ?_))
      rcases matches_optional way with rfl | inner
      · exact absurd said not_mentions_nil
      · exact ⟨ts, List.Subset.refl _, inner, said⟩

/-- A resource that has no conditions outside its own: its class is tied to it where it is asked
for. -/
theorem closed {v : Nat} (h : Describes [v] isOptional (v + 1) hi new ps) :
    Describes [] true v hi new ps where
  le := Nat.le_of_succ_le h.le
  predicate := h.predicate
  scope := by
    intro ts way n mentioned
    rcases h.scope ts way n mentioned with member | ⟨from_, lt⟩
    · obtain rfl := List.mem_singleton.mp member
      exact .inr ⟨Nat.le_refl _, h.le⟩
    · exact .inr ⟨by omega, lt⟩
  kept := by
    intro t member
    rcases h.kept t member with ⟨_, _, ⟨n, known, subject⟩, stands⟩ | offered | tied
    · obtain rfl := List.mem_singleton.mp known
      -- A class that is asked for stands in the conditions, so every way matches it.
      refine .inr (.inr ⟨n, ?_, Nat.le_refl _, h.le, fun ts way _ => matches_triple way stands⟩)
      simp [Triple.vars, subject, Term.vars]
    · exact .inr (.inl offered)
    · refine .inr (.inr (tied.extend (Nat.le_succ _) (Nat.le_refl _) fun ts way n _ _ said => ?_))
      exact ⟨ts, List.Subset.refl _, way, said⟩

end Describes

namespace DescribesEach

theorem nothing : DescribesEach outer isOptional lo lo [] [] where
  le := Nat.le_refl _
  predicate := nofun
  scope := nofun
  kept := nofun

/-- One more branch before others; the branches introduce different variables. -/
theorem cons (below : ∀ v ∈ outer, v < lo) (first : Describes outer isOptional lo mid new ps)
    (others : DescribesEach outer isOptional mid hi old branches) :
    DescribesEach outer isOptional lo hi (new ++ old) (ps :: branches) where
  le := Nat.le_trans first.le others.le
  predicate := by
    intro t member
    rcases List.mem_append.mp member with member | member
    · exact first.predicate t member
    · exact others.predicate t member
  scope := by
    intro b member ts way n mentioned
    rcases List.mem_cons.mp member with rfl | member
    · exact inScope_left (first.scope ts way n mentioned) others.le
    · exact inScope_right (others.scope b member ts way n mentioned) first.le
  kept := by
    intro t member
    rcases List.mem_append.mp member with member | member
    · rcases first.kept t member with stated | offered | tied
      · exact .inl ⟨ps, List.mem_cons_self, stated⟩
      · exact .inr (.inl ⟨ps, List.mem_cons_self, offered⟩)
      · refine .inr (.inr (tied.extend (Nat.le_refl _) others.le ?_))
        rintro ts ⟨b, chosen, way⟩ n from_ lt said
        rcases List.mem_cons.mp chosen with rfl | chosen
        · exact ⟨ts, List.Subset.refl _, way, said⟩
        · exact absurd (others.scope b chosen ts way n said) (not_inScope_of_lt below from_ lt)
    · rcases others.kept t member with ⟨b, chosen, stated⟩ | ⟨b, chosen, offered⟩ | tied
      · exact .inl ⟨b, List.mem_cons_of_mem _ chosen, stated⟩
      · exact .inr (.inl ⟨b, List.mem_cons_of_mem _ chosen, offered⟩)
      · refine .inr (.inr (tied.extend first.le (Nat.le_refl _) ?_))
        rintro ts ⟨b, chosen, way⟩ n from_ _ said
        rcases List.mem_cons.mp chosen with rfl | chosen
        · exact absurd (first.scope ts way n said) (not_inScope_of_le below first.le from_)
        · exact ⟨ts, List.Subset.refl _, ⟨b, chosen, way⟩, said⟩

theorem matches_union_scope (h : DescribesEach outer isOptional lo hi new branches)
    {ts : List Triple} (way : Matches [.union branches] ts) {n : Nat} (said : Mentions ts n) :
    InScope outer lo hi n ∧ ∃ b ∈ branches, Matches b ts := by
  rcases matches_union way with rfl | ⟨b, chosen, inner⟩
  · exact absurd said not_mentions_nil
  · exact ⟨h.scope b chosen ts inner n said, b, chosen, inner⟩

theorem union (h : DescribesEach outer true lo hi new branches) :
    Describes outer true lo hi new [.union branches] where
  le := h.le
  predicate := h.predicate
  scope := fun _ way _ mentioned => (h.matches_union_scope way mentioned).1
  kept := by
    intro t member
    rcases h.kept t member with ⟨_, _, off, _⟩ | ⟨b, chosen, class_, offered⟩ | tied
    · cases off
    · exact .inr (.inl ⟨class_, .inBranch List.mem_cons_self chosen offered⟩)
    · refine .inr (.inr (tied.extend (Nat.le_refl _) (Nat.le_refl _) fun ts way n _ _ said => ?_))
      exact ⟨ts, List.Subset.refl _, (h.matches_union_scope way said).2, said⟩

end DescribesEach

/-! ### The triple of a property and the description of its value -/

variable {v w : Nat} {edge : Triple}

theorem mentions_cons {ts : List Triple} {n : Nat} :
    Mentions (edge :: ts) n ↔ n ∈ edge.vars ∨ Mentions ts n := by
  simp only [Mentions, List.mem_cons, or_and_right, exists_or, exists_eq_left]

/-- The triple that leads from `v` to the new resource `w`, with the conditions on `w` after it. -/
theorem describes_edge {new : List Triple} (ends : ∀ n, n ∈ edge.vars ↔ n = v ∨ n = w)
    (plain : ∀ n, edge.predicate ≠ .var n)
    (h : ∀ t ∈ new, ∀ n, t.predicate ≠ .var n) (le : w + 1 ≤ hi)
    (scope : ∀ ts, Matches ps ts → ∀ n, Mentions ts n → InScope [w] (w + 1) hi n)
    (kept : ∀ t ∈ new, (t.StatesClass ∧ Offers t (.triple edge :: ps)) ∨
      Tied (w + 1) hi (Matches ps) t) (lt : v < w) :
    Describes [v] true w hi (edge :: new) (.triple edge :: ps) where
  le := by omega
  predicate := by
    intro t member
    rcases List.mem_cons.mp member with rfl | member
    · exact plain
    · exact h t member
  scope := by
    intro ts way n mentioned
    cases way with
    | triple inner =>
      rcases mentions_cons.mp mentioned with mentioned | mentioned
      · rcases (ends n).mp mentioned with rfl | rfl
        · exact .inl List.mem_cons_self
        · exact .inr ⟨Nat.le_refl _, by omega⟩
      · rcases scope _ inner n mentioned with member | ⟨from_, before⟩
        · obtain rfl := List.mem_singleton.mp member
          exact .inr ⟨Nat.le_refl _, by omega⟩
        · exact .inr ⟨by omega, before⟩
  kept := by
    intro t member
    rcases List.mem_cons.mp member with rfl | member
    · refine .inr (.inr ⟨w, (ends w).mpr (.inr rfl), Nat.le_refl _, by omega, fun ts way _ => ?_⟩)
      exact matches_triple way List.mem_cons_self
    · rcases kept t member with offered | tied
      · exact .inr (.inl offered)
      · refine .inr (.inr (tied.extend (Nat.le_succ _) (Nat.le_refl _) ?_))
        intro ts way n from_ _ said
        cases way with
        | triple inner =>
          refine ⟨_, List.subset_cons_self _ _, inner, (mentions_cons.mp said).resolve_left ?_⟩
          intro ended
          rcases (ends n).mp ended with rfl | rfl <;> omega

end RdfXmlMapping.Query
