import RdfXmlMapping.Proofs.Query.Scope
import RdfXmlMapping.Proofs.Query.Writing

/-!
What each step of the generation of a query adds. `classPatterns_makes`: the conditions on an
instance and the triples made with them describe that instance, on every nesting of optional and
polymorphic properties.
-/

namespace RdfXmlMapping.Query

variable {outer : List Nat} {isOptional : Bool} {s t u : Progress} {ps qs : List Pattern}

/-- A run made the conditions, and their triples in the template. -/
def Makes (outer : List Nat) (isOptional : Bool) (s t : Progress) (ps : List Pattern) : Prop :=
  ∃ new, t.template = s.template ++ new ∧
    Describes outer isOptional s.variableCount t.variableCount new ps

def MakesEach (outer : List Nat) (isOptional : Bool) (s t : Progress)
    (branches : List (List Pattern)) : Prop :=
  ∃ new, t.template = s.template ++ new ∧
    DescribesEach outer isOptional s.variableCount t.variableCount new branches

def Below (outer : List Nat) (s : Progress) : Prop := ∀ v ∈ outer, v < s.variableCount

theorem Makes.le (h : Makes outer isOptional s t ps) : s.variableCount ≤ t.variableCount := by
  obtain ⟨_, _, described⟩ := h
  exact described.le

theorem Makes.below (h : Makes outer isOptional s t ps) (below : Below outer s) : Below outer t :=
  fun v member => Nat.lt_of_lt_of_le (below v member) h.le

theorem Makes.append (below : Below outer s) (first : Makes outer isOptional s t ps)
    (second : Makes outer isOptional t u qs) : Makes outer isOptional s u (ps ++ qs) := by
  obtain ⟨new, grown, described⟩ := first
  obtain ⟨old, grown', described'⟩ := second
  refine ⟨new ++ old, ?_, described.append below described'⟩
  rw [grown', grown, List.append_assoc]

theorem runs_makes {α : Type} {f : α → Build (List Pattern)}
    (step : ∀ x s ps t, Below outer s → f x s = .ok (ps, t) → Makes outer isOptional s t ps)
    {xs : List α} {out : List (List Pattern)} (below : Below outer s) (runs : Runs f xs out s t) :
    Makes outer isOptional s t out.flatten := by
  induction runs with
  | nil s => exact ⟨[], (List.append_nil _).symm, .nothing⟩
  | cons first _ ih =>
    have made := step _ _ _ _ below first
    exact made.append below (ih (made.below below))

theorem runs_makesEach {α : Type} {f : α → Build (List Pattern)}
    (step : ∀ x s ps t, Below outer s → f x s = .ok (ps, t) → Makes outer isOptional s t ps)
    {xs : List α} {out : List (List Pattern)} (below : Below outer s) (runs : Runs f xs out s t) :
    MakesEach outer isOptional s t out := by
  induction runs with
  | nil s => exact ⟨[], (List.append_nil _).symm, .nothing⟩
  | cons first _ ih =>
    have made := step _ _ _ _ below first
    obtain ⟨old, grown', others⟩ := ih (made.below below)
    obtain ⟨new, grown, described⟩ := made
    exact ⟨new ++ old, by rw [grown', grown, List.append_assoc], .cons below described others⟩

/-! ### Single steps -/

theorem describes_class {v lo : Nat} {predicate object : String} :
    Describes [v] isOptional lo lo [⟨.var v, .type predicate, .iri object⟩]
      [if isOptional then .optional [.triple ⟨.var v, .type predicate, .iri object⟩]
        else .triple ⟨.var v, .type predicate, .iri object⟩] where
  le := Nat.le_refl _
  predicate := by simp
  scope := by
    intro ts way n mentioned
    have only : ∀ t ∈ ts, t = ⟨.var v, .type predicate, .iri object⟩ := by
      intro t member
      cases isOptional with
      | true =>
        rcases matches_optional way with rfl | inner
        · cases member
        · cases inner with
          | triple rest => cases rest; exact List.mem_singleton.mp member
      | false =>
        cases way with
        | triple rest => cases rest; exact List.mem_singleton.mp member
    obtain ⟨t, member, said⟩ := mentioned
    rw [only t member] at said
    exact .inl (by simpa [Triple.vars, Term.vars] using said)
  kept := by
    intro t member
    obtain rfl := List.mem_singleton.mp member
    cases isOptional with
    | true => exact .inr (.inl ⟨⟨_, rfl⟩, .alone List.mem_cons_self⟩)
    | false =>
      exact .inl ⟨rfl, ⟨_, rfl⟩, ⟨v, List.mem_cons_self, rfl⟩, List.mem_cons_self⟩

theorem typePatterns_makes {v : Nat} {c : Class} (h : typePatterns v isOptional c s = .ok (ps, t)) :
    Makes [v] isOptional s t ps ∧ t.variableCount = s.variableCount := by
  cases read : c.meaning with
  | none =>
    rw [typePatterns_none _ _ read] at h
    cases h
    exact ⟨⟨[], (List.append_nil _).symm, .nothing⟩, rfl⟩
  | some meaning =>
    rw [typePatterns_some _ _ read] at h
    cases h
    exact ⟨⟨_, rfl, describes_class⟩, rfl⟩

/-- The triple of a property leads from the instance to a new variable, or back from it. -/
theorem propertyTriple_ok {v value : Nat} {p : Property} {pattern : Pattern}
    (h : propertyTriple v p s = .ok ((value, pattern), t)) :
    value = s.variableCount ∧ t.variableCount = s.variableCount + 1 ∧
      ∃ e : Triple, pattern = .triple e ∧ t.template = s.template ++ [e] ∧
        (∀ n, n ∈ e.vars ↔ n = v ∨ n = value) ∧ ∀ n, e.predicate ≠ .var n := by
  rw [propertyTriple_eq] at h
  cases h
  refine ⟨rfl, rfl, _, rfl, rfl, fun n => mem_vars_edge, fun n => ?_⟩
  rw [edge_predicate]
  nofun

/-! ### Classes -/

/-- The triple of a property with a description of the value that states its class, if at all,
beside the triple. -/
theorem edge_makes {v : Nat} {e : Triple} (lt : v < s.variableCount)
    (count : t.variableCount = s.variableCount + 1) (grown : t.template = s.template ++ [e])
    (ends : ∀ n, n ∈ e.vars ↔ n = v ∨ n = s.variableCount) (plain : ∀ n, e.predicate ≠ .var n)
    {new : List Triple} (grown' : u.template = t.template ++ new)
    (predicate : ∀ t ∈ new, ∀ n, t.predicate ≠ .var n) (le : t.variableCount ≤ u.variableCount)
    (scope : ∀ ts, Matches ps ts → ∀ n, Mentions ts n →
      InScope [s.variableCount] t.variableCount u.variableCount n)
    (kept : ∀ x ∈ new, (x.StatesClass ∧ Offers x (.triple e :: ps)) ∨
      Tied t.variableCount u.variableCount (Matches ps) x) :
    Makes [v] true s u (.triple e :: ps) := by
  refine ⟨e :: new, by rw [grown', grown, List.append_assoc]; rfl, ?_⟩
  rw [count] at le scope kept
  exact describes_edge ends plain predicate le scope kept lt

theorem edge_makes_single {v : Nat} {e : Triple} (lt : v < s.variableCount)
    (count : t.variableCount = s.variableCount + 1) (grown : t.template = s.template ++ [e])
    (ends : ∀ n, n ∈ e.vars ↔ n = v ∨ n = s.variableCount) (plain : ∀ n, e.predicate ≠ .var n)
    (made : Makes [s.variableCount] true t u ps) : Makes [v] true s u (.triple e :: ps) := by
  obtain ⟨new, grown', described⟩ := made
  refine edge_makes lt count grown ends plain grown' described.predicate described.le
    described.scope fun x member => ?_
  rcases described.kept x member with ⟨off, _⟩ | ⟨class_, offered⟩ | tied
  · cases off
  · exact .inl ⟨class_, offers_mono offered (List.subset_cons_self _ _)⟩
  · exact .inr tied

theorem edge_makes_choice {v : Nat} {e : Triple} {branches : List (List Pattern)}
    (lt : v < s.variableCount) (count : t.variableCount = s.variableCount + 1)
    (grown : t.template = s.template ++ [e])
    (ends : ∀ n, n ∈ e.vars ↔ n = v ∨ n = s.variableCount) (plain : ∀ n, e.predicate ≠ .var n)
    (made : MakesEach [s.variableCount] isOptional t u branches) :
    Makes [v] true s u [.triple e, .union branches] := by
  obtain ⟨new, grown', described⟩ := made
  refine edge_makes lt count grown ends plain grown' described.predicate described.le
    (fun ts way n said => (described.matches_union_scope way said).1) fun x member => ?_
  rcases described.kept x member with ⟨b, chosen, _, class_, ⟨n, known, subject⟩, stands⟩ |
    ⟨b, chosen, class_, offered⟩ | tied
  · obtain rfl := List.mem_singleton.mp known
    exact .inl ⟨class_, .candidate List.mem_cons_self ((ends _).mpr (.inr rfl)) subject
      (List.mem_cons_of_mem _ List.mem_cons_self) chosen stands⟩
  · exact .inl ⟨class_, .inBranch (List.mem_cons_of_mem _ List.mem_cons_self) chosen offered⟩
  · refine .inr (tied.extend (Nat.le_refl _) (Nat.le_refl _) fun ts way n _ _ said => ?_)
    exact ⟨ts, List.Subset.refl _, (described.matches_union_scope way said).2, said⟩

theorem optional_makes {v : Nat} (h : Makes [v] true s t ps) (missing : Bool) :
    Makes [v] true s t (if missing then [.optional ps] else ps) := by
  cases missing with
  | false => exact h
  | true =>
    obtain ⟨new, grown, described⟩ := h
    exact ⟨new, grown, described.optional⟩

theorem below_singleton {v : Nat} : Below [v] s ↔ v < s.variableCount := by
  simp [Below]

theorem classPatterns_makes {m : Model} {path : List String} {v : Nat} {c : Class}
    (below : Below [v] s) (h : classPatterns m path v isOptional c s = .ok (ps, t)) :
    Makes [v] isOptional s t ps := by
  induction path, v, isOptional, c using classPatterns.induct m generalizing s ps t with
  | case2 path v isOptional c outside => exact absurd (classPatterns_ok h).1 outside
  | case1 path v isOptional c inside single choice =>
    obtain ⟨_, type, s₁, properties, out, typed, _, described, rfl⟩ := classPatterns_ok h
    obtain ⟨made, _⟩ := typePatterns_makes typed
    refine made.append below ?_
    -- Only the class itself may be asked for; what its properties lead to is never.
    obtain ⟨new, grown, whole⟩ : Makes [v] true s₁ t out.flatten := by
      refine runs_makes (fun p u group w below h => ?_) (made.below below) described
      have lt := below_singleton.mp below
      obtain ⟨shape, value, edge, u₃, content, _, _, led, followed, rfl⟩ := propertyPatterns_ok h
      obtain ⟨rfl, count, e, rfl, grown, ends, plain⟩ := propertyTriple_ok led
      have next : Below [u.variableCount] u₃ := below_singleton.mpr (by omega)
      cases shape with
      | primitive _ =>
        cases pure_ok followed
        exact optional_makes (edge_makes_single lt count grown ends plain
          ⟨[], (List.append_nil _).symm, .nothing⟩) _
      | single target =>
        exact optional_makes (edge_makes_single lt count grown ends plain
          (single _ target next followed)) _
      | choice plan =>
        obtain ⟨branches, candidates, rfl⟩ := valuePatterns_choice_ok followed
        exact optional_makes (edge_makes_choice lt count grown ends plain
          (runs_makesEach (fun c _ _ _ below h => choice _ plan c below h) next candidates)) _
    exact ⟨new, grown, whole.weaken⟩

/-! ### Roots -/

theorem makes_closed
    (h : Makes [s.variableCount] isOptional { s with variableCount := s.variableCount + 1 } u ps) :
    Makes [] true s u ps := by
  obtain ⟨new, grown, described⟩ := h
  exact ⟨new, grown, described.closed⟩

theorem union_makes {branches : List (List Pattern)} (h : MakesEach outer true s t branches) :
    Makes outer true s t [.union branches] := by
  obtain ⟨new, grown, described⟩ := h
  exact ⟨new, grown, described.union⟩

theorem rootPatterns_makes {m : Model} {group : List String}
    (h : rootPatterns m group s = .ok (ps, t)) : Makes [] true s t ps := by
  obtain ⟨candidates, _, described⟩ := rootPatterns_ok h
  have below : Below [s.variableCount] { s with variableCount := s.variableCount + 1 } :=
    below_singleton.mpr (Nat.lt_succ_self _)
  obtain ⟨c, rfl, made⟩ | ⟨many, branches, followed, rfl⟩ := described
  · exact makes_closed (classPatterns_makes below made)
  · refine makes_closed (union_makes ?_)
    rcases Nat.lt_or_gt_of_ne many with none | several
    · obtain rfl := List.length_eq_zero_iff.mp (Nat.lt_one_iff.mp none)
      cases followed
      exact ⟨[], (List.append_nil _).symm, .nothing⟩
    · rw [decide_eq_true several] at followed
      exact runs_makesEach (fun _ _ _ _ below h => classPatterns_makes below h) below followed

theorem modelPatterns_makes {m : Model} (h : modelPatterns m s = .ok (ps, t)) :
    Makes [] true s t ps := by
  unfold modelPatterns at h
  obtain ⟨branches, s₁, followed, h⟩ := bind_ok h
  have made : MakesEach [] true s s₁ branches :=
    runs_makesEach (fun _ _ _ _ _ h => rootPatterns_makes h) nofun (mapM_ok followed)
  split at h
  · cases pure_ok h
    generalize m.roots = roots at followed
    cases mapM_ok followed with
    | cons first rest =>
      cases rest
      exact rootPatterns_makes first
  · cases pure_ok h
    exact union_makes made

theorem ofModel_describes {m : Model} {q : Query} (h : ofModel m = .ok q) :
    Describes [] true 0 q.variableCount q.template q.pattern := by
  unfold ofModel at h
  obtain ⟨_, _, h⟩ := except_bind_ok h
  obtain ⟨⟨pattern, final⟩, made, h⟩ := except_bind_ok h
  obtain rfl := Except.ok.inj h
  obtain ⟨new, grown, described⟩ := modelPatterns_makes made
  dsimp only
  rw [grown]
  exact described

end RdfXmlMapping.Query
