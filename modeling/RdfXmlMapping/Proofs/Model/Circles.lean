import Mathlib.Order.WellFounded
import RdfXmlMapping.Proofs.Model.Reach
import RdfXmlMapping.Proofs.Model.Tolerance

/-!
Circles of classes. `checkAcyclic_walked`: if the check finds none, then from no root a walk over
parents and values goes on forever. `circle_of_recursive`: if it finds one, then the values of some
root lead on without end, or the ancestry of some class goes in a circle.
-/

namespace RdfXmlMapping.Model

open Relation (ReflTransGen TransGen)

variable {m : Model} {c d e : Class} {p : Property} {path done done' : List String}
  {next : List Class}

/-- All that a class leads to can be walked through, and every walk ends. -/
inductive Walked (m : Model) : Class → Prop
  | intro {c : Class} {next : List Class} : m.successors c = .ok next →
      (∀ d ∈ next, Walked m d) → Walked m c

theorem Walked.leads (h : m.Walked c) (step : m.LeadsTo c d) : m.Walked d := by
  cases h with
  | intro found all => exact all d ((mem_successors found).mpr step)

theorem Walked.reaches (h : m.Walked c) (steps : ReflTransGen m.LeadsTo c d) : m.Walked d := by
  induction steps with
  | refl => exact h
  | tail _ last ih => exact ih.leads last

theorem Walked.shape (h : m.Walked c) (declared : p ∈ c.properties) :
    ∃ shape, m.shapeOf p = .ok shape := by
  cases h with
  | intro found _ =>
    obtain ⟨_, _, _, _, _, shaped⟩ := successors_ok found
    exact shaped p declared

theorem Walked.leads_of_refers (h : m.Walked c) (step : m.RefersTo c d) : m.LeadsTo c d := by
  rcases step with parent | ⟨p, declared, associates⟩
  · exact .inl parent
  · obtain ⟨shape, read⟩ := h.shape declared
    exact .inr ⟨p, declared, shape, read, (mem_targets read).mpr associates⟩

theorem Walked.refers (h : m.Walked c) (steps : ReflTransGen m.RefersTo c d) :
    ReflTransGen m.LeadsTo c d := by
  induction steps with
  | refl => exact .refl
  | tail _ last ih => exact ih.tail ((h.reaches ih).leads_of_refers last)

theorem Walked.acc (h : m.Walked c) : Acc (fun d c => m.LeadsTo c d) c := by
  induction h with
  | intro found _ ih => exact .intro _ fun d step => ih d ((mem_successors found).mpr step)

theorem Walked.irrefl (h : m.Walked c) : ¬ TransGen m.LeadsTo c c := fun circle =>
  acc_irrefl h.acc (Relation.transGen_swap.mpr circle)

/-! ### The walk -/

theorem walk_eq : m.walk path done c =
    if done.contains c.iri then .ok done
    else if m.canEnter path c.iri then do
      let next ← m.successors c
      let done ← next.foldlM (m.walk (c.iri :: path)) done
      return c.iri :: done
    else .error (.recursiveModel c.iri) := by
  rw [walk]
  rfl

def AllWalked (m : Model) (done : List String) : Prop :=
  ∀ d, m.Knows d → d.iri ∈ done → m.Walked d

theorem walk_walked (path : List String) : ∀ done done' c, m.Knows c → m.AllWalked done →
    m.walk path done c = .ok done' → m.AllWalked done' ∧ m.Walked c := by
  induction path using walk_induction m with
  | step path ih =>
    intro done done' c known before h
    rw [walk_eq] at h
    split at h
    next old =>
      obtain rfl := Except.ok.inj h
      exact ⟨before, before c known (List.contains_iff_mem.mp old)⟩
    · split at h
      next way =>
        obtain ⟨next, found, h⟩ := except_bind_ok h
        obtain ⟨inner, fold, h⟩ := except_bind_ok h
        obtain rfl := Except.ok.inj h
        obtain ⟨after, all⟩ := except_foldlM_ok (Q := m.Walked) (fun d member done done' =>
          ih c.iri way done done' d ((mem_successors found).mp member).knows) before fold
        have walked : m.Walked c := .intro found all
        refine ⟨fun d here among => ?_, walked⟩
        rcases List.mem_cons.mp among with same | old
        · exact knows_eq known here same.symm ▸ walked
        · exact after d here old
      next => cases h

/-- What the check does for one candidate of the roots. -/
def walkRoot (m : Model) (done : List String) (iri : String) : Generated (List String) := do
  m.walk [] done (← m.lookUp iri m.iri)

theorem checkAcyclic_eq : m.checkAcyclic = do
    let _ ← m.rootCandidates.foldlM m.walkRoot []
    return () := rfl

theorem walkRoot_walked {iri : String} (before : m.AllWalked done)
    (h : m.walkRoot done iri = .ok done') :
    m.AllWalked done' ∧ ∃ c, m.find? iri = some c ∧ m.Walked c := by
  obtain ⟨c, found, h⟩ := except_bind_ok h
  obtain ⟨known, same⟩ := lookUp_knows found
  obtain ⟨after, walked⟩ := walk_walked [] done done' c known before h
  exact ⟨after, c, by rw [← same, known], walked⟩

theorem allWalked_nil : m.AllWalked [] := fun _ _ member => by cases member

theorem checkAcyclic_walked (h : m.checkAcyclic = .ok ()) :
    ∀ iri ∈ m.rootCandidates, ∃ c, m.find? iri = some c ∧ m.Walked c := by
  rw [checkAcyclic_eq] at h
  obtain ⟨done, fold, _⟩ := except_bind_ok h
  exact (except_foldlM_ok (f := m.walkRoot) (Q := fun iri => ∃ c, m.find? iri = some c ∧ m.Walked c)
    (fun iri _ done done' before => walkRoot_walked before) allWalked_nil fold).2

theorem Walked.climbs (h : m.Walked c) : m.Climbs c := by
  induction h with
  | intro found _ ih =>
    obtain ⟨parent, values, above, rfl, _, _⟩ := successors_ok found
    cases parent with
    | none => exact .top above
    | some p => exact .up above (ih p (by simp))

theorem Walked.expands (h : m.Walked c) (known : m.Knows c) (step : m.Expands c d) :
    m.Walked d ∧ TransGen m.LeadsTo c d := by
  obtain ⟨ps, own, p, member, target⟩ := step
  obtain ⟨ps', own', among⟩ := h.climbs.effectiveProperties known
  obtain rfl := Except.ok.inj (own.symm.trans own')
  obtain ⟨e, above, declared⟩ := (among p).mp member
  have steps := TransGen.tail' (parents_lead above) (.inr ⟨p, declared, target⟩)
  exact ⟨h.reaches steps.to_reflTransGen, steps⟩

/-! ### Circles that the walk finds -/

/-- Steps that the walk takes: values are followed once all ancestors are walked through. -/
inductive Taken (m : Model) : Class → Class → Prop
  | parent {c d : Class} : m.ParentOf c d → Taken m c d
  | value {c d : Class} : (∃ parent, m.parent? c = .ok parent ∧ ∀ e ∈ parent, m.Walked e) →
      m.ValueOf c d → Taken m c d

theorem Taken.leads (h : m.Taken c d) : m.LeadsTo c d := by
  cases h with
  | parent above => exact .inl above
  | value _ value => exact .inr value

theorem successors_tolerant (m : Model) (c : Class) : Tolerant (m.successors c) :=
  (m.parent?_tolerant c).bind fun _ => (Tolerant.mapM m.shapeOf_tolerant _).bind fun _ => .ok _

/-- Where the walk stands: it has come here from all classes on its path. -/
def Trail (m : Model) (path : List String) (c : Class) : Prop :=
  ∀ iri ∈ path, ∃ e, m.Knows e ∧ e.iri = iri ∧ TransGen m.Taken e c

theorem Trail.step (known : m.Knows c) (trail : m.Trail path c) (step : m.Taken c d) :
    m.Trail (c.iri :: path) d := by
  intro iri member
  rcases List.mem_cons.mp member with rfl | member
  · exact ⟨c, known, rfl, .single step⟩
  · obtain ⟨e, known, same, steps⟩ := trail iri member
    exact ⟨e, known, same, steps.tail step⟩

/-- The parent is the first successor, so that it is walked through before any other. -/
theorem successors_taken {first others : List Class}
    (found : m.successors c = .ok (first ++ d :: others)) (walked : ∀ e ∈ first, m.Walked e) :
    m.Taken c d := by
  obtain ⟨parent, values, above, whole, value, _⟩ := successors_ok found
  cases parent with
  | none =>
    have here : d ∈ first ++ d :: others := by simp
    refine .value ⟨none, above, fun e member => by cases member⟩ ((value d).mp ?_)
    simpa [whole] using here
  | some p =>
    have same : p :: values = first ++ d :: others := by rw [whole]; rfl
    cases first with
    | nil =>
      obtain ⟨rfl, -⟩ := List.cons.inj same
      exact .parent above
    | cons q first =>
      obtain ⟨rfl, rest⟩ := List.cons.inj same
      refine .value ⟨some p, above, fun e member => ?_⟩ ((value d).mp ?_)
      · obtain rfl := Option.some.inj member
        exact walked p List.mem_cons_self
      · exact rest ▸ List.mem_append_right _ List.mem_cons_self

/-- When the walk meets a class again, it has gone in a circle, and it names that class. -/
theorem walk_circle {iri : String} (path : List String) : ∀ done c, m.Knows c →
    m.AllWalked done → m.Trail path c → m.walk path done c = .error (.recursiveModel iri) →
      ∃ x, x.iri = iri ∧ ReflTransGen m.Taken c x ∧ TransGen m.Taken x x := by
  induction path using walk_induction m with
  | step path ih =>
    intro done c known before trail h
    rw [walk_eq] at h
    split at h
    · cases h
    · split at h
      next way =>
        rcases except_bind_error h with h | ⟨next, found, h⟩
        · exact absurd h (m.successors_tolerant c iri)
        rcases except_bind_error h with h | ⟨_, _, h⟩
        · obtain ⟨first, d, others, between, split, run, failed⟩ := except_foldlM_error h
          have leads (e : Class) (member : e ∈ next) := (mem_successors found).mp member
          have here : d ∈ next := by simp [split]
          obtain ⟨after, walked⟩ := except_foldlM_ok (Q := m.Walked)
            (fun e member done done' => walk_walked (c.iri :: path) done done' e
              (leads e (by simp [split, member])).knows) before run
          have step : m.Taken c d := successors_taken (split ▸ found) walked
          obtain ⟨x, same, steps, circle⟩ :=
            ih c.iri way between d (leads d here).knows after (trail.step known step) failed
          exact ⟨x, same, .head step steps, circle⟩
        · cases h
      next stop =>
        have old : c.iri ∈ path := by
          by_contra new
          exact stop (canEnter_of_knows known new)
        obtain ⟨e, known', same, steps⟩ := trail c.iri old
        obtain rfl := knows_eq known' known same
        exact ⟨e, GenerationError.recursiveModel.inj (Except.error.inj h), .refl, steps⟩

theorem checkAcyclic_circle {iri : String} (h : m.checkAcyclic = .error (.recursiveModel iri)) :
    ∃ r x, m.Entry r ∧ x.iri = iri ∧ ReflTransGen m.Taken r x ∧ TransGen m.Taken x x := by
  rw [checkAcyclic_eq] at h
  rcases except_bind_error h with h | ⟨_, _, h⟩
  · obtain ⟨first, root, others, done, split, run, failed⟩ := except_foldlM_error h
    obtain ⟨before, -⟩ := except_foldlM_ok (f := m.walkRoot) (P := m.AllWalked) (Q := fun _ => True)
      (fun iri _ done done' before run => ⟨(walkRoot_walked before run).1, trivial⟩)
      allWalked_nil run
    rcases except_bind_error failed with missing | ⟨r, found, failed⟩
    · exact absurd missing (m.lookUp_tolerant _ _ iri)
    · obtain ⟨known, same⟩ := lookUp_knows found
      obtain ⟨x, named, steps, circle⟩ :=
        walk_circle [] done r known before (fun _ member => by cases member) failed
      have entry : m.Entry r := ⟨root, by simp [split], by rw [← same, known]⟩
      exact ⟨r, x, entry, named, steps, circle⟩
  · cases h

/-! ### Circles of values -/

/-- A class has an ancestor, or is itself one, that declares the property followed here; all
ancestors of that one can be walked through. -/
def Inherits (m : Model) (c d : Class) : Prop :=
  ∃ e, ReflTransGen m.ParentOf c e ∧
    (∃ parent, m.parent? e = .ok parent ∧ ∀ a ∈ parent, m.Walked a) ∧ m.ValueOf e d

theorem Inherits.expands (h : m.Inherits c d) (known : m.Knows c) : m.Expands c d := by
  obtain ⟨e, above, ⟨parent, found, walked⟩, p, declared, target⟩ := h
  have climbs : m.Climbs e := by
    cases parent with
    | none => exact .top found
    | some a => exact .up found (walked a rfl).climbs
  obtain ⟨ps, own, among⟩ := (climbs_of_parents above climbs).effectiveProperties known
  exact ⟨ps, own, p, (among p).mpr ⟨e, above, declared⟩, target⟩

theorem inherited_expands (steps : TransGen m.Inherits c d) (known : m.Knows c) :
    TransGen m.Expands c d := by
  induction steps using TransGen.head_induction_on with
  | single step => exact .single (step.expands known)
  | head first _ ih =>
    have step := first.expands known
    exact .head step (ih step.knows)

theorem inherits_of_parent (above : m.ParentOf c d) (steps : TransGen m.Inherits d e) :
    TransGen m.Inherits c e := by
  rcases TransGen.head'_iff.mp steps with ⟨next, ⟨a, up, rest⟩, onward⟩
  exact .head' ⟨a, .head above up, rest⟩ onward

theorem inherits_of_taken (steps : ReflTransGen m.Taken c d)
    (walked : ∃ parent, m.parent? d = .ok parent ∧ ∀ a ∈ parent, m.Walked a)
    (last : m.ValueOf d e) : TransGen m.Inherits c e := by
  induction steps using ReflTransGen.head_induction_on with
  | refl => exact .single ⟨d, .refl, walked, last⟩
  | head first _ ih =>
    cases first with
    | parent above => exact inherits_of_parent above ih
    | value walked' value => exact .head ⟨_, .refl, walked', value⟩ ih

/-- A circle goes over parents alone, or over some value. -/
theorem circle_split (circle : TransGen m.Taken c d) : TransGen m.ParentOf c d ∨
    ∃ e z, ReflTransGen m.Taken c e ∧
      (∃ parent, m.parent? e = .ok parent ∧ ∀ a ∈ parent, m.Walked a) ∧ m.ValueOf e z ∧
      ReflTransGen m.Taken z d := by
  induction circle with
  | single step =>
    cases step with
    | parent above => exact .inl (.single above)
    | value walked value => exact .inr ⟨_, _, .refl, walked, value, .refl⟩
  | tail steps step ih =>
    rcases ih with parents | ⟨e, z, before, walked, value, after⟩
    · cases step with
      | parent above => exact .inl (parents.tail above)
      | value walked value => exact .inr ⟨_, _, steps.to_reflTransGen, walked, value, .refl⟩
    · exact .inr ⟨e, z, before, walked, value, after.tail step⟩

theorem endless_of_circle {α : Type} {R : α → α → Prop} {a z : α} (steps : ReflTransGen R a z)
    (circle : TransGen R z z) : ∃ f : Nat → α, f 0 = a ∧ ∀ n, R (f n) (f (n + 1)) := by
  refine (not_acc_iff_exists_descending_chain (r := fun b a => R a b)).mp fun ends => ?_
  have there : Acc (fun b a => R a b) z := by
    clear circle
    induction steps with
    | refl => exact ends
    | tail _ last ih => exact ih.inv last
  exact acc_irrefl there (Relation.transGen_swap.mpr circle)

/-- A model is refused for a circle only if the values of some root lead on without end, or the
ancestry of a class that can be reached goes in a circle. -/
theorem circle_of_recursive {iri : String} (h : m.checkAcyclic = .error (.recursiveModel iri)) :
    (∃ f : Nat → Class, m.Entry (f 0) ∧ ∀ n, m.Expands (f n) (f (n + 1))) ∨
      ∃ c, m.Reachable c ∧ TransGen m.ParentOf c c := by
  obtain ⟨r, x, entry, _, steps, circle⟩ := checkAcyclic_circle h
  rcases circle_split circle with parents | ⟨e, z, before, walked, value, after⟩
  · have sub : m.Taken ≤ m.RefersTo := fun _ _ step => step.leads.refers
    exact .inr ⟨x, ⟨r, entry, ReflTransGen.mono sub r x steps⟩, parents⟩
  · have first : TransGen m.Inherits r z := inherits_of_taken (steps.trans before) walked value
    have again : TransGen m.Inherits z z := inherits_of_taken (after.trans before) walked value
    have knownZ : m.Knows z := (LeadsTo.knows (.inr value))
    obtain ⟨f, start, onward⟩ := endless_of_circle
      (inherited_expands first entry.knows).to_reflTransGen (inherited_expands again knownZ)
    exact .inl ⟨f, start ▸ entry, onward⟩

end RdfXmlMapping.Model
