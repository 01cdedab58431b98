import RdfXmlMapping.Import.Resolve
import RdfXmlMapping.Proofs.Model.Circles

/-!
What a refused model is refused for. Whatever is asked of a model and fails does so with an error
that names classes and properties of it, or with a reference that the model holds and that leads
nowhere: `Model.Accounts`.
-/

namespace RdfXmlMapping

namespace Model

def HasClass (m : Model) (iri : String) : Prop := ∃ c ∈ m.classes, c.iri = iri

def HasProperty (m : Model) (iri : String) : Prop := ∃ p, m.Declares p ∧ p.iri = iri

/-- What refers to a class: the model to a candidate of its roots, a class to a parent, and a
property to a candidate for its values. -/
inductive Cites (m : Model) (target : String) : String → Prop
  | root : target ∈ m.rootCandidates → Cites m target m.iri
  | parent {c : Class} : c ∈ m.classes → target ∈ c.parents → Cites m target c.iri
  | value {p : Property} : m.Declares p → .association target ∈ p.types → Cites m target p.iri

/-- What an error says is true of the model. -/
def Accounts (m : Model) : GenerationError → Prop
  | .emptyDataTypes p | .heterogeneousDataTypes p | .multiplePrimitiveTypes p
  | .dematerializedNonClass p | .dematerializationCycle p | .reversePrimitive p
  | .unserializablePredicate p _ => m.HasProperty p
  | .multipleInheritance c | .inheritanceCycle c | .missingInterpretation c _ | .recursiveModel c
  | .unresolvedImport c _ _ => m.HasClass c
  | .parentOutsideChoice p c parent => m.HasProperty p ∧ m.HasClass c ∧ m.HasClass parent
  | .duplicateRootElement c other _ => m.HasClass c ∧ m.HasClass other
  | .unknownClass c referrer => ¬ m.HasClass c ∧ m.Cites c referrer
  | .sinkFailed _ => False

/-- A step fails, if it does, with an error that the model accounts for. -/
def Accountable (m : Model) {α : Type} (x : Generated α) : Prop :=
  ∀ e, x = .error e → m.Accounts e

namespace Accountable

variable {m : Model} {α β : Type}

theorem ok (a : α) : m.Accountable (.ok a) := fun _ h => by cases h

theorem error {e : GenerationError} (h : m.Accounts e) :
    m.Accountable (.error e : Generated α) := fun _ same => Except.error.inj same ▸ h

theorem bind {x : Generated α} {f : α → Generated β} (first : m.Accountable x)
    (rest : ∀ a, x = .ok a → m.Accountable (f a)) : m.Accountable (x >>= f) := by
  intro e h
  rcases except_bind_error h with h | ⟨a, run, h⟩
  · exact first e h
  · exact rest a run e h

theorem map {x : Generated α} {f : α → β} (h : m.Accountable x) : m.Accountable (f <$> x) :=
  fun e failed => h e (except_map_error failed)

theorem mapM {f : α → Generated β} {xs : List α} (each : ∀ x ∈ xs, m.Accountable (f x)) :
    m.Accountable (xs.mapM f) := by
  intro e h
  obtain ⟨x, member, failed⟩ := except_mapM_error h
  exact each x member e failed

theorem foldlM {f : β → α → Generated β} {xs : List α}
    (each : ∀ x ∈ xs, ∀ b, m.Accountable (f b x)) (b : β) : m.Accountable (xs.foldlM f b) := by
  intro e h
  obtain ⟨_, x, _, c, split, _, failed⟩ := except_foldlM_error h
  exact each x (by simp [split]) c e failed

end Accountable

/-- The same of a step over a state, whatever the state. -/
def AccountableRun (m : Model) {σ α : Type} (f : StateT σ Generated α) : Prop :=
  ∀ s, m.Accountable (f s)

namespace AccountableRun

variable {m : Model} {σ α β : Type}

theorem succeeds {f : StateT σ Generated α} (h : ∀ s, ∃ r, f s = .ok r) : m.AccountableRun f := by
  intro s e failed
  obtain ⟨r, run⟩ := h s
  cases run.symm.trans failed

theorem pure (a : α) : m.AccountableRun (pure a : StateT σ Generated α) := fun _ => .ok _

theorem throw {e : GenerationError} (h : m.Accounts e) :
    m.AccountableRun (throw e : StateT σ Generated α) := fun _ => .error h

theorem bind {f : StateT σ Generated α} {g : α → StateT σ Generated β} (first : m.AccountableRun f)
    (rest : ∀ a, (∃ s t, f s = .ok (a, t)) → m.AccountableRun (g a)) :
    m.AccountableRun (f >>= g) := fun s =>
  (first s).bind fun r run => rest r.1 ⟨s, r.2, run⟩ r.2

theorem ask {x : Generated α} {g : α → StateT σ Generated β} (first : m.Accountable x)
    (rest : ∀ a, x = .ok a → m.AccountableRun (g a)) :
    m.AccountableRun ((liftM x : StateT σ Generated α) >>= g) := by
  refine bind (fun s => first.bind fun _ _ => .ok _) fun a run => rest a ?_
  obtain ⟨s, t, run⟩ := run
  exact (lift_ok run).1

theorem map {f : StateT σ Generated α} {g : α → β} (h : m.AccountableRun f) :
    m.AccountableRun (g <$> f) := fun s => (h s).map

theorem mapM {f : α → StateT σ Generated β} {xs : List α}
    (each : ∀ x ∈ xs, m.AccountableRun (f x)) : m.AccountableRun (xs.mapM f) := by
  intro s e h
  obtain ⟨x, member, t, failed⟩ := mapM_error h
  exact each x member t e failed

end AccountableRun

variable {m : Model} {p : Property} {c : Class}

/-! ### References -/

theorem lookUp_accountable {iri referrer : String} (cited : m.Cites iri referrer) :
    m.Accountable (m.lookUp iri referrer) := by
  unfold lookUp
  split
  · exact .ok _
  next absent =>
    refine .error ⟨?_, cited⟩
    rintro ⟨c, member, rfl⟩
    exact List.find?_eq_none.mp absent c member (beq_self_eq_true _)

theorem parent?_accountable (member : c ∈ m.classes) : m.Accountable (m.parent? c) := by
  unfold parent?
  split
  · exact .ok _
  next one => exact (lookUp_accountable (.parent member (by simp [one]))).map
  · exact .error ⟨c, member, rfl⟩

theorem ancestorsAbove_accountable {start : String} (here : m.HasClass start)
    (seen : List String) : ∀ c ∈ m.classes, m.Accountable (m.ancestorsAbove start seen c) := by
  induction seen using walk_induction m with
  | step seen ih =>
    intro c member
    rw [ancestorsAbove]
    refine (parent?_accountable member).bind fun parent above => ?_
    cases parent with
    | none => exact .ok _
    | some p =>
      dsimp only
      split
      next way => exact (ih p.iri way p (knows_mem (parent?_knows above))).bind fun _ _ => .ok _
      · exact .error here

theorem effectiveProperties_accountable (member : c ∈ m.classes) :
    m.Accountable (m.effectiveProperties c) :=
  (ancestorsAbove_accountable ⟨c, member, rfl⟩ _ c member).bind fun _ _ => .ok _

theorem addRoot_accountable {roots : List Class} {iri : String} (root : iri ∈ m.rootCandidates)
    (known : ∀ c ∈ roots, m.Knows c) : m.Accountable (m.addRoot roots iri) := by
  refine (lookUp_accountable (.root root)).bind fun c found => ?_
  split
  · exact .ok _
  · split
    next other same =>
      have former := known other (List.mem_of_find?_eq_some same)
      exact .error ⟨⟨c, knows_mem (lookUp_knows found).1, rfl⟩, other, knows_mem former, rfl⟩
    · exact .ok _

theorem rootClasses_accountable : m.Accountable m.rootClasses := by
  intro e h
  obtain ⟨before, iri, after, roots, split, run, failed⟩ := except_foldlM_error h
  have found := rootsOf_nil.foldlM run
  exact addRoot_accountable (by simp [split]) found.knows e failed

/-! ### Values -/

theorem candidate_accountable {t : DataType} (declared : m.Declares p) (member : t ∈ p.types) :
    m.Accountable (m.candidate p t) := by
  cases t with
  | primitive iri => exact .ok _
  | association target =>
    exact (lookUp_accountable (.value declared member)).bind fun _ _ => .ok _

theorem parentIn_accountable (candidates : List Class) (declared : m.Declares p)
    (member : c ∈ m.classes) : m.Accountable (m.parentIn p candidates c) := by
  refine (parent?_accountable member).bind fun parent above => ?_
  cases parent with
  | none => exact .ok _
  | some d =>
    dsimp only
    split
    · exact .ok _
    · have known := knows_mem (parent?_knows above)
      exact .error ⟨⟨p, declared, rfl⟩, ⟨c, member, rfl⟩, d, known, rfl⟩

theorem planChoice_accountable {candidates : List Class} (declared : m.Declares p)
    (known : ∀ c ∈ candidates, c ∈ m.classes) : m.Accountable (m.planChoice p candidates) := by
  have each := Accountable.mapM fun c member =>
    parentIn_accountable candidates declared (known c member)
  refine each.bind fun parents _ => ?_
  dsimp only
  split <;> exact .ok _

theorem shapeOf_accountable (declared : m.Declares p) : m.Accountable (m.shapeOf p) := by
  unfold shapeOf
  dsimp only
  split
  · exact .error ⟨p, declared, rfl⟩
  · have each := Accountable.mapM fun t (member : t ∈ p.types) =>
      candidate_accountable declared member
    refine each.bind fun candidates read => ?_
    have known := candidates_describable read
    split
    · exact .ok _
    · exact (planChoice_accountable declared fun c member => knows_mem (known c member).1).map
    · exact .ok _
    · exact .error ⟨p, declared, rfl⟩

theorem shapeOf_knows {shape : Shape} (h : m.shapeOf p = .ok shape) :
    ∀ c ∈ shape.targets, c ∈ m.classes := fun _ member =>
  knows_mem (Targets.knows ⟨shape, h, member⟩)

theorem spliceTarget_accountable (declared : m.Declares p) : m.Accountable (m.spliceTarget p) := by
  refine (shapeOf_accountable declared).bind fun shape _ => ?_
  split
  · split
    · exact .error ⟨p, declared, rfl⟩
    · exact .ok _
  · exact .error ⟨p, declared, rfl⟩

theorem spliceTarget_knows (h : m.spliceTarget p = .ok c) : c ∈ m.classes :=
  knows_mem (spliceTarget_ok h).1.1

theorem only_accountable (declared : m.Declares p) (ps : List Primitive) :
    m.Accountable (Primitive.only p ps) := by
  unfold Primitive.only
  split
  · exact .ok _
  · exact .error ⟨p, declared, rfl⟩

/-! ### Walks -/

/-- A class that the walk has not come from can be entered, so the walk never takes a class of the
model for an unknown one. -/
theorem followSplices_accountable (path : List String) : ∀ done, ∀ c ∈ m.classes, c.iri ∉ path →
    m.Accountable (m.followSplices path done c) := by
  induction path using walk_induction m with
  | step path ih =>
    intro done c member new
    have way := canEnter_of_mem member new
    rw [followSplices_eq, if_pos way]
    split
    · exact .ok _
    · refine (effectiveProperties_accountable member).bind fun ps own => ?_
      refine Accountable.bind ?_ fun _ _ => .ok _
      refine Accountable.foldlM (fun p among done => ?_) done
      have declared := effectiveProperties_declares member own p (List.mem_of_mem_filter among)
      refine (spliceTarget_accountable declared).bind fun d target => ?_
      by_cases old : (c.iri :: path).contains d.iri = true
      · rw [if_pos old]
        exact .error ⟨p, declared, rfl⟩
      · rw [if_neg old]
        exact ih c.iri way done d (spliceTarget_knows target) fun among =>
          old (List.contains_iff_mem.mpr among)

theorem checkSplicing_accountable : m.Accountable m.checkSplicing := by
  refine Accountable.bind ?_ fun _ _ => .ok _
  refine Accountable.foldlM (fun c member done => ?_) []
  exact followSplices_accountable [] done c member (List.not_mem_nil)

theorem successors_accountable (member : c ∈ m.classes) : m.Accountable (m.successors c) := by
  refine (parent?_accountable member).bind fun parent _ => ?_
  refine Accountable.bind (.mapM fun p declared => ?_) fun _ _ => .ok _
  exact shapeOf_accountable ⟨c, member, declared⟩

theorem walk_accountable (path : List String) : ∀ done, ∀ c ∈ m.classes,
    m.Accountable (m.walk path done c) := by
  induction path using walk_induction m with
  | step path ih =>
    intro done c member
    rw [walk_eq]
    split
    · exact .ok _
    · split
      next way =>
        refine (successors_accountable member).bind fun next found => ?_
        refine Accountable.bind ?_ fun _ _ => .ok _
        refine Accountable.foldlM (fun d among done => ?_) done
        exact ih c.iri way done d (knows_mem ((mem_successors found).mp among).knows)
      · exact .error ⟨c, member, rfl⟩

theorem checkAcyclic_accountable : m.Accountable m.checkAcyclic := by
  rw [checkAcyclic_eq]
  refine Accountable.bind ?_ fun _ _ => .ok _
  refine Accountable.foldlM (fun iri root done => ?_) []
  refine (lookUp_accountable (.root root)).bind fun c found => ?_
  exact walk_accountable [] done c (knows_mem (lookUp_knows found).1)

theorem resolve_accountable (o : Import.Outlook) (member : c ∈ m.classes) :
    m.Accountable (o.resolve m c) := by
  unfold Import.Outlook.resolve
  dsimp only
  split
  · exact .ok _
  · split
    · exact .error ⟨c, member, rfl⟩
    · exact .ok _

end Model

end RdfXmlMapping
