import Mathlib
import RdfXmlMapping.Model.Build
import RdfXmlMapping.Proofs.Model.Circles
import RdfXmlMapping.Proofs.Query.Growth
import RdfXmlMapping.Proofs.Unbounded

/-!
Which models have a query, and that their classes can be described without looking back:
`accepted_iff`. A description that does not ask on which way it came to a class may go on forever;
where no circle of classes is found it ends, with the outcome of the one that asks.
-/

namespace RdfXmlMapping.Query

open Relation (ReflTransGen TransGen)

variable {m : Model} {c d : Class} {p : Property} {path : List String} {v : Nat} {flag : Bool}
  {s : Progress} {e : GenerationError}

variable (m) in
/-- The condition that describes an instance of a class, made without a path of classes that have
been entered. -/
def expandFreely (subject : Nat) (typeIsOptional : Bool) (c : Class) :
    Unbounded Progress GenerationError (List Pattern) := do
  let again : Nat → Bool → Class → Unbounded Progress GenerationError (List Pattern) := by
    apply expandFreely
  let type ← ended (typePatterns subject typeIsOptional c)
  let properties ← (← ended (liftM (m.effectiveProperties c))).mapM fun p => do
    let shape ← ended (liftM (m.shapeOf p))
    ended (liftM (refuseReversePrimitive p shape))
    let (value, edge) ← ended (propertyTriple subject p)
    let described ← match shape with
      | .primitive _ => pure []
      | .single target => again value true target
      | .choice plan => do
        let branches ← plan.candidates.mapM (again value (plan.candidates.length = 1))
        pure [.union branches]
    let group := edge :: described
    return if p.isOptional then [.optional group] else group
  return type ++ properties.flatten
partial_fixpoint

/-- A reverse property whose values are literals. -/
def ReverseLiteral (m : Model) (p : Property) : Prop :=
  p.isReverse ∧ ∃ ps, m.shapeOf p = .ok (.primitive ps)

/-- The classes on the path lead to the one that is described. -/
def Passed (m : Model) (path : List String) (c : Class) : Prop :=
  ∀ iri ∈ path, ∃ e, m.Knows e ∧ e.iri = iri ∧ TransGen m.LeadsTo e c

/-! ### Descriptions that end -/

theorem Passed.canEnter (passed : Passed m path c) (walked : m.Walked c) (known : m.Knows c) :
    m.canEnter path c.iri := by
  apply Model.canEnter_of_knows known
  intro old
  obtain ⟨e, known', same, steps⟩ := passed c.iri old
  obtain rfl := Model.knows_eq known' known same
  exact walked.irrefl steps

theorem Passed.step (passed : Passed m path c) (known : m.Knows c)
    (steps : TransGen m.LeadsTo c d) : Passed m (c.iri :: path) d := by
  intro iri member
  rcases List.mem_cons.mp member with rfl | member
  · exact ⟨c, known, rfl, steps⟩
  · obtain ⟨e, known', same, before⟩ := passed iri member
    exact ⟨e, known', same, before.trans steps⟩

theorem expandFreely_ended (path : List String) : ∀ v flag c, m.Walked c → m.Knows c →
    Passed m path c → expandFreely m v flag c = ended (classPatterns m path v flag c) := by
  induction path using Model.walk_induction m with
  | step path ih =>
    intro v flag c walked known passed
    have way := passed.canEnter walked known
    rw [expandFreely, classPatterns, dif_pos way]
    apply ended_bind_of
    intro type
    apply ended_lift_bind
    intro ps own
    have follows (p : Property) (member : p ∈ ps) (shape : Shape) (read : m.shapeOf p = .ok shape)
        (d : Class) (target : d ∈ shape.targets) (v : Nat) (flag : Bool) :
        expandFreely m v flag d = ended (classPatterns m (c.iri :: path) v flag d) := by
      have step : m.Expands c d := ⟨ps, own, p, member, shape, read, target⟩
      obtain ⟨walked', steps⟩ := walked.expands known step
      exact ih c.iri way v flag d walked' step.knows (passed.step known steps)
    refine (congrArg (· >>= _) (ended_mapM fun p member => ?_)).trans (ended_bind_of fun _ => rfl)
    apply ended_lift_bind
    intro shape read
    apply ended_lift_bind
    intro _ _
    apply ended_bind_of
    rintro ⟨value, edge⟩
    have each := follows p member shape read
    cases shape with
    | primitive _ => rfl
    | single target =>
      have described := each target (List.mem_singleton.mpr rfl) value true
      dsimp only
      rw [described]
      exact ended_bind_of fun _ => rfl
    | choice plan =>
      have described := ended_mapM fun d (member : d ∈ plan.candidates) =>
        each d member value (plan.candidates.length = 1)
      dsimp only
      rw [described]
      exact ended_bind_of fun _ => rfl

/-! ### Why a description fails -/

theorem refuseReversePrimitive_error {shape : Shape} (read : m.shapeOf p = .ok shape)
    (h : refuseReversePrimitive p shape = .error e) :
    ReverseLiteral m p ∧ e = .reversePrimitive p.iri := by
  cases shape with
  | primitive ps =>
    unfold refuseReversePrimitive at h
    dsimp only at h
    split at h
    next reverse =>
      obtain rfl := Except.error.inj h
      exact ⟨⟨reverse, ps, read⟩, rfl⟩
    next => cases h
  | single _ => cases h
  | choice _ => cases h

theorem refuseReversePrimitive_ok {shape : Shape} (read : m.shapeOf p = .ok shape)
    (h : refuseReversePrimitive p shape = .ok ()) : ¬ ReverseLiteral m p := by
  rintro ⟨reverse, ps, read'⟩
  obtain rfl := Except.ok.inj (read.symm.trans read')
  simp [refuseReversePrimitive, reverse] at h

/-- The error names a property that the query cannot state: one with literals as subjects, which a
class declares to which the described one leads. -/
def Refused (m : Model) (c : Class) (e : GenerationError) : Prop :=
  ∃ d, ReflTransGen m.LeadsTo c d ∧ ∃ p ∈ d.properties, ReverseLiteral m p ∧
    e = .reversePrimitive p.iri

theorem classPatterns_error (path : List String) : ∀ v flag c s, m.Walked c → m.Knows c →
    Passed m path c → classPatterns m path v flag c s = .error e → Refused m c e := by
  induction path using Model.walk_induction m with
  | step path ih =>
    intro v flag c s walked known passed h
    have way := passed.canEnter walked known
    rw [classPatterns, dif_pos way] at h
    obtain ⟨⟨type, s₁⟩, typed⟩ := typePatterns_succeeds v flag c s
    rw [bind_of_ok typed] at h
    obtain ⟨ps, own, among⟩ := walked.climbs.effectiveProperties known
    rw [own, lift_ok_bind] at h
    -- What the target of a property is refused for is declared further on.
    have further {p : Property} (member : p ∈ ps) {shape : Shape}
        (read : m.shapeOf p = .ok shape) {d : Class} (target : d ∈ shape.targets) {v : Nat}
        {flag : Bool} {s : Progress}
        (h : classPatterns m (c.iri :: path) v flag d s = .error e) : Refused m c e := by
      have step : m.Expands c d := ⟨ps, own, p, member, shape, read, target⟩
      obtain ⟨walked', steps⟩ := walked.expands known step
      obtain ⟨x, onward, rest⟩ :=
        ih c.iri way v flag d s walked' step.knows (passed.step known steps) h
      exact ⟨x, steps.to_reflTransGen.trans onward, rest⟩
    rcases bind_error h with h | ⟨_, _, _, h⟩
    · obtain ⟨p, member, s₂, h⟩ := mapM_error h
      obtain ⟨x, above, declared⟩ := (among p).mp member
      obtain ⟨shape, read⟩ := (walked.reaches (Model.parents_lead above)).shape declared
      rw [read, lift_ok_bind] at h
      rcases bind_error h with h | ⟨_, s₃, _, h⟩
      · obtain ⟨literal, rfl⟩ := refuseReversePrimitive_error read (lift_error h)
        exact ⟨x, Model.parents_lead above, p, declared, literal, rfl⟩
      · obtain ⟨⟨⟨value, edge⟩, s₄⟩, led⟩ := propertyTriple_succeeds v p s₃
        rw [bind_of_ok led] at h
        cases shape with
        | primitive _ => cases h
        | single target =>
          rcases bind_error h with h | ⟨_, _, _, h⟩
          · exact further member read (List.mem_singleton.mpr rfl) h
          · cases h
        | choice plan =>
          rcases bind_error h with h | ⟨_, _, _, h⟩
          · obtain ⟨d, candidate, _, h⟩ := mapM_error h
            exact further member read candidate h
          · cases h
    · cases h

/-! ### What a description shows -/

/-- The class has been described somewhere in a query. -/
def Described (m : Model) (c : Class) : Prop :=
  ∃ path v flag s r, classPatterns m path v flag c s = .ok r

theorem Described.properties (h : Described m c) : ∃ ps, m.effectiveProperties c = .ok ps ∧
    ∀ p ∈ ps, ¬ ReverseLiteral m p ∧ ∀ d, m.Targets p d → Described m d := by
  obtain ⟨path, v, flag, s, ⟨groups, t⟩, h⟩ := h
  obtain ⟨_, type, s₁, ps, out, _, own, each, _⟩ := classPatterns_ok h
  refine ⟨ps, own, fun p member => ?_⟩
  have all := runs_forall₂ (R := fun p _ => ¬ ReverseLiteral m p ∧
    ∀ d, m.Targets p d → Described m d) each fun p _ group u w h => by
      obtain ⟨shape, value, edge, u₃, content, read, allowed, _, followed, _⟩ :=
        propertyPatterns_ok h
      refine ⟨refuseReversePrimitive_ok read allowed, ?_⟩
      rintro d ⟨shape', read', target⟩
      obtain rfl := Except.ok.inj (read.symm.trans read')
      cases shape with
      | primitive _ => cases target
      | single c =>
        obtain rfl := List.mem_singleton.mp target
        exact ⟨_, _, _, _, _, followed⟩
      | choice plan =>
        obtain ⟨branches, candidates, _⟩ := valuePatterns_choice_ok followed
        have made := runs_forall₂ (R := fun d _ => Described m d) candidates
          fun d _ group u w run => ⟨_, _, _, _, _, run⟩
        exact (forall₂_mem_left made target).elim fun _ found => found.2
  exact (forall₂_mem_left all member).elim fun _ found => found.2

/-- Once a class is described, so are all that it leads to, or heirs of them. -/
theorem Described.reaches (h : Described m c) (walked : m.Walked c) (known : m.Knows c)
    (steps : ReflTransGen m.LeadsTo c d) :
    ∃ heir, Described m heir ∧ m.Walked heir ∧ m.Knows heir ∧ ReflTransGen m.ParentOf heir d := by
  induction steps with
  | refl => exact ⟨c, h, walked, known, .refl⟩
  | @tail d x _ last ih =>
    obtain ⟨heir, described, walked, known, above⟩ := ih
    rcases last with parent | ⟨p, declared, target⟩
    · exact ⟨heir, described, walked, known, above.tail parent⟩
    · obtain ⟨ps, own, among⟩ := walked.climbs.effectiveProperties known
      obtain ⟨ps', own', each⟩ := described.properties
      obtain rfl := Except.ok.inj (own.symm.trans own')
      have member := (among p).mpr ⟨d, above, declared⟩
      have step : m.Expands heir x := ⟨ps, own, p, member, target⟩
      exact ⟨x, (each p member).2 x target, (walked.expands known step).1, target.knows, .refl⟩

theorem Described.allowed (h : Described m c) (walked : m.Walked c) (known : m.Knows c)
    (steps : ReflTransGen m.LeadsTo c d) : ∀ p ∈ d.properties, ¬ ReverseLiteral m p := by
  intro p declared
  obtain ⟨heir, described, walked', known', above⟩ := h.reaches walked known steps
  obtain ⟨ps, own, among⟩ := walked'.climbs.effectiveProperties known'
  obtain ⟨ps', own', each⟩ := described.properties
  obtain rfl := Except.ok.inj (own.symm.trans own')
  exact (each p ((among p).mpr ⟨d, above, declared⟩)).1

/-! ### Roots -/

theorem lookUp_of_find? {iri referrer : String} (found : m.find? iri = some c) :
    m.lookUp iri referrer = .ok c := by
  rw [Model.lookUp, found]

theorem rootPatterns_error {group : List String}
    (found : ∀ iri ∈ group, ∃ c, m.find? iri = some c)
    (h : rootPatterns m group s = .error e) :
    ∃ iri ∈ group, ∃ c, m.find? iri = some c ∧
      ∃ v flag t, classPatterns m [] v flag c t = .error e := by
  unfold rootPatterns at h
  rcases bind_error h with h | ⟨v, s₁, _, h⟩
  · cases h
  rcases bind_error h with h | ⟨candidates, s₂, looked, h⟩
  · obtain ⟨iri, member, _, h⟩ := mapM_error h
    obtain ⟨c, found⟩ := found iri member
    have missing := lift_error h
    rw [lookUp_of_find? found] at missing
    cases missing
  have each := (runs_lift (mapM_ok looked)).1
  have named {c : Class} (member : c ∈ candidates) : ∃ iri ∈ group, m.find? iri = some c := by
    obtain ⟨iri, among, read⟩ := forall₂_mem_right each member
    obtain ⟨c', found⟩ := found iri among
    rw [lookUp_of_find? found] at read
    exact ⟨iri, among, Except.ok.inj read ▸ found⟩
  match candidates, h with
  | [c], h =>
    obtain ⟨iri, member, found⟩ := named List.mem_cons_self
    exact ⟨iri, member, c, found, v, false, s₂, h⟩
  | [], h => rcases bind_error h with h | ⟨_, _, _, h⟩ <;> cases h
  | c :: d :: rest, h =>
    rcases bind_error h with h | ⟨_, _, _, h⟩
    · obtain ⟨x, member, t, h⟩ := mapM_error h
      obtain ⟨iri, among, found⟩ := named member
      exact ⟨iri, among, x, found, v, _, t, h⟩
    · cases h

theorem rootPatterns_described {group : List String} {r : List Pattern × Progress}
    (h : rootPatterns m group s = .ok r) :
    ∀ iri ∈ group, ∀ c, m.find? iri = some c → Described m c := by
  intro iri among c found
  obtain ⟨candidates, each, described⟩ := rootPatterns_ok h
  obtain ⟨x, member, found'⟩ := forall₂_mem_left each among
  obtain rfl := Option.some.inj (found.symm.trans found')
  obtain ⟨d, rfl, made⟩ | ⟨_, branches, followed, _⟩ := described
  · obtain rfl := List.mem_singleton.mp member
    exact ⟨_, _, _, _, _, made⟩
  · have made := runs_forall₂ (R := fun d _ => Described m d) followed
      fun d _ group u w run => ⟨_, _, _, _, _, run⟩
    exact (forall₂_mem_left made member).elim fun _ found => found.2

theorem modelPatterns_error (found : ∀ iri ∈ m.rootCandidates, ∃ c, m.find? iri = some c)
    (h : modelPatterns m s = .error e) :
    ∃ c, m.Entry c ∧ ∃ v flag t, classPatterns m [] v flag c t = .error e := by
  unfold modelPatterns at h
  rcases bind_error h with h | ⟨branches, s₁, _, h⟩
  · obtain ⟨group, member, t, h⟩ := mapM_error h
    have candidate {iri : String} (among : iri ∈ group) : iri ∈ m.rootCandidates :=
      List.mem_flatten_of_mem member among
    obtain ⟨iri, among, c, found, failed⟩ :=
      rootPatterns_error (fun iri among => found iri (candidate among)) h
    exact ⟨c, ⟨iri, candidate among, found⟩, failed⟩
  · split at h <;> cases h

theorem modelPatterns_described {r : List Pattern × Progress} (h : modelPatterns m s = .ok r) :
    ∀ c, m.Entry c → Described m c := by
  rintro c ⟨iri, candidate, found⟩
  obtain ⟨group, member, among⟩ := List.mem_flatten.mp candidate
  unfold modelPatterns at h
  obtain ⟨branches, s₁, each, _⟩ := bind_ok h
  have made := runs_forall₂
    (R := fun group _ => ∀ iri ∈ group, ∀ c, m.find? iri = some c → Described m c)
    (mapM_ok each) fun group _ _ _ _ run => rootPatterns_described run
  obtain ⟨_, _, all⟩ := forall₂_mem_left made member
  exact all iri among c found

theorem entry_walked (acyclic : m.checkAcyclic = .ok ()) (entry : m.Entry c) : m.Walked c := by
  obtain ⟨iri, candidate, found⟩ := entry
  obtain ⟨c', found', walked⟩ := Model.checkAcyclic_walked acyclic iri candidate
  obtain rfl := Option.some.inj (found.symm.trans found')
  exact walked

theorem passed_nil : Passed m [] c := fun _ member => by cases member

theorem ofModel_refused (acyclic : m.checkAcyclic = .ok ()) (h : ofModel m = .error e) :
    ∃ c, m.Reachable c ∧ ∃ p ∈ c.properties, ReverseLiteral m p ∧ e = .reversePrimitive p.iri := by
  unfold ofModel at h
  rw [acyclic] at h
  rcases except_bind_error h with h | ⟨_, _, h⟩
  · cases h
  rcases except_bind_error h with h | ⟨_, _, h⟩
  · have found (iri : String) (member : iri ∈ m.rootCandidates) : ∃ c, m.find? iri = some c := by
      obtain ⟨c, found, _⟩ := Model.checkAcyclic_walked acyclic iri member
      exact ⟨c, found⟩
    obtain ⟨c, entry, v, flag, t, failed⟩ := modelPatterns_error found h
    obtain ⟨d, steps, rest⟩ :=
      classPatterns_error [] v flag c t (entry_walked acyclic entry) entry.knows passed_nil failed
    have sub : m.LeadsTo ≤ m.RefersTo := fun _ _ => Model.LeadsTo.refers
    exact ⟨d, ⟨c, entry, ReflTransGen.mono sub c d steps⟩, rest⟩
  · cases h

/-- A model has a query if and only if its classes lead in no circle and no class that can be
reached declares a reverse property with literals. Where they lead in no circle, every description
of a root ends, and only such a property is refused; where they do, a description of some root would
go on forever, or the ancestors of a class that can be reached go in a circle. -/
theorem accepted_iff (m : Model) :
    ((∃ q, ofModel m = .ok q) ↔ m.checkAcyclic = .ok () ∧
      ∀ c, m.Reachable c → ∀ p ∈ c.properties, ¬ ReverseLiteral m p) ∧
    (m.checkAcyclic = .ok () →
      (∀ c, m.Entry c → ∀ v flag s, ∃ outcome, expandFreely m v flag c s = some outcome ∧
        classPatterns m [] v flag c s = outcome) ∧
      ∀ e, ofModel m = .error e → ∃ c, m.Reachable c ∧ ∃ p ∈ c.properties, ReverseLiteral m p ∧
        e = .reversePrimitive p.iri) ∧
    ∀ iri, m.checkAcyclic = .error (.recursiveModel iri) →
      (∃ f : Nat → Class, m.Entry (f 0) ∧ ∀ n, m.Expands (f n) (f (n + 1))) ∨
        ∃ c, m.Reachable c ∧ TransGen m.ParentOf c c := by
  refine ⟨⟨fun ⟨q, h⟩ => ?_, fun ⟨acyclic, allowed⟩ => ?_⟩,
    fun acyclic => ⟨?_, fun e => ofModel_refused acyclic⟩, fun iri => Model.circle_of_recursive⟩
  · obtain ⟨_, acyclic, h⟩ := except_bind_ok h
    obtain ⟨_, made, _⟩ := except_bind_ok h
    refine ⟨acyclic, ?_⟩
    rintro c ⟨r, entry, steps⟩
    have walked := entry_walked acyclic entry
    exact (modelPatterns_described made r entry).allowed walked entry.knows (walked.refers steps)
  · cases run : ofModel m with
    | ok q => exact ⟨q, rfl⟩
    | error e =>
      obtain ⟨c, reachable, p, declared, literal, _⟩ := ofModel_refused acyclic run
      exact absurd literal (allowed c reachable p declared)
  · intro c entry v flag s
    have walked := entry_walked acyclic entry
    rw [expandFreely_ended [] v flag c walked entry.knows passed_nil]
    exact ⟨_, rfl, rfl⟩

/-- An employee has an employer as any person does, and the employer is led by an employee. -/
def staff : Model :=
  (Model.make "staff" "work").rootedAt ["Employee"]
    |>.declaring ((Class.make "Employee" "Employee").extending "Person")
    |>.declaring ((Class.make "Person" "Person").declaring
      ((Property.make "employer" "https://ex.org/employer").association "Company"))
    |>.declaring ((Class.make "Company" "Company").declaring
      ((Property.make "leader" "https://ex.org/leader").association "Employee"))

theorem accepted_iff_staff : staff.checkAcyclic = .error (.recursiveModel "Employee") ∧
    ((∃ f : Nat → Class, staff.Entry (f 0) ∧ ∀ n, staff.Expands (f n) (f (n + 1))) ∨
      ∃ c, staff.Reachable c ∧ TransGen staff.ParentOf c c) ∧
    ¬ ∃ q, ofModel staff = .ok q := by
  have refused : staff.checkAcyclic = .error (.recursiveModel "Employee") := by cbv
  obtain ⟨accepted, _, circles⟩ := accepted_iff staff
  refine ⟨refused, circles "Employee" refused, fun h => ?_⟩
  have acyclic := (accepted.mp h).1
  rw [refused] at acyclic
  cases acyclic

end RdfXmlMapping.Query
