import RdfXmlMapping.Proofs.Schema.Outline

/-!
When a model has a schema. Nothing but the model decides that: the properties of all classes that
the roots lead to must fit a schema, wherever in it their content is put.
-/

namespace RdfXmlMapping

namespace Model

/-- A class whose instances a schema describes among the values of a property. -/
inductive Needs (m : Model) (p : Property) : Class → Prop
  | single {d : Class} : m.shapeOf p = .ok (.single d) → Needs m p d
  | root {plan : ChoicePlan} {root : Class} {derived : List Derivation} :
      m.shapeOf p = .ok (.choice plan) → plan.base = .rooted root derived → Needs m p root
  | derived {plan : ChoicePlan} {d : Derivation} :
      m.shapeOf p = .ok (.choice plan) → d ∈ plan.derived → Needs m p d.cls

/-- A class that a schema describes: one that the roots lead to over values and parents. -/
inductive Reached (m : Model) : Class → Prop
  | root {roots : List Class} {c : Class} : m.rootClasses = .ok roots → c ∈ roots → Reached m c
  | parent {c d : Class} : Reached m c → m.parent? c = .ok (some d) → Reached m d
  | value {c d : Class} {ps : List Property} {p : Property} : Reached m c →
      m.effectiveProperties c = .ok ps → p ∈ ps → Needs m p d → Reached m d

/-- A property that a schema can describe. -/
inductive Fits (m : Model) (p : Property) : Prop
  | spliced {d : Class} : p.isSpliced → m.spliceTarget p = .ok d → Fits m p
  | plain {primitives : List Primitive} : p.isSpliced = false →
      m.shapeOf p = .ok (.primitive primitives) → p.isReverse = false → Fits m p
  | single {d : Class} : p.isSpliced = false → m.shapeOf p = .ok (.single d) → Fits m p
  | choice {plan : ChoicePlan} : p.isSpliced = false → m.shapeOf p = .ok (.choice plan) → Fits m p

/-- A class whose properties can be collected and described. -/
def Describes (m : Model) (c : Class) : Prop :=
  ∃ ps, m.effectiveProperties c = .ok ps ∧ ∀ p ∈ ps, m.Fits p

variable {m : Model} {p : Property} {c d : Class}

theorem Needs.describable (h : m.Needs p c) : m.Describable c := by
  cases h with
  | single read => exact shapeOf_leads read
  | root read base =>
    obtain ⟨each, grounded⟩ := shapeOf_leads read
    rw [ChoicePlan.Grounded, base] at grounded
    exact each _ grounded.1
  | derived read member =>
    obtain ⟨each, grounded⟩ := shapeOf_leads read
    exact each _ (grounded.candidate _ member)

theorem Needs.knows (h : m.Needs p c) : m.Knows c := h.describable.1

theorem needs_primitive {vs : List Primitive} (read : m.shapeOf p = .ok (.primitive vs)) :
    ¬ m.Needs p c
  | .single read' | .root read' _ | .derived read' _ => by cases read.symm.trans read'

theorem needs_single (read : m.shapeOf p = .ok (.single d)) : m.Needs p c ↔ c = d := by
  constructor
  · intro h
    cases h with
    | single read' => exact Shape.single.inj (Except.ok.inj (read'.symm.trans read))
    | root read' _ | derived read' _ => cases read.symm.trans read'
  · rintro rfl
    exact .single read

theorem needs_choice {plan : ChoicePlan} (read : m.shapeOf p = .ok (.choice plan)) :
    m.Needs p c ↔ ∃ root derived, plan.base = .rooted root derived ∧
      (c = root ∨ ∃ d ∈ derived, d.cls = c) := by
  constructor
  · intro h
    cases h with
    | single read' => cases read.symm.trans read'
    | root read' base =>
      obtain rfl := Shape.choice.inj (Except.ok.inj (read.symm.trans read'))
      exact ⟨c, _, base, .inl rfl⟩
    | @derived plan d read' member =>
      obtain rfl := Shape.choice.inj (Except.ok.inj (read.symm.trans read'))
      rw [ChoicePlan.derived] at member
      split at member
      next base => exact ⟨_, _, base, .inr ⟨d, member, rfl⟩⟩
      next => cases member
  · rintro ⟨root, derived, base, rfl | ⟨d, member, rfl⟩⟩
    · exact .root read base
    · exact .derived read (by rwa [ChoicePlan.derived, base])

theorem Reached.knows (h : m.Reached c) : m.Knows c := by
  cases h with
  | root found member => exact rootClasses_knows found c member
  | parent _ found => exact parent?_knows found
  | value _ _ _ needed => exact needed.knows

end Model

namespace Schema

variable {s : Source} {schema : Schema} {x : Plan} {final : Progress} {c d : Class} {p : Property}

/-! ### What a schema contains -/

theorem member_forward {path chain : List String} {content : List Particle}
    {before after : Progress}
    (h : x.member path chain p before = .ok (content, after)) (inPlace : p.isSpliced = false)
    {primitives : List Primitive} (read : x.model.shapeOf p = .ok (.primitive primitives)) :
    p.isReverse = false := by
  rw [Plan.member, inPlace, read] at h
  refine Bool.eq_false_iff.mpr fun reverse => ?_
  rw [reverse] at h
  cases h

theorem Placed.fits {path chain : List String} {content : List Particle}
    (h : Placed x final path chain p content) : x.model.Fits p := by
  obtain ⟨before, after, run, _⟩ := h
  cases member_ok run with
  | spliced spliced target _ _ _ => exact .spliced spliced target
  | plain inPlace read _ => exact .plain inPlace read (member_forward run inPlace read)
  | typed inPlace read _ | grouped inPlace read _ _ | nested inPlace read _ _ =>
    exact .single inPlace read
  | choice inPlace read _ => exact .choice inPlace read

/-- All properties of a class have been put somewhere in the schema. -/
def Covers (x : Plan) (final : Progress) (c : Class) : Prop :=
  ∃ ps, x.model.effectiveProperties c = .ok ps ∧
    ∀ p ∈ ps, ∃ path chain content, Placed x final path chain p content

theorem Composed.covers {ps : List Property} {content : List Particle}
    (h : Composed x final ps content) (found : x.model.effectiveProperties c = .ok ps) :
    Covers x final c := by
  obtain ⟨parts, _, placed⟩ := h
  refine ⟨ps, found, fun p member => ?_⟩
  obtain ⟨part, _, _, path, chain, made⟩ := forall₂_mem_left placed member
  exact ⟨path, chain, part, made⟩

theorem Filled.covers {path : List String} {content : List Particle} (known : x.model.Knows c)
    (h : Filled x final path c content) : Covers x final c := by
  obtain ⟨_, found, composed⟩ := h.composed known
  exact composed.covers found

theorem Covers.parent (h : Covers x final c) (parent : x.model.parent? c = .ok (some d)) :
    Covers x final d := by
  obtain ⟨ps, found, placed⟩ := h
  obtain ⟨inherited, above, rfl⟩ := Model.effectiveProperties_parent found parent
  exact ⟨inherited, above, fun p member => placed p (List.mem_append_left _ member)⟩

/-- Where a schema refers to the type of a class, it has the whole class. -/
def History.TypesCovered (o : History s schema) : Prop :=
  ∀ c q, ClassType o.plan o.final c q → Covers o.plan o.final c

theorem History.types_covered (o : History s schema) (own : o.plan.model.SelfContained)
    (collects : ∀ c, o.plan.model.Knows c → ∃ ps, o.plan.model.effectiveProperties c = .ok ps) :
    o.TypesCovered := by
  intro c q named
  cases named with
  | imported known resolved _ _ =>
    exact absurd (Import.Outlook.resolve_some resolved)
      (Bool.eq_false_iff.mp (own c (Model.knows_mem known)))
  | own owned requested =>
    obtain ⟨ps, found⟩ := collects c owned.1
    obtain ⟨_, _, composed⟩ := o.type_composed own found owned requested
    exact composed.covers found

theorem History.root_covered (o : History s schema) (types : o.TypesCovered) {e : Declaration}
    (declared : RootDeclared o.plan o.final c e) (known : o.plan.model.Knows c) :
    Covers o.plan o.final c := by
  cases declared with
  | typed named => exact types c _ named
  | grouped owned requested =>
    obtain ⟨_, _, found, _, composed⟩ := o.group_composed owned requested
    exact composed.covers found
  | whole filled => exact filled.covers known

theorem History.needs_covered (o : History s schema) (types : o.TypesCovered)
    {path chain : List String} {content : List Particle}
    (placed : Placed o.plan o.final path chain p content) (needed : o.plan.model.Needs p d) :
    Covers o.plan o.final d := by
  have known := needed.knows
  obtain ⟨before, after, run, grows⟩ := placed
  cases member_ok run with
  | @spliced e ps _ _ _ _ target _ found run =>
    obtain rfl := (Model.needs_single (Model.spliceTarget_single target).1).mp needed
    have declared := Model.effectiveProperties_declares (Model.knows_mem known) found
    have ran : Ran o.plan o.final path (d.iri :: chain) ps _ := ⟨_, _, run, grows⟩
    exact (ran.composed declared).covers found
  | plain _ read _ => exact absurd needed (Model.needs_primitive read)
  | typed _ read run =>
    obtain rfl := (Model.needs_single read).mp needed
    exact types _ _ ((typeOf_step known run).2.mono grows)
  | grouped _ read resolved run =>
    obtain rfl := (Model.needs_single read).mp needed
    have owned : o.plan.model.Owns d := ⟨known, Import.Outlook.resolve_none resolved⟩
    obtain ⟨_, requested, _⟩ := requestGroup_class owned run
    obtain ⟨_, _, found, _, composed⟩ := o.group_composed owned (grows.requested requested)
    exact composed.covers found
  | nested _ read _ run =>
    obtain rfl := (Model.needs_single read).mp needed
    exact (members_filled run grows).covers known
  | choice _ read run =>
    obtain ⟨describable, grounded⟩ := Model.shapeOf_leads read
    obtain ⟨root, derived, base, rfl | ⟨e, member, rfl⟩⟩ := (Model.needs_choice read).mp needed
    · obtain ⟨_, named, _⟩ := rootedType_step describable grounded base run
      exact types _ _ (named.mono grows)
    · obtain ⟨_, _, others⟩ := rootedType_step describable grounded base run
      obtain ⟨q, named⟩ := others e member
      exact types _ q (named.mono grows)

theorem History.reached_covered (o : History s schema) (types : o.TypesCovered)
    (h : o.plan.model.Reached c) : Covers o.plan o.final c := by
  induction h with
  | root found member =>
    have known := Model.rootClasses_knows found _ member
    rw [o.model] at found
    obtain ⟨_, _, declared⟩ := forall₂_mem_left (o.roots_declared found) member
    exact o.root_covered types declared known
  | parent _ found ih => exact ih.parent found
  | value _ found member needed ih =>
    obtain ⟨ps, found', placed⟩ := ih
    obtain rfl := Except.ok.inj (found.symm.trans found')
    obtain ⟨_, _, _, made⟩ := placed _ member
    exact o.needs_covered types made needed

end Schema

end RdfXmlMapping
