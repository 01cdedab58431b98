import Mathlib.Logic.Relation
import RdfXmlMapping.Model.Recursion
import RdfXmlMapping.Proofs.Model.Splicing

/-!
Which classes a class leads to: its parent, and the classes whose instances are values of its
properties. An ancestry that ends can be collected: `Climbs.effectiveProperties`.
-/

namespace RdfXmlMapping.Model

open Relation (ReflTransGen TransGen)

variable {m : Model} {c d e : Class} {p : Property} {next : List Class}

def ParentOf (m : Model) (c d : Class) : Prop := m.parent? c = .ok (some d)

/-- Instances of `d` are among the values that the property asks for. -/
def Associates (m : Model) (p : Property) (d : Class) : Prop :=
  ∃ iri, DataType.association iri ∈ p.types ∧ m.find? iri = some d ∧ d.isCodelist = false

/-- Instances of `d` are described as values of the property, which can be described at all. -/
def Targets (m : Model) (p : Property) (d : Class) : Prop :=
  ∃ shape, m.shapeOf p = .ok shape ∧ d ∈ shape.targets

/-- Instances of `d` are described as values of a property that `c` declares itself. -/
def ValueOf (m : Model) (c d : Class) : Prop := ∃ p ∈ c.properties, m.Targets p d

/-- The same for all properties of `c`, also those that it inherits. -/
def Expands (m : Model) (c d : Class) : Prop :=
  ∃ ps, m.effectiveProperties c = .ok ps ∧ ∃ p ∈ ps, m.Targets p d

def LeadsTo (m : Model) (c d : Class) : Prop := m.ParentOf c d ∨ m.ValueOf c d

/-- `c` refers to `d` as its parent, or by a property, which need not be one that can be described.
-/
def RefersTo (m : Model) (c d : Class) : Prop :=
  m.ParentOf c d ∨ ∃ p ∈ c.properties, m.Associates p d

def Entry (m : Model) (c : Class) : Prop := ∃ iri ∈ m.rootCandidates, m.find? iri = some c

def Reachable (m : Model) (c : Class) : Prop := ∃ r, m.Entry r ∧ ReflTransGen m.RefersTo r c

/-! ### Values -/

theorem distinctClasses_covers {cs : List Class} (member : c ∈ cs) :
    ∃ d ∈ distinctClasses cs, d.iri = c.iri := by
  have step : ∀ rest kept : List Class,
      (∀ d ∈ kept ++ rest, ∃ e ∈ rest.foldl
        (fun kept c => if kept.any (·.iri == c.iri) then kept else kept ++ [c]) kept,
          e.iri = d.iri) := by
    intro rest
    induction rest with
    | nil =>
      intro kept d member
      exact ⟨d, by simpa using member, rfl⟩
    | cons c rest ih =>
      intro kept d member
      rw [List.foldl_cons]
      split
      next old =>
        obtain ⟨e, present, same⟩ := List.any_eq_true.mp old
        rcases List.mem_append.mp member with before | after
        · exact ih kept d (List.mem_append_left _ before)
        rcases List.mem_cons.mp after with rfl | later
        · obtain ⟨f, there, same'⟩ := ih kept e (List.mem_append_left _ present)
          exact ⟨f, there, same'.trans (beq_iff_eq.mp same)⟩
        · exact ih kept d (List.mem_append_right _ later)
      next => exact ih (kept ++ [c]) d (by simpa using member)
  exact step cs [] c member

theorem candidate_described {t : DataType} : m.candidate p t = .ok (.described d) ↔
    ∃ iri, t = .association iri ∧ m.find? iri = some d ∧ d.isCodelist = false := by
  constructor
  · intro h
    cases t with
    | primitive iri => cases h
    | association iri =>
      obtain ⟨plain, known⟩ := (candidate_describable h).symm
      obtain ⟨found, read, h⟩ := except_bind_ok h
      split at h
      · cases h
      · obtain rfl := Candidate.described.inj (Except.ok.inj h)
        exact ⟨iri, rfl, (lookUp_knows read).2 ▸ known, plain⟩
  · rintro ⟨iri, rfl, found, plain⟩
    simp [candidate, lookUp, found, plain]

theorem shapeOf_targets {shape : Shape} (h : m.shapeOf p = .ok shape) :
    ∃ candidates, p.types.mapM (m.candidate p) = .ok candidates ∧
      shape.targets = distinctClasses (candidates.filterMap (·.described?)) := by
  obtain ⟨candidates, each, combined⟩ := shapeOf_ok h
  refine ⟨candidates, each, ?_⟩
  cases combined with
  | primitive none => exact none.symm
  | single one => exact one.symm
  | choice made => exact (planChoice_ok made).1

theorem mem_targets {shape : Shape} (h : m.shapeOf p = .ok shape) :
    d ∈ shape.targets ↔ m.Associates p d := by
  obtain ⟨candidates, each, same⟩ := shapeOf_targets h
  have described (c : Class) : c ∈ candidates.filterMap (·.described?) ↔ m.Associates p c := by
    rw [List.mem_filterMap]
    constructor
    · rintro ⟨candidate, present, read⟩
      cases candidate with
      | plain _ => cases read
      | described e =>
        obtain rfl := Option.some.inj read
        obtain ⟨t, asked, found⟩ := forall₂_mem_right (except_mapM_ok each) present
        obtain ⟨iri, rfl, found, plain⟩ := candidate_described.mp found
        exact ⟨iri, asked, found, plain⟩
    · rintro ⟨iri, asked, found, plain⟩
      obtain ⟨candidate, present, read⟩ := forall₂_mem_left (except_mapM_ok each) asked
      obtain rfl := Except.ok.inj
        ((candidate_described.mpr ⟨iri, rfl, found, plain⟩).symm.trans read)
      exact ⟨_, present, rfl⟩
  rw [same, ← described]
  refine ⟨fun member => distinctClasses_subset member, fun member => ?_⟩
  obtain ⟨e, kept, same⟩ := distinctClasses_covers member
  obtain ⟨_, _, found, _⟩ := (described d).mp member
  have known := (candidates_describable each e kept).1
  exact knows_eq known (find?_knows found).1 same ▸ kept
theorem LeadsTo.refers (h : m.LeadsTo c d) : m.RefersTo c d := by
  rcases h with parent | ⟨p, declared, shape, read, member⟩
  · exact .inl parent
  · exact .inr ⟨p, declared, (mem_targets read).mp member⟩

theorem Targets.knows (h : m.Targets p d) : m.Knows d := by
  obtain ⟨shape, read, member⟩ := h
  have leads := shapeOf_leads read
  cases shape with
  | primitive _ => cases member
  | single c => exact List.mem_singleton.mp member ▸ leads.1
  | choice plan => exact (leads.1 d member).1

theorem LeadsTo.knows (h : m.LeadsTo c d) : m.Knows d := by
  rcases h with parent | ⟨p, _, target⟩
  · exact parent?_knows parent
  · exact target.knows

theorem Entry.knows (h : m.Entry c) : m.Knows c := by
  obtain ⟨iri, _, found⟩ := h
  exact (find?_knows found).1

theorem Expands.knows (h : m.Expands c d) : m.Knows d := by
  obtain ⟨_, _, _, _, target⟩ := h
  exact target.knows

/-! ### Successors -/

/-- The successors of a class are its parent, and after it the values of its properties. -/
theorem successors_ok (h : m.successors c = .ok next) : ∃ parent values,
    m.parent? c = .ok parent ∧ next = parent.toList ++ values ∧
    (∀ d, d ∈ values ↔ m.ValueOf c d) ∧ ∀ p ∈ c.properties, ∃ shape, m.shapeOf p = .ok shape := by
  obtain ⟨parent, found, h⟩ := except_bind_ok h
  obtain ⟨shapes, read, h⟩ := except_bind_ok h
  have each := except_mapM_ok read
  refine ⟨parent, shapes.flatMap Shape.targets, found, (Except.ok.inj h).symm, fun d => ?_,
    fun p member => ?_⟩
  · rw [List.mem_flatMap]
    constructor
    · rintro ⟨shape, present, member⟩
      obtain ⟨p, declared, read⟩ := forall₂_mem_right each present
      exact ⟨p, declared, shape, read, member⟩
    · rintro ⟨p, declared, shape, read, member⟩
      obtain ⟨shape', present, read'⟩ := forall₂_mem_left each declared
      obtain rfl := Except.ok.inj (read.symm.trans read')
      exact ⟨shape, present, member⟩
  · obtain ⟨shape, _, read⟩ := forall₂_mem_left each member
    exact ⟨shape, read⟩

theorem mem_successors (h : m.successors c = .ok next) : d ∈ next ↔ m.LeadsTo c d := by
  obtain ⟨parent, values, found, rfl, value, _⟩ := successors_ok h
  rw [List.mem_append, value, LeadsTo, ParentOf, found, Option.mem_toList, Except.ok.injEq]

/-! ### Ancestries that end -/

/-- The parents of a class lead to one that has none. -/
inductive Climbs (m : Model) : Class → Prop
  | top {c : Class} : m.parent? c = .ok none → Climbs m c
  | up {c d : Class} : m.ParentOf c d → Climbs m d → Climbs m c

theorem ParentOf.unique (left : m.ParentOf c d) (right : m.ParentOf c e) : d = e :=
  Option.some.inj (Except.ok.inj (left.symm.trans right))

theorem Climbs.acc (h : m.Climbs c) : Acc (fun d c => m.ParentOf c d) c := by
  induction h with
  | top none =>
    refine .intro _ fun d above => ?_
    cases above.symm.trans none
  | up above _ ih => exact .intro _ fun d other => above.unique other ▸ ih

theorem Climbs.irrefl (h : m.Climbs c) : ¬ TransGen m.ParentOf c c := fun circle =>
  acc_irrefl h.acc (Relation.transGen_swap.mpr circle)

theorem climbs_of_parents (steps : ReflTransGen m.ParentOf c d) (h : m.Climbs d) :
    m.Climbs c := by
  induction steps using ReflTransGen.head_induction_on with
  | refl => exact h
  | head above _ ih => exact .up above ih

theorem Climbs.ancestorsAbove (h : m.Climbs c) (start : String) {seen : List String}
    (passed : ∀ iri ∈ seen, ∃ e, m.Knows e ∧ e.iri = iri ∧ ReflTransGen m.ParentOf e c) :
    ∃ above, m.ancestorsAbove start seen c = .ok above ∧
      ∀ d, d ∈ above ↔ TransGen m.ParentOf c d := by
  induction h generalizing seen with
  | top none =>
    rw [Model.ancestorsAbove, none]
    refine ⟨[], rfl, fun d => ⟨nofun, fun steps => ?_⟩⟩
    obtain ⟨e, above, _⟩ := TransGen.head'_iff.mp steps
    cases above.symm.trans none
  | @up c p above rest ih =>
    have known : m.Knows p := parent?_knows above
    have new : p.iri ∉ seen := by
      intro old
      obtain ⟨e, known', same, trail⟩ := passed p.iri old
      obtain rfl := knows_eq known' known same
      exact rest.irrefl (.tail' trail above)
    have way := canEnter_of_knows known new
    have passed' : ∀ iri ∈ p.iri :: seen, ∃ e, m.Knows e ∧ e.iri = iri ∧
        ReflTransGen m.ParentOf e p := by
      intro iri member
      rcases List.mem_cons.mp member with rfl | member
      · exact ⟨p, known, rfl, .refl⟩
      · obtain ⟨e, known', same, trail⟩ := passed iri member
        exact ⟨e, known', same, trail.tail above⟩
    obtain ⟨others, run, each⟩ := ih passed'
    refine ⟨p :: others, ?_, fun d => ?_⟩
    · rw [Model.ancestorsAbove, show m.parent? c = _ from above]
      show (if _ : m.canEnter seen p.iri then _ else _) = _
      rw [dif_pos way, run]
      rfl
    · rw [List.mem_cons, each]
      constructor
      · rintro (rfl | steps)
        · exact .single above
        · exact .head above steps
      · intro steps
        obtain ⟨q, first, onward⟩ := TransGen.head'_iff.mp steps
        obtain rfl := above.unique first
        exact (Relation.reflTransGen_iff_eq_or_transGen.mp onward).imp id id

/-- The properties of a class with those that it inherits: the own ones of all its ancestors. -/
theorem Climbs.effectiveProperties (h : m.Climbs c) (known : m.Knows c) :
    ∃ ps, m.effectiveProperties c = .ok ps ∧
      ∀ p, p ∈ ps ↔ ∃ d, ReflTransGen m.ParentOf c d ∧ p ∈ d.properties := by
  have passed : ∀ iri ∈ [c.iri], ∃ e, m.Knows e ∧ e.iri = iri ∧ ReflTransGen m.ParentOf e c :=
    fun iri member => ⟨c, known, (List.mem_singleton.mp member).symm, .refl⟩
  obtain ⟨above, run, each⟩ := h.ancestorsAbove c.iri passed
  refine ⟨(above.reverse ++ [c]).flatMap (·.properties), ?_, fun p => ?_⟩
  · rw [Model.effectiveProperties, ancestors, run]
    rfl
  · have among (d : Class) : d ∈ above.reverse ++ [c] ↔ ReflTransGen m.ParentOf c d := by
      rw [List.mem_append, List.mem_reverse, each, List.mem_singleton,
        Relation.reflTransGen_iff_eq_or_transGen, or_comm]
    simp only [List.mem_flatMap, among]

theorem parents_lead (h : ReflTransGen m.ParentOf c d) : ReflTransGen m.LeadsTo c d := by
  have sub : m.ParentOf ≤ m.LeadsTo := fun _ _ => Or.inl
  exact ReflTransGen.mono sub c d h

end RdfXmlMapping.Model
