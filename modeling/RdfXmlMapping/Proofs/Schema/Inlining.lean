import RdfXmlMapping.Proofs.Model.Splicing
import RdfXmlMapping.Proofs.Schema.Particles
import RdfXmlMapping.Proofs.Unbounded

/-!
Content put where it is used. `inline` asks only which classes it is nested in, as the schema must
not nest a class in itself, and splices without asking. It ends in every model whose splicing has
been checked, and never nests more classes than the model has: `inline_ended`.
-/

namespace RdfXmlMapping.Schema

open Relation (TransGen)

variable {m : Model} {x : Plan} {c d : Class} {p : Property} {ps : List Property}
  {path chain : List String} {limit : Option Nat}

variable (x limit) in
/-- The content of properties. With a limit, it goes on forever where more classes than that would
be nested in each other. -/
def inline (path : List String) (ps : List Property) :
    Unbounded Progress GenerationError (List Particle) := do
  let again : List String → List Property → Unbounded Progress GenerationError (List Particle) := by
    apply inline
  let parts ← ps.mapM fun p => do
    if p.isSpliced then
      let target ← ended (liftM (x.model.spliceTarget p))
      let content ← again path (← ended (liftM (x.model.effectiveProperties target)))
      return if p.isSingle then content else [.sequence (occursOf p) content]
    else
      let name := toNCName p.label
      match ← ended (liftM (x.model.shapeOf p)) with
      | .primitive primitives =>
        if p.isReverse then throw (.reversePrimitive p.iri)
        return [← ended (x.plainParticle name (occursOf p) primitives)]
      | .single target =>
        let imported ← ended (liftM (x.outlook.resolve x.model target))
        if imported.isSome || (x.extractionOf target).namedType || path.contains target.iri then
          return [.element name (← ended (x.typeOf target)) (occursOf p)]
        else if (x.extractionOf target).group then
          return [.grouped name (occursOf p) (← ended (x.requestGroup target))]
        else if limit.any (· ≤ path.length) then endless
        else
          let content ← again (target.iri :: path)
            (← ended (liftM (x.model.effectiveProperties target)))
          return [.nested name (occursOf p) (.identity :: content)]
      | .choice plan => return [.element name (← ended (x.choiceType plan)) (occursOf p)]
  return parts.flatten
partial_fixpoint

/-- What the properties splice in is spliced into all classes of the chain. -/
def SplicedAlong (m : Model) (chain : List String) (ps : List Property) : Prop :=
  ∀ p ∈ ps, p.isSpliced → ∀ d, m.spliceTarget p = .ok d →
    ∀ iri ∈ chain, ∃ e, m.Knows e ∧ e.iri = iri ∧ TransGen m.DirectlySpliced d e

/-- The classes of a path are different ones of the model. -/
structure Distinct (m : Model) (path : List String) : Prop where
  nodup : path.Nodup
  among : ∀ iri ∈ path, ∃ c ∈ m.classes, c.iri = iri

/-! ### Chains -/

/-- The properties that a class declares itself are among those that it has. -/
theorem properties_subset (found : m.effectiveProperties c = .ok ps) :
    c.properties ⊆ ps := by
  obtain ⟨above, _, same⟩ := except_bind_ok found
  obtain rfl := Except.ok.inj same
  intro p member
  simp [member]

theorem splicedAlong_nil : SplicedAlong m [] ps := fun _ _ _ _ _ _ member => by cases member

/-- The content of a class stands at the start of a chain. -/
theorem splicedAlong_start (known : m.Knows c) (own : m.effectiveProperties c = .ok ps) :
    SplicedAlong m [c.iri] ps := by
  intro p member spliced d target iri here
  obtain rfl := List.mem_singleton.mp here
  exact ⟨c, known, rfl, .single ⟨ps, own, p, member, spliced, target⟩⟩

theorem SplicedAlong.subset {qs : List Property} (h : SplicedAlong m chain ps) (fewer : qs ⊆ ps) :
    SplicedAlong m chain qs := fun p member => h p (fewer member)

theorem SplicedAlong.step (h : SplicedAlong m chain ps) (member : p ∈ ps) (spliced : p.isSpliced)
    (target : m.spliceTarget p = .ok d) {qs : List Property}
    (own : m.effectiveProperties d = .ok qs) : SplicedAlong m (d.iri :: chain) qs := by
  intro q member' spliced' e target' iri here
  have inner : m.DirectlySpliced e d := ⟨qs, own, q, member', spliced', target'⟩
  rcases List.mem_cons.mp here with rfl | before
  · exact ⟨d, (Model.spliceTarget_ok target).1.1, rfl, .single inner⟩
  · obtain ⟨f, known, same, outer⟩ := h p member spliced d target iri before
    exact ⟨f, known, same, .head inner outer⟩

/-- A class that is spliced in can be entered, as it is not spliced into itself. -/
theorem SplicedAlong.canEnter (h : SplicedAlong m chain ps) (checked : m.checkSplicing = .ok ())
    (member : p ∈ ps) (spliced : p.isSpliced) (target : m.spliceTarget p = .ok d) :
    m.canEnter chain d.iri := by
  have known := (Model.spliceTarget_ok target).1.1
  apply Model.canEnter_of_knows known
  intro old
  obtain ⟨e, known', same, steps⟩ := h p member spliced d target d.iri old
  obtain rfl := Model.knows_eq known' known same
  exact (Model.checkSplicing_spliceable checked known).irrefl steps

/-! ### Paths -/

theorem Distinct.single (known : m.Knows c) : Distinct m [c.iri] where
  nodup := List.nodup_singleton _
  among := by
    intro iri member
    obtain rfl := List.mem_singleton.mp member
    exact ⟨c, Model.knows_mem known, rfl⟩

theorem Distinct.cons (h : Distinct m path) (known : m.Knows d) (new : d.iri ∉ path) :
    Distinct m (d.iri :: path) where
  nodup := List.nodup_cons.mpr ⟨new, h.nodup⟩
  among := by
    intro iri member
    rcases List.mem_cons.mp member with rfl | member
    · exact ⟨d, Model.knows_mem known, rfl⟩
    · exact h.among iri member

theorem Distinct.length_le (h : Distinct m path) : path.length ≤ m.classes.length := by
  have inside : path ⊆ m.classes.map (·.iri) := by
    intro iri member
    obtain ⟨c, present, same⟩ := h.among iri member
    exact List.mem_map.mpr ⟨c, present, same⟩
  calc path.length
    _ ≤ (m.classes.map (·.iri)).length := (List.subperm_of_subset h.nodup inside).length_le
    _ = m.classes.length := List.length_map ..

/-- There is room for one class more. -/
theorem Distinct.room (h : Distinct m path) (enough : ∀ n ∈ limit, m.classes.length ≤ n)
    (known : m.Knows d) (new : d.iri ∉ path) : limit.any (· ≤ path.length) = false := by
  have longer := (h.cons known new).length_le
  rw [List.length_cons] at longer
  cases limit with
  | none => rfl
  | some n =>
    have most := enough n rfl
    simp only [Option.any_some, decide_eq_false_iff_not]
    omega

/-! ### Ends -/

theorem inline_ended (checked : x.model.checkSplicing = .ok ())
    (enough : ∀ n ∈ limit, x.model.classes.length ≤ n) (path : List String) : ∀ chain ps,
    Distinct x.model path → SplicedAlong x.model chain ps →
      inline x limit path ps = ended (x.particles path chain ps) := by
  intro chain
  induction path, chain using content_induction x.model with
  | step path chain nested deeper =>
    intro ps distinct along
    rw [inline, particles_eq]
    refine (congrArg (· >>= _) (ended_mapM fun p member => ?_)).trans (ended_bind_of fun _ => rfl)
    unfold Plan.member
    by_cases spliced : p.isSpliced
    · rw [if_pos spliced, if_pos spliced]
      apply ended_lift_bind
      intro d target
      have way := along.canEnter checked member spliced target
      rw [if_pos way]
      apply ended_lift_bind
      intro qs own
      rw [deeper d.iri way qs distinct (along.step member spliced target own)]
      exact ended_bind_of fun _ => rfl
    · rw [if_neg spliced, if_neg spliced]
      apply ended_lift_bind
      intro shape read
      cases shape with
      | primitive primitives =>
        dsimp only
        split
        · rfl
        · exact ended_bind_of fun _ => rfl
      | single d =>
        dsimp only
        apply ended_lift_bind
        intro imported _
        split
        · exact ended_bind_of fun _ => rfl
        next stays =>
          split
          · exact ended_bind_of fun _ => rfl
          · have known := (Model.shapeOf_leads read).1
            have new : d.iri ∉ path := by
              intro old
              exact stays (by simp [old])
            rw [distinct.room enough known new, if_pos (Model.canEnter_of_knows known new)]
            apply ended_lift_bind
            intro qs own
            rw [nested d.iri (Model.canEnter_of_knows known new) qs
              (distinct.cons known new) (splicedAlong_start known own)]
            exact ended_bind_of fun _ => rfl
      | choice plan => exact ended_bind_of fun _ => rfl

end RdfXmlMapping.Schema
