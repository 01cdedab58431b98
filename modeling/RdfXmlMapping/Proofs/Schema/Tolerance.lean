import RdfXmlMapping.Proofs.Model.Splicing
import RdfXmlMapping.Proofs.Model.Tolerance
import RdfXmlMapping.Proofs.Schema.Particles

/-!
Schemas of models whose classes lead in circles. No step of the generation refuses a model for them:
`generate_tolerant`.
-/

namespace RdfXmlMapping

namespace Model

variable (m : Model)

theorem followSplices_tolerant (path : List String) :
    ∀ done c, Tolerant (m.followSplices path done c) := by
  induction path using walk_induction m with
  | step path ih =>
    intro done c
    rw [followSplices_eq]
    split
    · exact .ok _
    · split
      next way =>
        refine (m.effectiveProperties_tolerant c).bind fun ps => ?_
        refine (Tolerant.foldlM (fun done p => ?_) done _).bind fun _ => .ok _
        refine (m.spliceTarget_tolerant p).bind fun d => ?_
        by_cases old : (c.iri :: path).contains d.iri = true
        · intro iri h
          rw [if_pos old] at h
          cases h
        · rw [if_neg old]
          exact ih c.iri way done d
      next =>
        intro iri h
        cases h

theorem checkSplicing_tolerant : Tolerant m.checkSplicing :=
  (Tolerant.foldlM (fun done c => m.followSplices_tolerant [] done c) _ _).bind fun _ => .ok _

theorem addRoot_tolerant (roots : List Class) (iri : String) : Tolerant (m.addRoot roots iri) := by
  refine (m.lookUp_tolerant _ _).bind fun c => ?_
  split
  · exact .ok _
  · split
    · intro iri h
      cases h
    · exact .ok _

theorem rootClasses_tolerant : Tolerant m.rootClasses := Tolerant.foldlM m.addRoot_tolerant _ _

end Model

namespace Schema

/-- A step of the generation that never refuses a model for a circle of classes. -/
def Tolerates {α : Type} (f : Build α) : Prop := ∀ s, Tolerant (f s)

namespace Tolerates

variable {α β : Type}

theorem succeeds {f : Build α} (h : ∀ s, ∃ r, f s = .ok r) : Tolerates f := by
  intro s iri failed
  obtain ⟨r, run⟩ := h s
  cases run.symm.trans failed

theorem pure (a : α) : Tolerates (pure a : Build α) := fun _ => .ok _

theorem bind {f : Build α} {g : α → Build β} (first : Tolerates f) (rest : ∀ a, Tolerates (g a)) :
    Tolerates (f >>= g) := fun s => (first s).bind fun r => rest r.1 r.2

theorem map {f : Build α} {g : α → β} (h : Tolerates f) : Tolerates (g <$> f) := fun s => (h s).map

theorem lift {x : Generated α} (h : Tolerant x) : Tolerates (liftM x : Build α) :=
  fun _ => h.bind fun _ => .ok _

theorem mapM {f : α → Build β} {xs : List α} (each : ∀ x ∈ xs, Tolerates (f x)) :
    Tolerates (xs.mapM f) := by
  intro s iri h
  obtain ⟨x, member, t, failed⟩ := mapM_error h
  exact each x member t iri failed

end Tolerates

variable (x : Plan)

theorem resolve_tolerant (o : Import.Outlook) (m : Model) (c : Class) :
    Tolerant (o.resolve m c) := by
  unfold Import.Outlook.resolve
  split
  · exact .ok _
  · dsimp only
    split
    · intro iri h
      cases h
    · exact .ok _

theorem importedType_tolerates (d : Import.Descriptor) (c : Class) :
    Tolerates (x.importedType d c) := by
  refine .succeeds fun s => ?_
  exact ⟨_, rfl⟩

theorem requestType_tolerates (c : Class) : Tolerates (x.requestType c) :=
  .succeeds fun _ => ⟨_, rfl⟩

theorem requestGroup_tolerates (c : Class) : Tolerates (x.requestGroup c) :=
  .succeeds fun _ => ⟨_, rfl⟩

theorem typeOf_tolerates (c : Class) : Tolerates (x.typeOf c) := by
  refine .bind (.lift (resolve_tolerant _ _ _)) fun imported => ?_
  cases imported with
  | none => exact requestType_tolerates x c
  | some d => exact importedType_tolerates x d c

theorem plainType_tolerates (p : Primitive) : Tolerates (x.plainType p) := by
  cases p with
  | codelist _ => exact .pure _
  | datatype iri =>
    unfold Plan.plainType
    dsimp only
    split
    · exact .pure _
    · exact .succeeds fun _ => ⟨_, rfl⟩

theorem plainParticle_tolerates (name : String) (occurs : Occurs) (ps : List Primitive) :
    Tolerates (x.plainParticle name occurs ps) := by
  unfold Plan.plainParticle
  split
  · exact (plainType_tolerates x _).bind fun _ => .pure _
  · exact .pure _

theorem choiceType_tolerates (plan : ChoicePlan) : Tolerates (x.choiceType plan) := by
  unfold Plan.choiceType
  split
  · refine (typeOf_tolerates x _).bind fun _ => ?_
    exact (Tolerates.mapM fun d _ => typeOf_tolerates x d.cls).bind fun _ => .pure _
  · refine Tolerates.bind (.succeeds fun _ => ⟨_, rfl⟩) fun s => ?_
    split
    · exact .pure _
    · exact Tolerates.bind (.succeeds fun _ => ⟨_, rfl⟩) fun _ => .pure _

theorem particles_tolerates (path : List String) : ∀ chain ps,
    Tolerates (x.particles path chain ps) := by
  intro chain
  induction path, chain using content_induction x.model with
  | step path chain nested deeper =>
    intro ps
    rw [particles_eq]
    refine (Tolerates.mapM fun p _ => ?_).bind fun _ => .pure _
    unfold Plan.member
    split
    · refine (Tolerates.lift (x.model.spliceTarget_tolerant p)).bind fun d => ?_
      split
      next way =>
        refine (Tolerates.lift (x.model.effectiveProperties_tolerant d)).bind fun qs => ?_
        exact (deeper d.iri way qs).bind fun _ => .pure _
      next =>
        intro s iri h
        cases h
    · refine (Tolerates.lift (x.model.shapeOf_tolerant p)).bind fun shape => ?_
      cases shape with
      | primitive primitives =>
        dsimp only
        split
        · intro s iri h
          cases h
        · exact (plainParticle_tolerates x _ _ _).bind fun _ => .pure _
      | single d =>
        refine (Tolerates.lift (resolve_tolerant _ _ _)).bind fun imported => ?_
        split
        · exact (typeOf_tolerates x d).bind fun _ => .pure _
        · split
          · exact (requestGroup_tolerates x d).bind fun _ => .pure _
          · split
            next way =>
              refine (Tolerates.lift (x.model.effectiveProperties_tolerant d)).bind fun qs => ?_
              exact (nested d.iri way qs).bind fun _ => .pure _
            next =>
              intro s iri h
              cases h
      | choice plan => exact (choiceType_tolerates x plan).bind fun _ => .pure _

theorem content_tolerates (c : Class) : Tolerates (x.content c) :=
  (Tolerates.lift (x.model.effectiveProperties_tolerant c)).bind fun ps =>
    (particles_tolerates x [c.iri] [c.iri] ps).bind fun _ => .pure _

theorem root_tolerates (c : Class) : Tolerates (x.root c) := by
  refine (Tolerates.lift (resolve_tolerant _ _ _)).bind fun imported => ?_
  dsimp only
  split
  · exact (typeOf_tolerates x c).map.bind fun _ => .pure _
  · split
    · exact (requestGroup_tolerates x c).map.bind fun _ => .pure _
    · exact (content_tolerates x c).map.bind fun _ => .pure _

theorem extensionBase_tolerant (c : Class) : Tolerant (x.extensionBase c) := by
  unfold Plan.extensionBase
  split
  · exact x.model.parent?_tolerant c
  · exact .ok _

theorem declare_tolerates (p : Pending) : Tolerates (x.declare p) := by
  cases p with
  | type c =>
    refine Tolerates.bind (.succeeds fun _ => ⟨_, rfl⟩) fun s => ?_
    refine (Tolerates.lift (extensionBase_tolerant x c)).bind fun base => ?_
    cases base with
    | none => exact (content_tolerates x c).bind fun _ => .pure _
    | some parent =>
      refine (typeOf_tolerates x parent).bind fun _ => ?_
      exact (particles_tolerates x [c.iri] [c.iri] c.properties).bind fun _ => .pure _
  | group c =>
    refine Tolerates.bind (.succeeds fun _ => ⟨_, rfl⟩) fun s => ?_
    exact (content_tolerates x c).bind fun _ => .pure _
  | placeholder name => exact .pure _

theorem drain_tolerates (fuel : Nat) : Tolerates (x.drain fuel) := by
  induction fuel with
  | zero => exact .pure _
  | succ fuel ih =>
    refine Tolerates.bind (.succeeds fun _ => ⟨_, rfl⟩) fun s => ?_
    split
    · exact .pure _
    next p rest _ =>
      refine Tolerates.bind (.succeeds fun _ => ⟨_, rfl⟩) fun _ => ?_
      exact (declare_tolerates x p).bind fun _ => ih.bind fun _ => .pure _

theorem declarations_tolerates : Tolerates x.declarations := by
  refine (Tolerates.lift x.model.rootClasses_tolerant).bind fun roots => ?_
  refine (Tolerates.mapM fun c _ => root_tolerates x c).bind fun _ => ?_
  refine (drain_tolerates x _).bind fun _ => ?_
  exact Tolerates.bind (.succeeds fun _ => ⟨_, rfl⟩) fun _ => .pure _

theorem extendedClasses_tolerant (m : Model) : Tolerant (extendedClasses m) := by
  refine (Tolerant.mapM (fun p => ?_) _).bind fun _ => .ok _
  refine (m.shapeOf_tolerant p).bind fun shape => ?_
  split <;> exact .ok _

theorem generate_tolerant (s : Source) : Tolerant (generate s) :=
  s.model.checkSplicing_tolerant.bind fun _ =>
    (extendedClasses_tolerant s.model).bind fun _ =>
      (declarations_tolerates _ _).bind fun _ => .ok _

end Schema

end RdfXmlMapping
