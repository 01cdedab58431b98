import RdfXmlMapping.Proofs.Model.Reference

/-!
What the walk over a model never says. Only the walk that looks for circles of classes refuses a
model because of them; all other questions about a model are answered, or fail for another reason.
-/

namespace RdfXmlMapping

/-- A step that does not refuse a model for a circle of classes. -/
def Tolerant {α : Type} (x : Generated α) : Prop := ∀ iri, x ≠ .error (.recursiveModel iri)

namespace Tolerant

variable {α β : Type}

theorem ok (a : α) : Tolerant (.ok a) := fun _ h => by cases h

theorem bind {x : Generated α} {f : α → Generated β} (first : Tolerant x)
    (rest : ∀ a, Tolerant (f a)) : Tolerant (x >>= f) := by
  intro iri h
  rcases except_bind_error h with h | ⟨a, _, h⟩
  · exact first iri h
  · exact rest a iri h

theorem map {x : Generated α} {f : α → β} (h : Tolerant x) : Tolerant (f <$> x) :=
  fun iri failed => h iri (except_map_error failed)

theorem mapM {f : α → Generated β} (each : ∀ x, Tolerant (f x)) (xs : List α) :
    Tolerant (xs.mapM f) := by
  intro iri h
  obtain ⟨x, _, failed⟩ := except_mapM_error h
  exact each x iri failed

theorem foldlM {f : β → α → Generated β} (each : ∀ b x, Tolerant (f b x)) (b : β) (xs : List α) :
    Tolerant (xs.foldlM f b) := by
  intro iri h
  obtain ⟨_, x, _, c, _, _, failed⟩ := except_foldlM_error h
  exact each c x iri failed

end Tolerant

namespace Model

variable (m : Model) (p : Property)

theorem lookUp_tolerant (iri referrer : String) : Tolerant (m.lookUp iri referrer) := by
  intro other h
  unfold lookUp at h
  split at h <;> cases h

theorem parent?_tolerant (c : Class) : Tolerant (m.parent? c) := by
  unfold parent?
  split
  · exact .ok _
  · exact (m.lookUp_tolerant _ _).map
  · intro iri h
    cases h

theorem ancestorsAbove_tolerant (start : String) (seen : List String) :
    ∀ c, Tolerant (m.ancestorsAbove start seen c) := by
  induction seen using walk_induction m with
  | step seen ih =>
    intro c
    rw [ancestorsAbove]
    refine (m.parent?_tolerant c).bind fun parent => ?_
    cases parent with
    | none => exact .ok _
    | some p =>
      dsimp only
      split
      next way => exact (ih p.iri way p).bind fun _ => .ok _
      next =>
        intro iri h
        cases h

theorem effectiveProperties_tolerant (c : Class) : Tolerant (m.effectiveProperties c) :=
  (m.ancestorsAbove_tolerant _ _ c).bind fun _ => .ok _

theorem candidate_tolerant (t : DataType) : Tolerant (m.candidate p t) := by
  cases t with
  | primitive iri => exact .ok _
  | association target => exact (m.lookUp_tolerant _ _).bind fun _ => .ok _

theorem parentIn_tolerant (candidates : List Class) (c : Class) :
    Tolerant (m.parentIn p candidates c) := by
  refine (m.parent?_tolerant c).bind fun parent => ?_
  cases parent with
  | none => exact .ok _
  | some p =>
    dsimp only
    split
    · exact .ok _
    · intro iri h
      cases h

theorem planChoice_tolerant (candidates : List Class) : Tolerant (m.planChoice p candidates) := by
  refine (Tolerant.mapM (m.parentIn_tolerant p candidates) _).bind fun parents => ?_
  dsimp only
  split <;> exact .ok _

theorem shapeOf_tolerant : Tolerant (m.shapeOf p) := by
  unfold shapeOf
  dsimp only
  split
  · intro iri h
    cases h
  · refine (Tolerant.mapM (m.candidate_tolerant p) _).bind fun candidates => ?_
    split
    · exact .ok _
    · exact (m.planChoice_tolerant p _).map
    · exact .ok _
    · intro iri h
      cases h

theorem spliceTarget_tolerant : Tolerant (m.spliceTarget p) := by
  refine (m.shapeOf_tolerant p).bind fun shape => ?_
  split
  · split
    · intro iri h
      cases h
    · exact .ok _
  · intro iri h
    cases h

end Model

end RdfXmlMapping
