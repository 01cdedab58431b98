import RdfXmlMapping.Proofs.Model.Reach

/-!
Inheritance step by step. The properties of a class are those of its parent and its own after them,
and a class whose properties can be collected has finitely many ancestors.
-/

namespace RdfXmlMapping.Model

open Relation (ReflTransGen)

variable {m : Model} {c d : Class} {above : List Class} {e : GenerationError}

/-- It does not matter where a walk upwards started: with fewer classes seen it goes as far. -/
theorem ancestorsAbove_weaken {start start' : String} (seen : List String) : ∀ seen' c above,
    seen' ⊆ seen → m.ancestorsAbove start seen c = .ok above →
      m.ancestorsAbove start' seen' c = .ok above := by
  induction seen using walk_induction m with
  | step seen ih =>
    intro seen' c above fewer h
    rw [ancestorsAbove] at h ⊢
    obtain ⟨parent, found, h⟩ := except_bind_ok h
    rw [found]
    cases parent with
    | none => exact h
    | some p =>
      dsimp only at h
      split at h
      next way =>
        obtain ⟨rest, walked, h⟩ := except_bind_ok h
        obtain rfl := Except.ok.inj h
        have way' : m.canEnter seen' p.iri := by
          simp only [canEnter, Bool.and_eq_true, Bool.not_eq_true', List.contains_eq_mem,
            decide_eq_false_iff_not] at way ⊢
          exact ⟨way.1, fun member => way.2 (fewer member)⟩
        have onward := ih p.iri way (p.iri :: seen') p rest (List.cons_subset_cons _ fewer) walked
        change (if _ : m.canEnter seen' p.iri then _ else _) = _
        rw [dif_pos way', onward]
        rfl
      next => cases h

theorem ancestors_parent (h : m.ancestors c = .ok above) (parent : m.parent? c = .ok (some d)) :
    ∃ rest, above = d :: rest ∧ m.ancestors d = .ok rest := by
  rw [ancestors, ancestorsAbove, parent] at h
  change (if _ : m.canEnter [c.iri] d.iri then _ else _) = _ at h
  split at h
  next way =>
    obtain ⟨rest, walked, h⟩ := except_bind_ok h
    obtain rfl := Except.ok.inj h
    exact ⟨rest, rfl, ancestorsAbove_weaken _ [d.iri] d rest (by simp) walked⟩
  next => cases h

theorem effectiveProperties_parent {ps : List Property} (h : m.effectiveProperties c = .ok ps)
    (parent : m.parent? c = .ok (some d)) :
    ∃ inherited, m.effectiveProperties d = .ok inherited ∧ ps = inherited ++ c.properties := by
  obtain ⟨above, walked, h⟩ := except_bind_ok h
  obtain rfl := Except.ok.inj h
  obtain ⟨rest, rfl, onward⟩ := ancestors_parent walked parent
  refine ⟨(rest.reverse ++ [d]).flatMap (·.properties), ?_, by simp⟩
  unfold effectiveProperties
  rw [onward]
  rfl

theorem parent?_of_effectiveProperties {ps : List Property}
    (found : m.effectiveProperties c = .ok ps) : ∃ parent, m.parent? c = .ok parent := by
  obtain ⟨above, walked, _⟩ := except_bind_ok found
  rw [ancestors, ancestorsAbove] at walked
  obtain ⟨parent, read, _⟩ := except_bind_ok walked
  exact ⟨parent, read⟩

/-- What holds of a class and its properties wherever it holds of its parent and those that it
inherits holds of all classes whose properties can be collected. -/
theorem inheritance_induction {motive : Class → List Property → Prop}
    (step : ∀ c ps, m.effectiveProperties c = .ok ps →
      (∀ d inherited, m.parent? c = .ok (some d) → ps = inherited ++ c.properties →
        motive d inherited) → motive c ps)
    {ps : List Property} (h : m.effectiveProperties c = .ok ps) : motive c ps := by
  obtain ⟨above, walked⟩ : ∃ above, m.ancestors c = .ok above := by
    obtain ⟨above, walked, _⟩ := except_bind_ok h
    exact ⟨above, walked⟩
  induction above generalizing c ps with
  | nil =>
    refine step c ps h fun d inherited parent _ => ?_
    obtain ⟨rest, same, _⟩ := ancestors_parent walked parent
    cases same
  | cons e rest ih =>
    refine step c ps h fun d inherited parent same => ?_
    obtain ⟨_, below, walked⟩ := ancestors_parent walked parent
    obtain ⟨rfl, rfl⟩ := List.cons.inj below
    obtain ⟨inherited', found, same'⟩ := effectiveProperties_parent h parent
    obtain rfl := List.append_cancel_right (same.symm.trans same')
    exact ih found walked

/-! ### Ancestries that cannot be collected -/

theorem parent?_error (h : m.parent? c = .error e) :
    e = .multipleInheritance c.iri ∨ ∃ iri, e = .unknownClass iri c.iri := by
  unfold parent? at h
  split at h
  · cases h
  next iri _ =>
    have missing := except_map_error h
    unfold lookUp at missing
    split at missing
    · cases missing
    · exact .inr ⟨iri, (Except.error.inj missing).symm⟩
  · exact .inl (Except.error.inj h).symm

/-- A walk upwards comes to a class again, or to one without a parent that could be told. -/
theorem ancestorsAbove_error {start : String} (seen : List String) : ∀ c,
    m.ancestorsAbove start seen c = .error e → e = .inheritanceCycle start ∨
      ∃ d, ReflTransGen m.ParentOf c d ∧ m.parent? d = .error e := by
  induction seen using walk_induction m with
  | step seen ih =>
    intro c h
    rw [ancestorsAbove] at h
    rcases except_bind_error h with failed | ⟨parent, found, h⟩
    · exact .inr ⟨c, .refl, failed⟩
    cases parent with
    | none => cases h
    | some p =>
      dsimp only at h
      split at h
      next way =>
        rcases except_bind_error h with failed | ⟨_, _, h⟩
        · rcases ih p.iri way p failed with circle | ⟨d, steps, failed⟩
          · exact .inl circle
          · exact .inr ⟨d, .head found steps, failed⟩
        · cases h
      next => exact .inl (Except.error.inj h).symm

theorem effectiveProperties_error (h : m.effectiveProperties c = .error e) :
    e = .inheritanceCycle c.iri ∨ ∃ d, ReflTransGen m.ParentOf c d ∧ m.parent? d = .error e := by
  rcases except_bind_error h with failed | ⟨_, _, h⟩
  · exact ancestorsAbove_error [c.iri] c failed
  · cases h

end RdfXmlMapping.Model
