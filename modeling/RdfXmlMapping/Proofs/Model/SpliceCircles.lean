import Mathlib
import RdfXmlMapping.Model.Build
import RdfXmlMapping.Proofs.Model.Inheritance
import RdfXmlMapping.Proofs.Model.Shapes

/-!
What the check of the spliced properties decides: it succeeds exactly if all ancestries end, each
spliced property has one class of the model's own specification, and no content comes to stand in
itself, and a property that it names for a circle is a step of one (`checkSplicing_exact`).
-/

namespace RdfXmlMapping.Model

open Relation (ReflTransGen TransGen)

variable {m : Model} {c d : Class} {p : Property} {path done done' : List String}
  {e : GenerationError} {iri : String}

/-- The class declares the property, or inherits it. -/
def Offers (m : Model) (c : Class) (p : Property) : Prop :=
  ∃ d, ReflTransGen m.ParentOf c d ∧ p ∈ d.properties

/-- The values of the property are instances of `d` alone, a class of the model's own
specification. -/
def OwnTarget (m : Model) (p : Property) (d : Class) : Prop :=
  m.shapeOf p = .ok (.single d) ∧ m.isForeign d = false

/-- The content of `d` stands in that of `c`, in the place of a property. -/
def Embeds (m : Model) (c d : Class) : Prop :=
  ∃ p, m.Offers c p ∧ p.isSpliced ∧ m.OwnTarget p d

/-- The ancestry of the class ends, each spliced property that it offers has one class of the
model's own specification, and its content does not come to stand in itself. -/
structure Embeddable (m : Model) (c : Class) : Prop where
  climbs : m.Climbs c
  targets : ∀ p, m.Offers c p → p.isSpliced → ∃ d, m.OwnTarget p d
  no_circle : ¬ TransGen m.Embeds c c

theorem spliceTarget_iff : m.spliceTarget p = .ok d ↔ m.OwnTarget p d := by
  refine ⟨spliceTarget_single, fun ⟨single, own⟩ => ?_⟩
  rw [spliceTarget, single]
  simp [bind, Except.bind, own, pure, Except.pure]

theorem OwnTarget.knows (h : m.OwnTarget p d) : m.Knows d := (shapeOf_leads h.1).1

theorem Embeds.knows (h : m.Embeds c d) : m.Knows d := by
  obtain ⟨p, _, _, target⟩ := h
  exact target.knows

/-! ### Properties of a class -/

theorem climbs_of_effectiveProperties {ps : List Property}
    (h : m.effectiveProperties c = .ok ps) : m.Climbs c := by
  refine inheritance_induction (motive := fun c _ => m.Climbs c) (fun c ps h inherits => ?_) h
  obtain ⟨parent, above⟩ := parent?_of_effectiveProperties h
  cases parent with
  | none => exact .top above
  | some d =>
    obtain ⟨inherited, _, whole⟩ := effectiveProperties_parent h above
    exact .up above (inherits d inherited above whole)

theorem mem_effectiveProperties {ps : List Property} (known : m.Knows c)
    (h : m.effectiveProperties c = .ok ps) : p ∈ ps ↔ m.Offers c p := by
  obtain ⟨ps', own, among⟩ := (climbs_of_effectiveProperties h).effectiveProperties known
  obtain rfl := Except.ok.inj (h.symm.trans own)
  exact among p

theorem embeds_iff (known : m.Knows c) (climbs : m.Climbs c) :
    m.Embeds c d ↔ m.DirectlySpliced d c := by
  obtain ⟨ps, own, among⟩ := climbs.effectiveProperties known
  constructor
  · rintro ⟨p, offers, spliced, target⟩
    exact ⟨ps, own, p, (among p).mpr offers, spliced, spliceTarget_iff.mpr target⟩
  · rintro ⟨ps', own', p, member, spliced, target⟩
    exact ⟨p, (mem_effectiveProperties known own').mp member, spliced, spliceTarget_iff.mp target⟩

/-! ### Refusals -/

/-- Of one property nothing is said about circles. -/
theorem shapeOf_no_circle (p : Property) : m.shapeOf p ≠ .error (.dematerializationCycle iri) := by
  intro h
  cases (m.shapeOf_iff p _).mp h with
  | refused _ _ _ _ refuses => cases refuses

theorem spliceTarget_no_circle (p : Property) :
    m.spliceTarget p ≠ .error (.dematerializationCycle iri) := by
  intro h
  unfold spliceTarget at h
  rcases except_bind_error h with failed | ⟨shape, _, h⟩
  · exact shapeOf_no_circle p failed
  · split at h
    · split at h <;> cases h
    · cases h

theorem effectiveProperties_no_circle (c : Class) :
    m.effectiveProperties c ≠ .error (.dematerializationCycle iri) := by
  intro h
  rcases effectiveProperties_error h with cycle | ⟨d, _, failed⟩
  · cases cycle
  · rcases parent?_error failed with several | ⟨_, unknown⟩
    · cases several
    · cases unknown

/-! ### What the walk follows -/

theorem followSplice_error (h : m.followSplice path done p = .error e) :
    m.spliceTarget p = .error e ∨ ∃ d, m.OwnTarget p d ∧
      (d.iri ∈ path ∧ e = .dematerializationCycle p.iri ∨
        d.iri ∉ path ∧ m.followSplices path done d = .error e) := by
  rcases except_bind_error h with failed | ⟨d, target, h⟩
  · exact .inl failed
  · refine .inr ⟨d, spliceTarget_iff.mp target, ?_⟩
    by_cases again : d.iri ∈ path
    · rw [if_pos (List.contains_iff_mem.mpr again)] at h
      exact .inl ⟨again, (Except.error.inj h).symm⟩
    · rw [if_neg fun old => again (List.contains_iff_mem.mp old)] at h
      exact .inr ⟨again, h⟩

/-- Where the walk stands: the classes on its path embed the one that it has come to. -/
def Nested (m : Model) (path : List String) (c : Class) : Prop :=
  ∀ iri ∈ path, ∃ e, m.Knows e ∧ e.iri = iri ∧ TransGen m.Embeds e c

theorem Nested.step (h : m.Nested path c) (known : m.Knows c) (embeds : m.Embeds c d) :
    m.Nested (c.iri :: path) d := by
  intro iri member
  rcases List.mem_cons.mp member with rfl | earlier
  · exact ⟨c, known, rfl, .single embeds⟩
  · obtain ⟨e, known', same, steps⟩ := h iri earlier
    exact ⟨e, known', same, steps.tail embeds⟩

/-- A walk fails at a class that it has entered: the properties of the class cannot be collected, or
one that is spliced has no target, or one whose content stands in itself. -/
theorem followSplices_error (path : List String) : ∀ done c, m.Knows c → m.Nested path c →
    (∀ iri ∈ path, iri ≠ c.iri) → m.followSplices path done c = .error e →
      ∃ d, m.Knows d ∧ (m.effectiveProperties d = .error e ∨
        ∃ p, m.Offers d p ∧ p.isSpliced ∧ (m.spliceTarget p = .error e ∨
          ∃ t, m.OwnTarget p t ∧ e = .dematerializationCycle p.iri ∧
            ReflTransGen m.Embeds t d)) := by
  induction path using walk_induction m with
  | step path ih =>
    intro done c known nested apart h
    have way := canEnter_of_knows known fun old => apart c.iri old rfl
    rw [followSplices_eq, if_pos way] at h
    split at h
    · cases h
    rcases except_bind_error h with failed | ⟨ps, own, h⟩
    · exact ⟨c, known, .inl failed⟩
    rcases except_bind_error h with h | ⟨_, _, h⟩
    · obtain ⟨first, p, others, between, split, _, failed⟩ := except_foldlM_error h
      obtain ⟨member, spliced⟩ := List.mem_filter.mp (split ▸ List.mem_append_right first
        List.mem_cons_self : p ∈ ps.filter (·.isSpliced))
      have offers := (mem_effectiveProperties known own).mp member
      rcases followSplice_error failed with failed | ⟨t, target, ⟨again, rfl⟩ | ⟨new, failed⟩⟩
      · exact ⟨c, known, .inr ⟨p, offers, spliced, .inl failed⟩⟩
      · refine ⟨c, known, .inr ⟨p, offers, spliced, .inr ⟨t, target, rfl, ?_⟩⟩⟩
        rcases List.mem_cons.mp again with here | before
        · exact knows_eq target.knows known here ▸ .refl
        · obtain ⟨x, known', same, steps⟩ := nested t.iri before
          exact knows_eq known' target.knows same ▸ steps.to_reflTransGen
      · have embeds : m.Embeds c t := ⟨p, offers, spliced, target⟩
        exact ih c.iri way between t target.knows (nested.step known embeds)
          (fun iri member same => new (same ▸ member)) failed
    · cases h

/-! ### The check -/

theorem followSplices_covers (path : List String) : ∀ done done' c,
    m.followSplices path done c = .ok done' → done ⊆ done' ∧ c.iri ∈ done' := by
  induction path using walk_induction m with
  | step path ih =>
    intro done done' c h
    rw [followSplices_eq] at h
    split at h
    next old =>
      obtain rfl := Except.ok.inj h
      exact ⟨List.Subset.refl _, List.contains_iff_mem.mp old⟩
    · split at h
      next way =>
        obtain ⟨ps, _, h⟩ := except_bind_ok h
        obtain ⟨inner, fold, h⟩ := except_bind_ok h
        obtain rfl := Except.ok.inj h
        have grows : ∀ p ∈ ps.filter (·.isSpliced), ∀ b b', done ⊆ b →
            m.followSplice (c.iri :: path) b p = .ok b' → done ⊆ b' ∧ True := by
          intro p _ b b' before run
          obtain ⟨d, _, run⟩ := except_bind_ok run
          split at run
          · cases run
          · exact ⟨List.Subset.trans before (ih c.iri way b b' d run).1, trivial⟩
        have more := (except_foldlM_ok grows (List.Subset.refl done) fold).1
        exact ⟨List.subset_cons_of_subset _ more, List.mem_cons_self⟩
      next => cases h

theorem followAll_covers {cs : List Class} (h : cs.foldlM (m.followSplices []) done = .ok done') :
    done ⊆ done' ∧ ∀ c ∈ cs, c.iri ∈ done' := by
  induction cs generalizing done with
  | nil =>
    obtain rfl := Except.ok.inj h
    exact ⟨List.Subset.refl _, fun c member => by cases member⟩
  | cons c cs ih =>
    rw [List.foldlM_cons] at h
    obtain ⟨between, first, h⟩ := except_bind_ok h
    obtain ⟨grown, here⟩ := followSplices_covers [] done between c first
    obtain ⟨more, others⟩ := ih h
    exact ⟨List.Subset.trans grown more, List.forall_mem_cons.mpr ⟨more here, others⟩⟩

/-- A class hidden by another one with its identity is never refused, as the other one comes before
it. -/
theorem checkSplicing_error (h : m.checkSplicing = .error e) :
    ∃ done c, m.Knows c ∧ m.followSplices [] done c = .error e := by
  rcases except_bind_error h with h | ⟨_, _, h⟩
  · obtain ⟨before, c, after, done, split, run, failed⟩ := except_foldlM_error h
    refine ⟨done, c, ClassNames.knows_of_new split ?_, failed⟩
    rintro ⟨d, earlier, same⟩
    have old := (followAll_covers run).2 d earlier
    rw [followSplices_eq, if_pos (List.contains_iff_mem.mpr (same ▸ old))] at failed
    cases failed
  · cases h

theorem checkSplicing_refuses (h : m.checkSplicing = .error e) :
    ∃ d, m.Knows d ∧ (m.effectiveProperties d = .error e ∨
      ∃ p, m.Offers d p ∧ p.isSpliced ∧ (m.spliceTarget p = .error e ∨
        ∃ t, m.OwnTarget p t ∧ e = .dematerializationCycle p.iri ∧ ReflTransGen m.Embeds t d)) := by
  obtain ⟨done, c, known, failed⟩ := checkSplicing_error h
  exact followSplices_error [] done c known (fun _ nowhere => by cases nowhere)
    (fun _ nowhere => by cases nowhere) failed

theorem checkSplicing_climbs (checked : m.checkSplicing = .ok ()) (known : m.Knows c) :
    m.Climbs c := by
  obtain ⟨_, own, _⟩ := (checkSplicing_spliceable checked known).collects
  exact climbs_of_effectiveProperties own

theorem checkSplicing_embeddable (checked : m.checkSplicing = .ok ()) (known : m.Knows c) :
    m.Embeddable c := by
  have safe := checkSplicing_spliceable checked known
  refine ⟨checkSplicing_climbs checked known, fun p offers spliced => ?_, fun circle => ?_⟩
  · obtain ⟨ps, own, each⟩ := safe.collects
    obtain ⟨d, target⟩ := each p ((mem_effectiveProperties known own).mpr offers) spliced
    exact ⟨d, spliceTarget_iff.mp target⟩
  · have steps : ∀ {d}, TransGen m.Embeds c d → TransGen (Function.swap m.DirectlySpliced) c d := by
      intro d steps
      induction steps with
      | single first =>
        exact .single ((embeds_iff known (checkSplicing_climbs checked known)).mp first)
      | tail before last ih =>
        obtain ⟨_, _, step⟩ := TransGen.tail'_iff.mp before
        have climbs := checkSplicing_climbs checked step.knows
        exact ih.tail ((embeds_iff step.knows climbs).mp last)
    exact safe.irrefl (Relation.transGen_swap.mp (steps circle))

/-- The check of the spliced properties succeeds exactly if the content of every class can be put
together, and a property that it refuses for a circle leads from a class to one whose content that
class stands in. -/
theorem checkSplicing_exact (m : Model) :
    (m.checkSplicing = .ok () ↔ ∀ c, m.Knows c → m.Embeddable c) ∧
    ∀ iri, m.checkSplicing = .error (.dematerializationCycle iri) →
      ∃ c p d, m.Knows c ∧ m.Offers c p ∧ p.isSpliced ∧ p.iri = iri ∧ m.OwnTarget p d ∧
        ReflTransGen m.Embeds d c := by
  refine ⟨⟨fun checked c => checkSplicing_embeddable checked, fun all => ?_⟩, fun iri h => ?_⟩
  · cases h : m.checkSplicing with
    | ok _ => rfl
    | error e =>
      obtain ⟨c, known, failed | ⟨p, offers, spliced, failed | ⟨d, target, _, steps⟩⟩⟩ :=
        checkSplicing_refuses h
      · obtain ⟨ps, own, _⟩ := (all c known).climbs.effectiveProperties known
        cases own.symm.trans failed
      · obtain ⟨d, target⟩ := (all c known).targets p offers spliced
        cases (spliceTarget_iff.mpr target).symm.trans failed
      · exact absurd (.head' ⟨p, offers, spliced, target⟩ steps) (all c known).no_circle
  · obtain ⟨c, known, failed | ⟨p, offers, spliced, failed | ⟨d, target, same, steps⟩⟩⟩ :=
      checkSplicing_refuses h
    · exact absurd failed (effectiveProperties_no_circle c)
    · exact absurd failed (spliceTarget_no_circle p)
    · have named := GenerationError.dematerializationCycle.inj same
      exact ⟨c, p, d, known, offers, spliced, named.symm, target, steps⟩

/-- Letters whose address stands in them, as they inherit it from what can be sent. -/
def letters : Model :=
  (Model.make "letters" "post").declaring ((Class.make "Letter" "Letter").extending "Consignment")
    |>.declaring ((Class.make "Consignment" "Consignment")
      |>.declaring { (Property.make "to" "https://ex.org/to").association "Address" with
          isSpliced := true })
    |>.declaring (Class.make "Address" "Address")

/-- Envelopes that stand in their letters, with letters that stand in all that is sent. -/
def envelopes : Model :=
  (Model.make "envelopes" "post").declaring ((Class.make "Letter" "Letter")
      |>.declaring { (Property.make "cover" "https://ex.org/cover").association "Envelope" with
          isSpliced := true })
    |>.declaring ((Class.make "Envelope" "Envelope").extending "Consignment")
    |>.declaring ((Class.make "Consignment" "Consignment")
      |>.declaring { (Property.make "inside" "https://ex.org/inside").association "Letter" with
          isSpliced := true })

theorem checkSplicing_exact_letters : letters.checkSplicing = .ok () ∧
    (∀ c, letters.Knows c → letters.Embeddable c) ∧
    envelopes.checkSplicing = .error (.dematerializationCycle "Consignment/inside") ∧
    ∃ c p d, envelopes.Knows c ∧ envelopes.Offers c p ∧ p.isSpliced ∧
      p.iri = "Consignment/inside" ∧ envelopes.OwnTarget p d ∧
      ReflTransGen envelopes.Embeds d c := by
  have accepted : letters.checkSplicing = .ok () := by cbv
  have refused :
      envelopes.checkSplicing = .error (.dematerializationCycle "Consignment/inside") := by cbv
  exact ⟨accepted, (checkSplicing_exact letters).1.mp accepted, refused,
    (checkSplicing_exact envelopes).2 _ refused⟩

end RdfXmlMapping.Model
