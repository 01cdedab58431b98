import RdfXmlMapping.Proofs.Model.Accounts
import RdfXmlMapping.Proofs.Schema.Termination

/-!
What the schema of a model is refused for. The model accounts for every failure of its generation;
for those of pending declarations, because only classes of the model are ever pending.
-/

namespace RdfXmlMapping

namespace Schema

variable {x : Plan} {p : Property} {c : Class}

theorem typeOf_accountable (member : c ∈ x.model.classes) :
    x.model.AccountableRun (x.typeOf c) := by
  refine .ask (Model.resolve_accountable x.outlook member) fun found _ => ?_
  cases found with
  | none => exact .succeeds fun _ => ⟨_, rfl⟩
  | some d => exact .succeeds fun _ => ⟨_, rfl⟩

theorem plainParticle_accountable (name : String) (occurs : Occurs) (ps : List Primitive) :
    x.model.AccountableRun (x.plainParticle name occurs ps) := by
  have one (p : Primitive) : x.model.AccountableRun (x.plainType p) := by
    cases p with
    | codelist _ => exact .pure _
    | datatype iri =>
      unfold Plan.plainType
      dsimp only
      split
      · exact .pure _
      · exact .succeeds fun _ => ⟨_, rfl⟩
  unfold Plan.plainParticle
  split
  · exact (one _).bind fun _ _ => .pure _
  · exact .pure _

theorem choiceType_accountable {plan : ChoicePlan} (leads : x.model.Leads (.choice plan)) :
    x.model.AccountableRun (x.choiceType plan) := by
  obtain ⟨described, grounded⟩ := leads
  have typed (c : Class) (among : c ∈ plan.candidates) :=
    typeOf_accountable (x := x) (Model.knows_mem (described c among).1)
  unfold Plan.choiceType
  split
  next root derived base =>
    rw [ChoicePlan.Grounded, base] at grounded
    refine .bind (typed root grounded.1) fun _ _ => ?_
    refine .bind (.mapM fun d member => ?_) fun _ _ => .pure _
    exact typed d.cls (grounded.2 d member).1
  · refine .bind (.succeeds fun _ => ⟨_, rfl⟩) fun s _ => ?_
    split
    · exact .pure _
    · exact .bind (.succeeds fun _ => ⟨_, rfl⟩) fun _ _ => .pure _

/-- A class that is neither imported nor entered already can be entered, so that no class of the
model is taken for an unknown one. -/
theorem particles_accountable (path : List String) : ∀ chain ps,
    (∀ p ∈ ps, x.model.Declares p) → x.model.AccountableRun (x.particles path chain ps) := by
  intro chain
  induction path, chain using content_induction x.model with
  | step path chain nested deeper =>
    intro ps declared
    rw [particles_eq]
    refine .bind (.mapM fun p member => ?_) fun _ _ => .pure _
    have declared := declared p member
    unfold Plan.member
    split
    · refine .ask (Model.spliceTarget_accountable declared) fun d target => ?_
      have known := Model.spliceTarget_knows target
      split
      next way =>
        refine .ask (Model.effectiveProperties_accountable known) fun qs own => ?_
        have among := Model.effectiveProperties_declares known own
        exact (deeper d.iri way qs among).bind fun _ _ => .pure _
      · exact .throw ⟨p, declared, rfl⟩
    · refine .ask (Model.shapeOf_accountable declared) fun shape read => ?_
      have leads := Model.shapeOf_leads read
      cases shape with
      | primitive primitives =>
        dsimp only
        split
        · exact .throw ⟨p, declared, rfl⟩
        · exact (plainParticle_accountable _ _ _).bind fun _ _ => .pure _
      | single d =>
        have known := Model.knows_mem leads.1
        refine .ask (Model.resolve_accountable _ known) fun imported _ => ?_
        split
        · exact (typeOf_accountable known).bind fun _ _ => .pure _
        next apart =>
          split
          · exact .bind (.succeeds fun _ => ⟨_, rfl⟩) fun _ _ => .pure _
          · have new : d.iri ∉ path := fun old => apart (by simp [old])
            have way := Model.canEnter_of_mem known new
            rw [if_pos way]
            refine .ask (Model.effectiveProperties_accountable known) fun qs own => ?_
            have among := Model.effectiveProperties_declares known own
            exact (nested d.iri way qs among).bind fun _ _ => .pure _
      | choice plan => exact (choiceType_accountable leads).bind fun _ _ => .pure _

theorem content_accountable (member : c ∈ x.model.classes) :
    x.model.AccountableRun (x.content c) := by
  refine .ask (Model.effectiveProperties_accountable member) fun ps own => ?_
  have declared := Model.effectiveProperties_declares member own
  exact (particles_accountable [c.iri] [c.iri] ps declared).bind fun _ _ => .pure _

theorem root_accountable (member : c ∈ x.model.classes) : x.model.AccountableRun (x.root c) := by
  refine .ask (Model.resolve_accountable _ member) fun imported _ => ?_
  dsimp only
  split
  · exact (typeOf_accountable member).map.bind fun _ _ => .pure _
  · split
    · exact .bind (.map (.succeeds fun _ => ⟨_, rfl⟩)) fun _ _ => .pure _
    · exact (content_accountable member).map.bind fun _ _ => .pure _

theorem declare_accountable {next : Pending} (proper : next.Proper x.model) :
    x.model.AccountableRun (x.declare next) := by
  cases next with
  | type c =>
    have member := Model.knows_mem proper.1
    refine .bind (.succeeds fun _ => ⟨_, rfl⟩) fun s _ => ?_
    have above : x.model.Accountable (x.extensionBase c) := by
      unfold Plan.extensionBase
      split
      · exact Model.parent?_accountable member
      · exact .ok _
    refine .ask above fun base found => ?_
    cases base with
    | none => exact (content_accountable member).bind fun _ _ => .pure _
    | some parent =>
      refine .bind (typeOf_accountable (Model.knows_mem (extensionBase_knows found))) fun _ _ => ?_
      have declared (p : Property) (own : p ∈ c.properties) : x.model.Declares p :=
        ⟨c, member, own⟩
      exact (particles_accountable [c.iri] [c.iri] _ declared).bind fun _ _ => .pure _
  | group c =>
    refine .bind (.succeeds fun _ => ⟨_, rfl⟩) fun s _ => ?_
    exact (content_accountable (Model.knows_mem proper.1)).bind fun _ _ => .pure _
  | placeholder name => exact .pure _

/-- What is pending are classes of the model, so every declaration accounts for its failure. -/
theorem drain_accountable (fuel : Nat) : ∀ done s, Kept x done s →
    x.model.Accountable (x.drain fuel s) := by
  induction fuel with
  | zero => exact fun _ _ _ => .ok _
  | succ fuel ih =>
    intro done s kept
    cases pending : s.pending with
    | nil =>
      rw [Plan.drain, get_bind, pending]
      exact .ok _
    | cons next rest =>
      have proper := kept.queue.proper next (by simp [pending])
      rw [Plan.drain, get_bind, pending]
      refine (declare_accountable proper { s with pending := rest }).bind fun made run => ?_
      have step := (declare_step proper run).1
      exact (ih _ made.2 (step.kept _ (kept.pop pending))).bind fun _ _ => .ok _

theorem declarations_accountable {s : Progress} (kept : Kept x [] s) :
    x.model.Accountable (x.declarations s) := by
  unfold Plan.declarations
  intro e h
  rcases bind_error h with h | ⟨roots, s₁, found, h⟩
  · exact Model.rootClasses_accountable e (lift_error h)
  obtain ⟨found, rfl⟩ := lift_ok found
  have known := Model.rootClasses_knows found
  rcases bind_error h with h | ⟨ds, t, made, h⟩
  · obtain ⟨c, member, t, h⟩ := mapM_error h
    exact root_accountable (Model.knows_mem (known c member)) t e h
  rcases bind_error h with h | ⟨others, u, _, h⟩
  · exact drain_accountable _ [] t ((runs_root_kept known (mapM_ok made)).kept _ kept) e h
  · cases h

theorem generate_accountable (s : Source) : s.model.Accountable (generate s) := by
  refine Model.checkSplicing_accountable.bind fun _ _ => ?_
  have extended : s.model.Accountable (extendedClasses s.model) := by
    refine .bind (.mapM fun p member => ?_) fun _ _ => .ok _
    obtain ⟨c, among, declared⟩ := List.mem_flatMap.mp member
    have declared : s.model.Declares p := ⟨c, List.mem_of_mem_filter among, declared⟩
    refine (Model.shapeOf_accountable declared).bind fun shape _ => ?_
    split <;> exact .ok _
  refine extended.bind fun classes _ => ?_
  have made := declarations_accountable (x := planOf s classes) (initial_kept s classes)
  exact made.bind fun _ _ => .ok _

end Schema

end RdfXmlMapping
