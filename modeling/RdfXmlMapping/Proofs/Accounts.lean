import RdfXmlMapping.Artifact.Set
import RdfXmlMapping.Proofs.Content
import RdfXmlMapping.Proofs.Lifting.Calls
import RdfXmlMapping.Proofs.Query.Expansion
import RdfXmlMapping.Proofs.Schema.Accounts

/-!
What an artifact is refused for. Every refusal names a class or a property of the model, or a
reference in it that leads to no class (`Source.refusal_attributable`).
-/

namespace RdfXmlMapping

/-! ### Queries -/

namespace Query

variable {m : Model} {p : Property} {c : Class}

theorem refuseReversePrimitive_accountable (declared : m.Declares p) (shape : Shape) :
    m.Accountable (refuseReversePrimitive p shape) := by
  unfold refuseReversePrimitive
  split
  · split
    · exact .error ⟨p, declared, rfl⟩
    · exact .ok _
  · exact .ok _

theorem classPatterns_accountable (path : List String) : ∀ v flag, ∀ c ∈ m.classes,
    m.AccountableRun (classPatterns m path v flag c) := by
  induction path using Model.walk_induction m with
  | step path ih =>
    intro v flag c member
    rw [classPatterns]
    split
    next way =>
      refine .bind (.succeeds (typePatterns_succeeds v flag c)) fun type _ => ?_
      refine .ask (Model.effectiveProperties_accountable member) fun ps own => ?_
      refine .bind (.mapM fun p among => ?_) fun _ _ => .pure _
      have declared := Model.effectiveProperties_declares member own p among
      refine .ask (Model.shapeOf_accountable declared) fun shape read => ?_
      refine .ask (refuseReversePrimitive_accountable declared shape) fun _ _ => ?_
      refine .bind (.succeeds (propertyTriple_succeeds v p)) fun edge _ => ?_
      have further (v : Nat) (flag : Bool) (d : Class) (target : d ∈ shape.targets) :=
        ih c.iri way v flag d (Model.shapeOf_knows read d target)
      cases shape with
      | primitive _ => exact .pure _
      | single d => exact (further _ _ d (List.mem_singleton.mpr rfl)).bind fun _ _ => .pure _
      | choice plan =>
        refine .bind ?_ fun _ _ => .pure _
        exact .mapM fun d candidate => further _ _ d candidate
    · exact .throw ⟨c, member, rfl⟩

theorem rootPatterns_accountable {group : List String} (member : group ∈ m.roots) :
    m.AccountableRun (rootPatterns m group) := by
  refine .bind (.succeeds fun _ => newVariable_succeeds) fun v _ => ?_
  refine .bind (.mapM fun iri among s => ?_) fun candidates looked => ?_
  · have root := List.mem_flatten_of_mem member among
    exact (Model.lookUp_accountable (.root root)).bind fun _ _ => .ok _
  obtain ⟨s, t, looked⟩ := looked
  have known (c : Class) (among : c ∈ candidates) : c ∈ m.classes := by
    obtain ⟨iri, _, read⟩ := forall₂_mem_right (runs_lift (mapM_ok looked)).1 among
    exact Model.knows_mem (Model.lookUp_knows read).1
  split
  · exact classPatterns_accountable [] v false _ (known _ List.mem_cons_self)
  · refine .bind (.mapM fun c among => ?_) fun _ _ => .pure _
    exact classPatterns_accountable [] v _ c (known c among)

theorem modelPatterns_accountable : m.AccountableRun (modelPatterns m) := by
  refine .bind (.mapM fun group member => rootPatterns_accountable member) fun branches _ => ?_
  split <;> exact .pure _

theorem generate_accountable (s : Source) : s.model.Accountable (generate s) := by
  have built : s.model.Accountable (ofModel s.model) :=
    Model.checkAcyclic_accountable.bind fun _ _ =>
      (modelPatterns_accountable _).bind fun _ _ => .ok _
  exact built.bind fun _ _ => .ok _

end Query

/-! ### Stylesheets to RDF -/

namespace Lifting

variable {m : Model} {p : Property} {c : Class} {o : Import.Outlook}

theorem splicedNames_accountable (chain : List String) : ∀ c ∈ m.classes,
    m.Accountable (splicedNames m chain c) := by
  induction chain using Model.walk_induction m with
  | step chain ih =>
    intro c member
    rw [splicedNames_eq]
    refine (Model.effectiveProperties_accountable member).bind fun ps own => ?_
    refine .bind (.mapM fun p among => ?_) fun _ _ => .ok _
    have declared := Model.effectiveProperties_declares member own p among
    unfold namesOf
    split
    · refine (Model.spliceTarget_accountable declared).bind fun d target => ?_
      split
      next way => exact ih d.iri way d (Model.spliceTarget_knows target)
      · exact .error ⟨p, declared, rfl⟩
    · exact .ok _

theorem templateOf_accountable (member : c ∈ m.classes) :
    m.AccountableRun (templateOf m o c) := by
  refine .ask (Model.resolve_accountable o member) fun found _ => ?_
  cases found with
  | none => exact .pure _
  | some d => exact .bind (.succeeds fun _ => ⟨_, rfl⟩) fun _ _ => .pure _

theorem predicateOf_accountable (declared : m.Declares p) : m.AccountableRun (predicateOf p) := by
  intro s
  unfold predicateOf
  split
  · exact .ok _
  · exact .error ⟨p, declared, rfl⟩

theorem reversePredicateOf_accountable (declared : m.Declares p) :
    m.AccountableRun (reversePredicateOf p) := by
  unfold reversePredicateOf
  split
  · exact (predicateOf_accountable declared).map
  · exact .pure _

theorem plainForward_accountable (declared : m.Declares p) (shape : Shape) :
    m.AccountableRun (plainForward p shape) := by
  unfold plainForward
  split
  · split
    · exact .throw ⟨p, declared, rfl⟩
    · refine .bind (predicateOf_accountable declared) fun predicate _ => ?_
      refine .ask (Model.only_accountable declared _) fun one _ => ?_
      split
      · exact .pure _
      · split <;> exact .pure _
  · split
    · exact .pure _
    · exact (predicateOf_accountable declared).bind fun _ _ => .pure _

theorem forward_accountable (declared : m.Declares p) : m.AccountableRun (forward m p) := by
  unfold forward
  split
  · split
    · exact .pure _
    · refine .bind (predicateOf_accountable declared) fun predicate _ => ?_
      refine .ask (Model.spliceTarget_accountable declared) fun d target => ?_
      refine .ask (splicedNames_accountable _ d (Model.spliceTarget_knows target)) fun _ _ => ?_
      exact .pure _
  · refine .ask (Model.shapeOf_accountable declared) fun shape _ => ?_
    exact plainForward_accountable declared shape

theorem plainRelated_accountable (declared : m.Declares p) {shape : Shape}
    (leads : m.Leads shape) : m.AccountableRun (plainRelated m o p shape) := by
  unfold plainRelated
  split
  · exact .pure _
  · split
    · exact (reversePredicateOf_accountable declared).bind fun _ _ => .pure _
    · exact .pure _
  next c described =>
    have known := Model.knows_mem (describedBy_describable leads described).1
    refine .bind (reversePredicateOf_accountable declared) fun _ _ => ?_
    exact (templateOf_accountable known).bind fun _ _ => .pure _

theorem related_accountable (declared : m.Declares p) : m.AccountableRun (related m o p) := by
  unfold related
  split
  · refine .ask (Model.spliceTarget_accountable declared) fun d target => ?_
    have known := Model.spliceTarget_knows target
    refine .ask (splicedNames_accountable _ d known) fun _ _ => ?_
    refine .bind (reversePredicateOf_accountable declared) fun _ _ => ?_
    exact (templateOf_accountable known).bind fun _ _ => .pure _
  · refine .ask (Model.shapeOf_accountable declared) fun shape read => ?_
    exact plainRelated_accountable declared (Model.shapeOf_leads read)

theorem classTemplate_accountable (member : c ∈ m.classes) :
    m.AccountableRun (classTemplate m o c) := by
  refine .ask (Model.effectiveProperties_accountable member) fun ps own => ?_
  have declared := Model.effectiveProperties_declares member own
  refine .bind (.mapM fun p among => forward_accountable (declared p among)) fun _ _ => ?_
  refine .bind (.mapM fun p among => related_accountable (declared p among)) fun _ _ => ?_
  exact .pure _

theorem rules_accountable : m.AccountableRun (rules m o) := by
  refine .ask Model.rootClasses_accountable fun roots found => ?_
  refine .bind (.mapM fun c root => ?_) fun _ _ => ?_
  · have known := Model.knows_mem (Model.rootClasses_knows found c root)
    exact (templateOf_accountable known).bind fun _ _ => .pure _
  · refine .bind (.mapM fun c described => ?_) fun _ _ => .pure _
    exact classTemplate_accountable (List.mem_of_mem_filter described)

theorem generate_accountable (s : Source) : s.model.Accountable (generate s) :=
  Model.checkSplicing_accountable.bind fun _ _ => (rules_accountable _).bind fun _ _ => .ok _

end Lifting

/-! ### Stylesheets to documents -/

namespace Lowering

variable {y : Plan} {p : Property} {c : Class}

theorem templateOf_accountable (member : c ∈ y.model.classes) :
    y.model.AccountableRun (y.templateOf c) := by
  refine .ask (Model.resolve_accountable y.outlook member) fun found _ => ?_
  cases found with
  | none => exact .pure _
  | some d => exact .bind (.succeeds fun _ => ⟨_, rfl⟩) fun _ _ => .pure _

theorem typeName_accountable (member : c ∈ y.model.classes) :
    y.model.AccountableRun (y.typeName c) := by
  refine .ask (Model.resolve_accountable y.schemaOutlook member) fun found _ => ?_
  cases found with
  | none => exact .pure _
  | some d => exact .succeeds fun _ => ⟨_, rfl⟩

theorem branch_accountable {root : Class} (member : c ∈ y.model.classes) :
    y.model.AccountableRun (y.branch root c) := by
  unfold Plan.branch
  split
  · exact .throw ⟨c, member, rfl⟩
  · split
    · refine .bind (.pure _) fun _ _ => ?_
      exact (templateOf_accountable member).bind fun _ _ => .pure _
    · refine .bind (typeName_accountable member).map fun _ _ => ?_
      exact (templateOf_accountable member).bind fun _ _ => .pure _

theorem contentOf_accountable (declared : y.model.Declares p) {shape : Shape}
    (leads : y.model.Leads shape) : y.model.AccountableRun (y.contentOf p shape) := by
  unfold Plan.contentOf
  split
  · split
    · exact .throw ⟨p, declared, rfl⟩
    · refine .ask (Model.only_accountable declared _) fun one _ => ?_
      split <;> exact .pure _
  next c => exact (templateOf_accountable (Model.knows_mem leads.1)).map
  next plan =>
    obtain ⟨described, grounded⟩ := leads
    have known (c : Class) (among : c ∈ plan.candidates) := Model.knows_mem (described c among).1
    split
    · exact .pure _
    next root derived base =>
      rw [ChoicePlan.Grounded, base] at grounded
      refine .bind (.mapM fun c among => branch_accountable (known c among)) fun _ _ => ?_
      exact (templateOf_accountable (known root grounded.1)).bind fun _ _ => .pure _

theorem item_accountable (declared : y.model.Declares p) :
    y.model.AccountableRun (y.item p) := by
  unfold Plan.item
  split
  · refine .ask (Model.spliceTarget_accountable declared) fun d target => ?_
    exact (templateOf_accountable (Model.spliceTarget_knows target)).bind fun _ _ => .pure _
  · refine .ask (Model.shapeOf_accountable declared) fun shape read => ?_
    refine .bind (contentOf_accountable declared (Model.shapeOf_leads read)) fun _ _ => ?_
    exact .pure _

theorem classTemplate_accountable (member : c ∈ y.model.classes) :
    y.model.AccountableRun (y.classTemplate c) := by
  refine .ask (Model.effectiveProperties_accountable member) fun ps own => ?_
  refine .bind (.mapM fun p among => ?_) fun _ _ => .pure _
  exact item_accountable (Model.effectiveProperties_declares member own p among)

theorem rootRule_accountable {priority : Nat} (member : c ∈ y.model.classes) :
    y.model.AccountableRun (y.rootRule c priority) := by
  unfold Plan.rootRule
  split
  · exact .throw ⟨c, member, rfl⟩
  · exact (templateOf_accountable member).bind fun _ _ => .pure _

theorem rootRules_accountable {cs : List Class} (known : ∀ c ∈ cs, c ∈ y.model.classes) :
    y.model.AccountableRun (y.rootRules cs) := by
  induction cs with
  | nil => exact .pure _
  | cons c cs ih =>
    obtain ⟨first, rest⟩ := List.forall_mem_cons.mp known
    exact (rootRule_accountable first).bind fun _ _ => (ih rest).bind fun _ _ => .pure _

theorem rules_accountable : y.model.AccountableRun y.rules := by
  refine .ask Model.rootClasses_accountable fun roots found => ?_
  have known := Model.rootClasses_knows found
  refine .bind (rootRules_accountable fun c root => Model.knows_mem (known c root)) fun _ _ => ?_
  refine .bind (.mapM fun c described => ?_) fun _ _ => .pure _
  exact classTemplate_accountable (List.mem_of_mem_filter described)

theorem generate_accountable (s : Source) : s.model.Accountable (generate s) :=
  Model.checkSplicing_accountable.bind fun _ _ =>
    (rules_accountable _).bind fun _ _ => .ok _

end Lowering

/-! ### Artifacts -/

theorem Model.Accounts.element {m : Model} {e : GenerationError} (h : m.Accounts e) :
    ∃ iri, e.element = some iri := by
  cases e with
  | sinkFailed _ => exact h.elim
  | _ => exact ⟨_, rfl⟩

/-- What an error names is part of the model, unless it is a reference that leads nowhere. -/
theorem Model.Accounts.names {m : Model} {e : GenerationError} {iri : String} (h : m.Accounts e)
    (known : ∀ cls referrer, e ≠ .unknownClass cls referrer) (named : e.element = some iri) :
    m.HasClass iri ∨ m.HasProperty iri := by
  cases e with
  | unknownClass cls referrer => exact absurd rfl (known cls referrer)
  | sinkFailed _ => exact h.elim
  | parentOutsideChoice _ _ _ => exact .inr (Option.some.inj named ▸ h.1)
  | duplicateRootElement _ _ _ => exact .inl (Option.some.inj named ▸ h.1)
  | multipleInheritance _ | inheritanceCycle _ | missingInterpretation _ _ | recursiveModel _
  | unresolvedImport _ _ _ => exact .inl (Option.some.inj named ▸ h)
  | _ => exact .inr (Option.some.inj named ▸ h)

theorem Source.artifact_accountable (s : Source) (kind : ArtifactKind) :
    s.model.Accountable (s.artifact kind) := by
  cases kind with
  | schema => exact (Schema.generate_accountable s).map
  | query => exact Query.generate_accountable s
  | lifting => exact (Lifting.generate_accountable s).map
  | lowering => exact (Lowering.generate_accountable s).map

/-- A refusal is never a failure to store, and it names an element of the model. Only an unknown
class is none; what refers to it is one, or the model itself, and does hold that reference. -/
theorem Source.refusal_attributable {s : Source} {kind : ArtifactKind} {e : GenerationError}
    (refused : s.artifact kind = .error e) :
    e.family ≠ .storage ∧
    ((∀ cls referrer, e ≠ .unknownClass cls referrer) →
      ∃ iri, e.element = some iri ∧ (s.model.HasClass iri ∨ s.model.HasProperty iri)) ∧
    ∀ cls referrer, e = .unknownClass cls referrer →
      ¬ s.model.HasClass cls ∧ s.model.Cites cls referrer := by
  have accounts := s.artifact_accountable kind e refused
  refine ⟨fun stored => ?_, fun known => ?_, ?_⟩
  · cases e with
    | sinkFailed _ => exact accounts
    | _ => cases stored
  · obtain ⟨iri, named⟩ := accounts.element
    exact ⟨iri, named, accounts.names known named⟩
  · rintro cls referrer rfl
    exact accounts

/-- A person reports to another one, and the parent of a class that nothing leads to is missing. -/
def payroll : Source :=
  { model := (Model.make "payroll" "office").rootedAt ["Person"]
      |>.declaring ((Class.make "Person" "Person")
        |>.declaring ((Property.make "manager" "https://ex.org/manager").association "Person"))
      |>.declaring ((Class.make "Temp" "Temp").extending "Contractor")
    manifests := []
    config := { output := { baseAddress := "https://own.org/" } } }

theorem Source.refusal_attributable_payroll :
    payroll.artifact .query = .error (.recursiveModel "Person") ∧
    payroll.artifact .schema = .error (.unknownClass "Contractor" "Temp") ∧
    (payroll.model.HasClass "Person" ∨ payroll.model.HasProperty "Person") ∧
    ¬ payroll.model.HasClass "Contractor" ∧ payroll.model.Cites "Contractor" "Temp" := by
  have circle : payroll.artifact .query = .error (.recursiveModel "Person") := by cbv
  have missing : payroll.artifact .schema = .error (.unknownClass "Contractor" "Temp") := by cbv
  obtain ⟨_, person, _⟩ := Source.refusal_attributable circle
  obtain ⟨_, _, contractor⟩ := Source.refusal_attributable missing
  obtain ⟨iri, named, element⟩ := person fun _ _ same => by cases same
  obtain rfl := Option.some.inj named
  exact ⟨circle, missing, element, contractor "Contractor" "Temp" rfl⟩

end RdfXmlMapping
