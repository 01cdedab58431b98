import RdfXmlMapping.Lifting.Generate
import RdfXmlMapping.Lowering.Generate
import RdfXmlMapping.Proofs.Model.Redeclare

/-!
Stylesheets of models that differ in properties only. No template asks for properties that differ.
-/

namespace RdfXmlMapping.Lifting

variable {m : Model} {f : Class → List Property} {o : Import.Outlook} {p : Property} {c : Class}

theorem splicedNames_redeclare (h : m.Hides f) (chain : List String) : ∀ c ∈ m.classes,
    f c = c.properties → splicedNames (m.redeclare f) chain c = splicedNames m chain c := by
  induction chain using Model.walk_induction m with
  | step chain ih =>
    intro c member shown
    rw [splicedNames, splicedNames, h.effectiveProperties member shown]
    refine bind_congr fun ps => ?_
    refine congrArg (· >>= _) (mapM_congr fun p _ => ?_)
    split
    · rw [Model.spliceTarget_redeclare, bind_map_left]
      cases target : m.spliceTarget p with
      | error e => rfl
      | ok d =>
        obtain ⟨describable, own⟩ := Model.spliceTarget_ok target
        have known := Model.knows_mem describable.1
        have shown := h.of_describable describable own
        have enters := Model.canEnter_redeclare (m := m) (f := f) chain d.iri
        change (if _ : (m.redeclare f).canEnter chain (d.redeclare f).iri then
          splicedNames (m.redeclare f) ((d.redeclare f).iri :: chain) (d.redeclare f) else _) =
            if _ : m.canEnter chain d.iri then splicedNames m (d.iri :: chain) d else _
        rw [Model.redeclare_eq.mpr shown]
        by_cases way : m.canEnter chain d.iri
        · rw [dif_pos way, dif_pos (enters.trans way), ih d.iri way d known shown]
        · rw [dif_neg way, dif_neg fun entered => way (enters.symm.trans entered)]
    · rfl

theorem contentNames_redeclare (h : m.Hides f) (member : c ∈ m.classes)
    (shown : f c = c.properties) : contentNames (m.redeclare f) c = contentNames m c :=
  splicedNames_redeclare h [c.iri] c member shown

theorem templateOf_redeclare : templateOf (m.redeclare f) o (c.redeclare f) = templateOf m o c :=
  rfl

theorem plainForward_map (g : Class → Class) (shape : Shape) :
    plainForward p (shape.map g) = plainForward p shape := by
  cases shape with
  | single _ | choice _ => rfl
  | primitive primitives =>
    unfold plainForward
    dsimp only [Shape.map]
    rw [Primitive.only_map]
    split
    · rfl
    · refine bind_congr fun predicate => ?_
      rw [lift_map_bind]
      refine bind_congr fun primitive => ?_
      cases primitive <;> rfl

theorem forward_redeclare (h : m.Hides f) : forward (m.redeclare f) p = forward m p := by
  unfold forward
  split
  · split
    · rfl
    · refine bind_congr fun predicate => ?_
      rw [Model.spliceTarget_redeclare, lift_map_bind]
      cases target : m.spliceTarget p with
      | error e => rw [lift_error_bind, lift_error_bind]
      | ok d =>
        obtain ⟨describable, own⟩ := Model.spliceTarget_ok target
        have shown := h.of_describable describable own
        rw [lift_ok_bind, lift_ok_bind, Model.redeclare_eq.mpr shown,
          contentNames_redeclare h (Model.knows_mem describable.1) shown]
  · rw [Model.shapeOf_redeclare, lift_map_bind]
    exact bind_congr fun shape => plainForward_map _ shape

theorem plainRelated_redeclare (shape : Shape) :
    plainRelated (m.redeclare f) o p (shape.map (Class.redeclare f)) =
      plainRelated m o p shape := by
  cases shape with
  | primitive _ | single _ => rfl
  | choice plan =>
    obtain ⟨candidates, base⟩ := plan
    cases base <;> rfl

theorem related_redeclare (h : m.Hides f) : related (m.redeclare f) o p = related m o p := by
  unfold related
  split
  · rw [Model.spliceTarget_redeclare, lift_map_bind]
    cases target : m.spliceTarget p with
    | error e => rw [lift_error_bind, lift_error_bind]
    | ok d =>
      obtain ⟨describable, own⟩ := Model.spliceTarget_ok target
      have shown := h.of_describable describable own
      have named : templateOf (m.redeclare f) o d = templateOf m o d := by
        have both := templateOf_redeclare (m := m) (f := f) (o := o) (c := d)
        rwa [Model.redeclare_eq.mpr shown] at both
      rw [lift_ok_bind, lift_ok_bind, Model.redeclare_eq.mpr shown, named,
        contentNames_redeclare h (Model.knows_mem describable.1) shown]
  · rw [Model.shapeOf_redeclare, lift_map_bind]
    exact bind_congr fun shape => plainRelated_redeclare shape

theorem classTemplate_redeclare (h : m.Hides f) (member : c ∈ m.describedClasses) :
    classTemplate (m.redeclare f) o c = classTemplate m o c := by
  have forward : forward (m.redeclare f) = forward m := funext fun p => forward_redeclare h
  have related : related (m.redeclare f) o = related m o := funext fun p => related_redeclare h
  unfold classTemplate
  rw [h.effectiveProperties (List.mem_filter.mp member).1 (h.of_described member), forward, related]

theorem rootRule_redeclare (h : m.Hides f) (known : m.Knows c) (root : m.isRoot c.iri) :
    rootRule (m.redeclare f) o c = rootRule m o c := by
  have same : c.redeclare f = c := Model.redeclare_eq.mpr (h.of_root (Model.knows_mem known) root)
  have named := templateOf_redeclare (m := m) (f := f) (o := o) (c := c)
  rw [same] at named
  unfold rootRule
  rw [named]
  rfl

theorem rules_redeclare (h : m.Hides f) : rules (m.redeclare f) o = rules m o := by
  unfold rules
  rw [h.rootClasses, h.describedClasses]
  cases found : m.rootClasses with
  | error e => rw [lift_error_bind, lift_error_bind]
  | ok roots =>
    have each : roots.mapM (rootRule (m.redeclare f) o) = roots.mapM (rootRule m o) :=
      mapM_congr fun c member => rootRule_redeclare h (Model.rootClasses_knows found c member)
        (Model.rootClasses_isRoot found c member)
    have templates : m.describedClasses.mapM (classTemplate (m.redeclare f) o) =
        m.describedClasses.mapM (classTemplate m o) :=
      mapM_congr fun c member => classTemplate_redeclare h member
    rw [lift_ok_bind, lift_ok_bind, each, templates]

theorem unchecked_redeclare {s : Source} (h : s.model.Hides f) :
    unchecked (s.redeclare f) = unchecked s := by
  have same : rules (s.redeclare f).model ((s.redeclare f).outlook .lifting) =
      rules s.model (s.outlook .lifting) := rules_redeclare h
  unfold unchecked
  rw [same]
  rfl

end RdfXmlMapping.Lifting

namespace RdfXmlMapping.Lowering

variable {x : Plan} {f : Class → List Property} {p : Property} {c : Class}

/-- The plan for the model with other properties. -/
def Plan.redeclare (f : Class → List Property) (x : Plan) : Plan :=
  { x with model := x.model.redeclare f }

theorem templateOf_redeclare : (x.redeclare f).templateOf (c.redeclare f) = x.templateOf c := rfl

theorem contentOf_redeclare (shape : Shape) :
    (x.redeclare f).contentOf p (shape.map (Class.redeclare f)) = x.contentOf p shape := by
  cases shape with
  | single c => rfl
  | primitive primitives =>
    unfold Plan.contentOf
    dsimp only [Shape.map]
    rw [Primitive.only_map]
    split
    · rfl
    · rw [lift_map_bind]
      refine bind_congr fun primitive => ?_
      cases primitive <;> rfl
  | choice plan =>
    obtain ⟨candidates, base⟩ := plan
    cases base with
    | placeholder name => rfl
    | rooted root derived =>
      have branches : (candidates.map (Class.redeclare f)).mapM
          ((x.redeclare f).branch (root.redeclare f)) = candidates.mapM (x.branch root) := by
        rw [List.mapM_map]
        rfl
      change ((candidates.map (Class.redeclare f)).mapM
        ((x.redeclare f).branch (root.redeclare f)) >>= fun branches => _) = _
      rw [branches]
      rfl

theorem item_redeclare : (x.redeclare f).item p = x.item p := by
  unfold Plan.item
  have target : (x.redeclare f).model.spliceTarget p =
    Class.redeclare f <$> x.model.spliceTarget p := Model.spliceTarget_redeclare
  have shape : (x.redeclare f).model.shapeOf p =
    Shape.map (Class.redeclare f) <$> x.model.shapeOf p := Model.shapeOf_redeclare
  rw [target, shape]
  split
  · rw [lift_map_bind]
    rfl
  · rw [lift_map_bind]
    refine bind_congr fun shape => ?_
    rw [contentOf_redeclare]

theorem classTemplate_redeclare (h : x.model.Hides f) (member : c ∈ x.model.describedClasses) :
    (x.redeclare f).classTemplate c = x.classTemplate c := by
  have own : (x.redeclare f).model.effectiveProperties c = x.model.effectiveProperties c :=
    h.effectiveProperties (List.mem_filter.mp member).1 (h.of_described member)
  have item : (x.redeclare f).item = x.item := funext fun p => item_redeclare
  unfold Plan.classTemplate
  rw [own, item]

theorem rootRule_redeclare (h : x.model.Hides f) (known : x.model.Knows c)
    (root : x.model.isRoot c.iri) : (x.redeclare f).rootRule c = x.rootRule c := by
  have same : c.redeclare f = c := Model.redeclare_eq.mpr (h.of_root (Model.knows_mem known) root)
  have named := templateOf_redeclare (x := x) (f := f) (c := c)
  rw [same] at named
  unfold Plan.rootRule
  rw [named]
  rfl

theorem rootRules_redeclare {cs : List Class}
    (each : ∀ c ∈ cs, (x.redeclare f).rootRule c = x.rootRule c) :
    (x.redeclare f).rootRules cs = x.rootRules cs := by
  induction cs with
  | nil => rfl
  | cons c cs ih =>
    obtain ⟨first, rest⟩ := List.forall_mem_cons.mp each
    rw [Plan.rootRules, Plan.rootRules, first, ih rest]

theorem rules_redeclare (h : x.model.Hides f) : (x.redeclare f).rules = x.rules := by
  have roots : (x.redeclare f).model.rootClasses = x.model.rootClasses := h.rootClasses
  have described : (x.redeclare f).model.describedClasses = x.model.describedClasses :=
    h.describedClasses
  unfold Plan.rules
  rw [roots, described]
  cases found : x.model.rootClasses with
  | error e => rw [lift_error_bind, lift_error_bind]
  | ok roots =>
    have each : (x.redeclare f).rootRules roots = x.rootRules roots :=
      rootRules_redeclare fun c member => rootRule_redeclare h
        (Model.rootClasses_knows found c member) (Model.rootClasses_isRoot found c member)
    have templates : x.model.describedClasses.mapM (x.redeclare f).classTemplate =
        x.model.describedClasses.mapM x.classTemplate :=
      mapM_congr fun c member => classTemplate_redeclare h member
    rw [lift_ok_bind, lift_ok_bind, each, templates]

theorem Plan.ofSource_redeclare (s : Source) :
    Plan.ofSource (s.redeclare f) = (Plan.ofSource s).redeclare f := by
  have names : ClassNames.ofModel (s.redeclare f).model = ClassNames.ofModel s.model :=
    ClassNames.ofModel_redeclare s.model f
  rw [Plan.ofSource, names]
  rfl

theorem unchecked_redeclare {s : Source} (h : s.model.Hides f) :
    unchecked (s.redeclare f) = unchecked s := by
  have same : (Plan.ofSource (s.redeclare f)).rules = (Plan.ofSource s).rules := by
    rw [Plan.ofSource_redeclare]
    exact rules_redeclare h
  unfold unchecked
  rw [same]
  rfl

end RdfXmlMapping.Lowering
