import RdfXmlMapping.Lifting.Generate
import RdfXmlMapping.Proofs.Steps

/-!
The steps by which a stylesheet from documents to RDF grows: what each of them makes, and which
steps it has taken for that.
-/

namespace RdfXmlMapping.Lifting

variable {m : Model} {o : Import.Outlook} {p : Property} {c : Class} {s t : Progress}
  {name : String}

theorem templateOf_made (h : templateOf m o c s = .ok (name, t)) : ∃ found,
    o.resolve m c = .ok found ∧ name = templateName c.iri ∧
      t = { s with imports := found.elim s.imports fun d => (s.imports.register d).2 } := by
  obtain ⟨found, _, resolved, h⟩ := bind_ok h
  obtain ⟨resolved, rfl⟩ := lift_ok resolved
  refine ⟨found, resolved, ?_⟩
  cases found with
  | none =>
    cases pure_ok h
    exact ⟨rfl, rfl⟩
  | some d =>
    obtain ⟨_, _, entered, h⟩ := bind_ok h
    cases modify_ok entered
    cases pure_ok h
    exact ⟨rfl, rfl⟩

theorem predicateOf_made (h : predicateOf p s = .ok (name, t)) : ∃ predicates,
    s.predicates.qualify p.predicate = (some name, predicates) ∧ t = { s with predicates } := by
  unfold predicateOf at h
  split at h
  next qualified =>
    obtain ⟨rfl, rfl⟩ := Prod.mk.inj (Except.ok.inj h)
    exact ⟨_, qualified, rfl⟩
  next => cases h

/-- How the predicate has been made that the description of a value states. -/
inductive ReverseMade (p : Property) (s : Progress) : Option String → Progress → Prop
  | forward : p.isReverse = false → ReverseMade p s none s
  | reverse {name : String} {t : Progress} : p.isReverse → predicateOf p s = .ok (name, t) →
      ReverseMade p s (some name) t

theorem reversePredicateOf_made {reverse : Option String}
    (h : reversePredicateOf p s = .ok (reverse, t)) : ReverseMade p s reverse t := by
  unfold reversePredicateOf at h
  split at h
  next turned =>
    obtain ⟨name, found, rfl⟩ := map_ok h
    exact .reverse turned found
  next forward =>
    cases pure_ok h
    exact .forward (Bool.eq_false_iff.mpr forward)

/-! ### What is stated for a property -/

/-- The triples for plain values in an element. -/
def plainTriples (element predicate : String) : Primitive → Forward
  | .codelist _ => .codelist element predicate
  | .datatype iri =>
    if iri = Vocabulary.langString then .languageText element predicate
    else .literal element predicate iri

/-- A shape of values that are instances. -/
def OfInstances (m : Model) (p : Property) : Prop :=
  ∃ shape, m.shapeOf p = .ok shape ∧ ∀ primitives, shape ≠ .primitive primitives

/-- How the triples of a property inside the description have been made. -/
inductive ForwardMade (m : Model) (p : Property) (s : Progress) : List Forward → Progress → Prop
  | reverse : p.isReverse → (p.isSpliced = false → OfInstances m p) → ForwardMade m p s [] s
  | spliced {d : Class} {present : List String} {name : String} {t : Progress} : p.isSpliced →
      p.isReverse = false → predicateOf p s = .ok (name, t) → m.spliceTarget p = .ok d →
      contentNames m d = .ok present →
      ForwardMade m p s [.spliced present name (toNCName p.label)] t
  | plain {one : Primitive} {name : String} {t : Progress} : p.isSpliced = false →
      p.isReverse = false → m.shapeOf p = .ok (.primitive [one]) →
      predicateOf p s = .ok (name, t) →
      ForwardMade m p s [plainTriples (toNCName p.label) name one] t
  | link {name : String} {t : Progress} : p.isSpliced = false → p.isReverse = false →
      OfInstances m p → predicateOf p s = .ok (name, t) →
      ForwardMade m p s [.link (toNCName p.label) name] t

theorem plainForward_made {shape : Shape} {fs : List Forward} (inPlace : p.isSpliced = false)
    (read : m.shapeOf p = .ok shape) (h : plainForward p shape s = .ok (fs, t)) :
    ForwardMade m p s fs t := by
  unfold plainForward at h
  split at h
  next primitives =>
    split at h
    · exact (throw_ok (bind_ok h).choose_spec.choose_spec.1).elim
    next forward =>
      obtain ⟨name, u, found, h⟩ := bind_ok h
      obtain ⟨one, _, only, h⟩ := bind_ok h
      obtain ⟨only, rfl⟩ := lift_ok only
      have alone : primitives = [one] := by
        unfold Primitive.only at only
        split at only
        · rw [Except.ok.inj only]
        · cases only
      have made : ForwardMade m p s [plainTriples (toNCName p.label) name one] u :=
        .plain inPlace (Bool.eq_false_iff.mpr forward) (alone ▸ read) found
      cases one with
      | codelist d =>
        cases pure_ok h
        exact made
      | datatype iri =>
        dsimp only at h
        unfold plainTriples at made
        dsimp only at made
        split at h
        next text =>
          cases pure_ok h
          rwa [if_pos text] at made
        next other =>
          cases pure_ok h
          rwa [if_neg other] at made
  next other =>
    have instances : OfInstances m p := ⟨shape, read, other⟩
    split at h
    next reverse =>
      cases pure_ok h
      exact .reverse reverse fun _ => instances
    next forward =>
      obtain ⟨name, _, found, h⟩ := bind_ok h
      cases pure_ok h
      exact .link inPlace (Bool.eq_false_iff.mpr forward) instances found

theorem forward_made {fs : List Forward} (h : forward m p s = .ok (fs, t)) :
    ForwardMade m p s fs t := by
  unfold forward at h
  split at h
  next spliced =>
    split at h
    next reverse =>
      cases pure_ok h
      exact .reverse reverse fun inPlace => absurd spliced (by simp [inPlace])
    next forward =>
      obtain ⟨name, _, found, h⟩ := bind_ok h
      obtain ⟨d, _, target, h⟩ := bind_ok h
      obtain ⟨target, rfl⟩ := lift_ok target
      obtain ⟨present, _, contents, h⟩ := bind_ok h
      obtain ⟨contents, rfl⟩ := lift_ok contents
      cases pure_ok h
      exact .spliced spliced (Bool.eq_false_iff.mpr forward) found target contents
  next inPlace =>
    obtain ⟨shape, _, read, h⟩ := bind_ok h
    obtain ⟨read, rfl⟩ := lift_ok read
    exact plainForward_made (Bool.eq_false_iff.mpr inPlace) read h

/-- How what follows the description for a property has been made. -/
inductive RelatedMade (m : Model) (o : Import.Outlook) (p : Property) (s : Progress) :
    List Related → Progress → Prop
  | spliced {d : Class} {present : List String} {reverse : Option String} {template : String}
      {t u : Progress} : p.isSpliced → m.spliceTarget p = .ok d → contentNames m d = .ok present →
      ReverseMade p s reverse t → templateOf m o d t = .ok (template, u) →
      RelatedMade m o p s [.spliced present (toNCName p.label) reverse template] u
  | nested {shape : Shape} {d : Class} {reverse : Option String} {template : String}
      {t u : Progress} : p.isSpliced = false → m.shapeOf p = .ok shape →
      describedBy shape = some d → ReverseMade p s reverse t →
      templateOf m o d t = .ok (template, u) →
      RelatedMade m o p s [.nested (toNCName p.label) reverse (some template)] u
  | plain {primitives : List Primitive} : p.isSpliced = false →
      m.shapeOf p = .ok (.primitive primitives) → RelatedMade m o p s [] s
  | placeholder {plan : ChoicePlan} {label : String} : p.isSpliced = false →
      m.shapeOf p = .ok (.choice plan) → plan.base = .placeholder label → p.isReverse = false →
      RelatedMade m o p s [] s
  | stated {plan : ChoicePlan} {label name : String} {t : Progress} : p.isSpliced = false →
      m.shapeOf p = .ok (.choice plan) → plan.base = .placeholder label → p.isReverse →
      predicateOf p s = .ok (name, t) →
      RelatedMade m o p s [.nested (toNCName p.label) (some name) none] t

theorem plainRelated_made {shape : Shape} {rs : List Related} (inPlace : p.isSpliced = false)
    (read : m.shapeOf p = .ok shape) (h : plainRelated m o p shape s = .ok (rs, t)) :
    RelatedMade m o p s rs t := by
  have described {d : Class} (by_class : describedBy shape = some d)
      (h : (do
        let reverse ← reversePredicateOf p
        return [.nested (toNCName p.label) reverse (some (← templateOf m o d))] :
          Build (List Related)) s = .ok (rs, t)) : RelatedMade m o p s rs t := by
    obtain ⟨reverse, _, found, h⟩ := bind_ok h
    obtain ⟨template, _, made, h⟩ := bind_ok h
    cases pure_ok h
    exact .nested inPlace read by_class (reversePredicateOf_made found) made
  cases shape with
  | primitive primitives =>
    cases pure_ok h
    exact .plain inPlace read
  | single d => exact described rfl h
  | choice plan =>
    unfold plainRelated at h
    cases base : plan.base with
    | rooted root derived =>
      have by_class : describedBy (.choice plan) = some root := by rw [describedBy, base]
      rw [by_class] at h
      exact described by_class h
    | placeholder label =>
      have by_none : describedBy (.choice plan) = none := by rw [describedBy, base]
      rw [by_none] at h
      dsimp only at h
      split at h
      next turned =>
        obtain ⟨reverse, _, found, h⟩ := bind_ok h
        cases pure_ok h
        cases reversePredicateOf_made found with
        | forward forward => exact absurd turned (by simp [forward])
        | reverse _ named => exact .stated inPlace read base turned named
      next forward =>
        cases pure_ok h
        exact .placeholder inPlace read base (Bool.eq_false_iff.mpr forward)

theorem related_made {rs : List Related} (h : related m o p s = .ok (rs, t)) :
    RelatedMade m o p s rs t := by
  unfold related at h
  split at h
  next spliced =>
    obtain ⟨d, _, target, h⟩ := bind_ok h
    obtain ⟨target, rfl⟩ := lift_ok target
    obtain ⟨present, _, contents, h⟩ := bind_ok h
    obtain ⟨contents, rfl⟩ := lift_ok contents
    obtain ⟨reverse, _, found, h⟩ := bind_ok h
    obtain ⟨template, _, made, h⟩ := bind_ok h
    cases pure_ok h
    exact .spliced spliced target contents (reversePredicateOf_made found) made
  next inPlace =>
    obtain ⟨shape, _, read, h⟩ := bind_ok h
    obtain ⟨read, rfl⟩ := lift_ok read
    exact plainRelated_made (Bool.eq_false_iff.mpr inPlace) read h

/-! ### Templates and rules -/

theorem classTemplate_made {template : Template} (h : classTemplate m o c s = .ok (template, t)) :
    ∃ ps fs rs u, m.effectiveProperties c = .ok ps ∧ Runs (forward m) ps fs s u ∧
      Runs (related m o) ps rs u t ∧
      template = ⟨templateName c.iri, c.meaning, fs.flatten, rs.flatten⟩ := by
  obtain ⟨ps, _, own, h⟩ := bind_ok h
  obtain ⟨own, rfl⟩ := lift_ok own
  obtain ⟨fs, u, first, h⟩ := bind_ok h
  obtain ⟨rs, _, second, h⟩ := bind_ok h
  cases pure_ok h
  exact ⟨ps, fs, rs, u, own, mapM_ok first, mapM_ok second, rfl⟩

theorem rootRule_made {r : RootRule} (h : rootRule m o c s = .ok (r, t)) : ∃ template,
    templateOf m o c s = .ok (template, t) ∧
      r = ⟨Stylesheet.targetName m.target? (Model.elementName c), template⟩ := by
  obtain ⟨template, _, made, h⟩ := bind_ok h
  cases pure_ok h
  exact ⟨template, made, rfl⟩

theorem rules_made {roots : List RootRule} {templates : List Template}
    (h : rules m o s = .ok ((roots, templates), t)) : ∃ cs u, m.rootClasses = .ok cs ∧
      Runs (rootRule m o) cs roots s u ∧
      Runs (classTemplate m o) m.describedClasses templates u t := by
  obtain ⟨cs, _, found, h⟩ := bind_ok h
  obtain ⟨found, rfl⟩ := lift_ok found
  obtain ⟨roots, u, first, h⟩ := bind_ok h
  obtain ⟨templates, _, second, h⟩ := bind_ok h
  cases pure_ok h
  exact ⟨cs, u, found, mapM_ok first, mapM_ok second⟩

/-- How the stylesheet of a source has been made. -/
structure Made (s : Source) (l : Lifting) (cs : List Class) (between last : Progress) : Prop where
  checked : s.model.checkSplicing = .ok ()
  found : s.model.rootClasses = .ok cs
  roots : Runs (rootRule s.model (s.outlook .lifting)) cs l.roots (begun s.model) between
  templates : Runs (classTemplate s.model (s.outlook .lifting)) s.model.describedClasses l.templates
    between last
  target : l.target = s.model.target?
  predicates : l.predicates = last.predicates.bindings
  imports : l.imports = last.imports.entries.map (·.descriptor.reference)

theorem generate_made {s : Source} {l : Lifting} (h : generate s = .ok l) :
    ∃ cs between last, Made s l cs between last := by
  obtain ⟨_, checked, h⟩ := except_bind_ok h
  obtain ⟨⟨⟨roots, templates⟩, last⟩, run, h⟩ := except_bind_ok h
  obtain rfl := Except.ok.inj h
  obtain ⟨cs, between, found, rules, each⟩ := rules_made run
  exact ⟨cs, between, last, checked, found, rules, each, rfl, rfl, rfl⟩

end RdfXmlMapping.Lifting
