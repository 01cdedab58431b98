import RdfXmlMapping.Lowering.Generate
import RdfXmlMapping.Proofs.Steps

/-!
The steps by which a stylesheet from query results to documents grows: what each of them makes, and
which steps it has taken for that.
-/

namespace RdfXmlMapping.Lowering

variable {y : Plan} {p : Property} {c root : Class} {s t : Progress}

theorem templateOf_made {name : String} (h : y.templateOf c s = .ok (name, t)) : ∃ found,
    y.outlook.resolve y.model c = .ok found ∧ name = templateName c.iri ∧
      t = { s with imports := found.elim s.imports fun d => (s.imports.register d).2 } := by
  obtain ⟨found, _, resolved, h⟩ := bind_ok h
  obtain ⟨resolved, rfl⟩ := lift_ok resolved
  refine ⟨found, resolved, ?_⟩
  cases found with
  | none =>
    cases pure_ok h
    exact ⟨rfl, rfl⟩
  | some d =>
    obtain ⟨_, _, entered, h⟩ := bind_ok h
    cases modify_ok entered
    cases pure_ok h
    exact ⟨rfl, rfl⟩

/-- How the name of the type of a class has been found. -/
inductive TypeNamed (y : Plan) (c : Class) (s : Progress) : Xml.QName → Progress → Prop
  | own : y.schemaOutlook.resolve y.model c = .ok none →
      TypeNamed y c s (Stylesheet.targetName y.model.target? (y.names.get c)) s
  | imported {d : Import.Descriptor} : y.schemaOutlook.resolve y.model c = .ok (some d) →
      TypeNamed y c s ⟨(s.types.register d).1.bound, toNCName c.label⟩
        { s with types := (s.types.register d).2 }

theorem typeName_made {q : Xml.QName} (h : y.typeName c s = .ok (q, t)) : TypeNamed y c s q t := by
  obtain ⟨found, _, resolved, h⟩ := bind_ok h
  obtain ⟨resolved, rfl⟩ := lift_ok resolved
  cases found with
  | none =>
    cases pure_ok h
    exact .own resolved
  | some d =>
    obtain ⟨_, _, now, h⟩ := bind_ok h
    cases get_ok now
    obtain ⟨_, _, stored, h⟩ := bind_ok h
    cases set_ok stored
    cases pure_ok h
    exact .imported resolved

/-- How the branch for a candidate of a choice has been made. -/
inductive BranchMade (y : Plan) (root c : Class) (s t : Progress) : Branch → Prop
  | root {meaning template : String} : c.meaning = some meaning → c.iri = root.iri →
      y.templateOf c s = .ok (template, t) → BranchMade y root c s t ⟨meaning, template, none⟩
  | derived {meaning template : String} {q : Xml.QName} {u : Progress} : c.meaning = some meaning →
      c.iri ≠ root.iri → y.typeName c s = .ok (q, u) → y.templateOf c u = .ok (template, t) →
      BranchMade y root c s t ⟨meaning, template, some q⟩

theorem branch_made {b : Branch} (h : y.branch root c s = .ok (b, t)) :
    BranchMade y root c s t b := by
  rw [Plan.branch] at h
  cases meaning : c.meaning with
  | none =>
    rw [meaning] at h
    exact (throw_ok h).elim
  | some iri =>
    rw [meaning] at h
    dsimp only at h
    split at h
    next same =>
      obtain ⟨_, _, unstated, h⟩ := bind_ok h
      cases pure_ok unstated
      obtain ⟨name, _, made, h⟩ := bind_ok h
      cases pure_ok h
      exact .root meaning same made
    next other =>
      obtain ⟨_, _, stated, h⟩ := bind_ok h
      obtain ⟨q, named, rfl⟩ := map_ok stated
      obtain ⟨name, _, made, h⟩ := bind_ok h
      cases pure_ok h
      exact .derived meaning other named made

/-- How the content of an element for values of a shape has been made. -/
inductive ContentMade (y : Plan) (p : Property) (s : Progress) :
    Shape → Content → Progress → Prop
  | codelist {primitives : List Primitive} {d : Class} : p.isReverse = false →
      Primitive.only p primitives = .ok (.codelist d) →
      ContentMade y p s (.primitive primitives) .codelist s
  | literal {primitives : List Primitive} {iri : String} : p.isReverse = false →
      Primitive.only p primitives = .ok (.datatype iri) →
      ContentMade y p s (.primitive primitives) .literal s
  | instanceOf {d : Class} {template : String} {t : Progress} :
      y.templateOf d s = .ok (template, t) →
      ContentMade y p s (.single d) (.instanceOf template) t
  | identity {plan : ChoicePlan} {label : String} : plan.base = .placeholder label →
      ContentMade y p s (.choice plan) .identity s
  | choice {plan : ChoicePlan} {root : Class} {derived : List Derivation} {branches : List Branch}
      {template : String} {t u : Progress} : plan.base = .rooted root derived →
      Runs (y.branch root) plan.candidates branches s u →
      y.templateOf root u = .ok (template, t) →
      ContentMade y p s (.choice plan) (.choice branches template) t

theorem contentOf_made {shape : Shape} {content : Content}
    (h : y.contentOf p shape s = .ok (content, t)) : ContentMade y p s shape content t := by
  cases shape with
  | primitive primitives =>
    rw [Plan.contentOf] at h
    split at h
    · exact (throw_ok (bind_ok h).choose_spec.choose_spec.1).elim
    next forward =>
      obtain ⟨one, _, only, h⟩ := bind_ok h
      obtain ⟨only, rfl⟩ := lift_ok only
      have forward : p.isReverse = false := Bool.eq_false_iff.mpr forward
      cases one with
      | codelist d =>
        cases pure_ok h
        exact .codelist forward only
      | datatype iri =>
        cases pure_ok h
        exact .literal forward only
  | single d =>
    obtain ⟨template, made, rfl⟩ := map_ok h
    exact .instanceOf made
  | choice plan =>
    rw [Plan.contentOf] at h
    cases base : plan.base with
    | placeholder label =>
      rw [base] at h
      cases pure_ok h
      exact .identity base
    | rooted root derived =>
      rw [base] at h
      obtain ⟨branches, _, each, h⟩ := bind_ok h
      obtain ⟨template, _, made, h⟩ := bind_ok h
      cases pure_ok h
      exact .choice base (mapM_ok each) made

/-- How what is written for a property has been made. -/
inductive ItemMade (y : Plan) (p : Property) (s t : Progress) : Item → Prop
  | spliced {d : Class} {template : String} : p.isSpliced → y.model.spliceTarget p = .ok d →
      y.templateOf d s = .ok (template, t) →
      ItemMade y p s t (.spliced ⟨p.predicate, p.isReverse⟩ template)
  | element {shape : Shape} {content : Content} : p.isSpliced = false →
      y.model.shapeOf p = .ok shape → ContentMade y p s shape content t →
      ItemMade y p s t (.element ⟨p.predicate, p.isReverse⟩ (toNCName p.label) content)

theorem item_made {i : Item} (h : y.item p s = .ok (i, t)) : ItemMade y p s t i := by
  unfold Plan.item at h
  split at h
  next spliced =>
    obtain ⟨d, _, target, h⟩ := bind_ok h
    obtain ⟨target, rfl⟩ := lift_ok target
    obtain ⟨template, _, made, h⟩ := bind_ok h
    cases pure_ok h
    exact .spliced spliced target made
  next plain =>
    obtain ⟨shape, _, read, h⟩ := bind_ok h
    obtain ⟨read, rfl⟩ := lift_ok read
    obtain ⟨content, _, made, h⟩ := bind_ok h
    cases pure_ok h
    exact .element (Bool.eq_false_iff.mpr plain) read (contentOf_made made)

theorem classTemplate_made {template : Template} (h : y.classTemplate c s = .ok (template, t)) :
    ∃ ps items, y.model.effectiveProperties c = .ok ps ∧ Runs y.item ps items s t ∧
      template = ⟨templateName c.iri, items⟩ := by
  obtain ⟨ps, _, own, h⟩ := bind_ok h
  obtain ⟨own, rfl⟩ := lift_ok own
  obtain ⟨items, _, each, h⟩ := bind_ok h
  cases pure_ok h
  exact ⟨ps, items, own, mapM_ok each, rfl⟩

theorem rootRule_made {priority : Nat} {r : RootRule} (h : y.rootRule c priority s = .ok (r, t)) :
    ∃ meaning template, c.meaning = some meaning ∧ y.templateOf c s = .ok (template, t) ∧
      r = ⟨meaning, priority, Stylesheet.targetName y.model.target? (Model.elementName c),
        template⟩ := by
  rw [Plan.rootRule] at h
  cases meaning : c.meaning with
  | none =>
    rw [meaning] at h
    exact (throw_ok h).elim
  | some iri =>
    rw [meaning] at h
    obtain ⟨template, _, made, h⟩ := bind_ok h
    cases pure_ok h
    exact ⟨iri, template, rfl, made, rfl⟩

/-- The rules for root classes have been made one after the other. -/
inductive RulesMade (y : Plan) : List Class → List RootRule → Progress → Progress → Prop
  | nil (s : Progress) : RulesMade y [] [] s s
  | cons {c : Class} {cs : List Class} {rules : List RootRule} {meaning template : String}
      {s t u : Progress} : c.meaning = some meaning → y.templateOf c s = .ok (template, t) →
      RulesMade y cs rules t u →
      RulesMade y (c :: cs) (⟨meaning, cs.length + 1,
        Stylesheet.targetName y.model.target? (Model.elementName c), template⟩ :: rules) s u

theorem rootRules_made {cs : List Class} {rules : List RootRule}
    (h : y.rootRules cs s = .ok (rules, t)) : RulesMade y cs rules s t := by
  induction cs generalizing s rules with
  | nil =>
    cases pure_ok h
    exact .nil _
  | cons c cs ih =>
    obtain ⟨rule, _, first, h⟩ := bind_ok h
    obtain ⟨rest, _, others, h⟩ := bind_ok h
    cases pure_ok h
    obtain ⟨meaning, template, meant, made, rfl⟩ := rootRule_made first
    exact .cons meant made (ih others)

theorem rules_made {roots : List RootRule} {templates : List Template}
    (h : y.rules s = .ok ((roots, templates), t)) : ∃ cs u, y.model.rootClasses = .ok cs ∧
      RulesMade y cs roots s u ∧ Runs y.classTemplate y.model.describedClasses templates u t := by
  obtain ⟨cs, _, found, h⟩ := bind_ok h
  obtain ⟨found, rfl⟩ := lift_ok found
  obtain ⟨roots, u, first, h⟩ := bind_ok h
  obtain ⟨templates, _, each, h⟩ := bind_ok h
  cases pure_ok h
  exact ⟨cs, u, found, rootRules_made first, mapM_ok each⟩

/-- How the stylesheet of a source has been made. -/
structure Made (s : Source) (l : Lowering) (cs : List Class) (between last : Progress) : Prop where
  checked : s.model.checkSplicing = .ok ()
  found : s.model.rootClasses = .ok cs
  roots : RulesMade (.ofSource s) cs l.roots ⟨firstImports s.model, firstImports s.model⟩ between
  templates : Runs (Plan.ofSource s).classTemplate s.model.describedClasses l.templates between last
  target : l.target = s.model.target?
  bindings : l.bindings = s.config.bindings
  types : l.types = last.types.entries
  imports : l.imports = last.imports.entries.map (·.descriptor.reference)

theorem generate_made {s : Source} {l : Lowering} (h : generate s = .ok l) :
    ∃ cs between last, Made s l cs between last := by
  obtain ⟨_, checked, h⟩ := except_bind_ok h
  obtain ⟨⟨⟨roots, templates⟩, last⟩, run, h⟩ := except_bind_ok h
  obtain rfl := Except.ok.inj h
  obtain ⟨cs, between, found, rules, each⟩ := rules_made run
  exact ⟨cs, between, last, checked, found, rules, each, rfl, rfl, rfl, rfl⟩

end RdfXmlMapping.Lowering
