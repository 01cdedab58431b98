import RdfXmlMapping.Proofs.Lifting.Runs
import RdfXmlMapping.Proofs.Stylesheet.Calls

/-!
Calls of templates in the stylesheet from documents to RDF. The template of a class calls those of
the classes that describe the values of its properties, and one that writes identities; the rule for
a root calls the template of the root.
-/

namespace RdfXmlMapping.Lifting

open Stylesheet
open Xml (Element)

variable {m : Model} {o : Import.Outlook} {name : String}
variable {s t : Progress} {p : Property}

def Related.callees : Related → List String
  | spliced _ _ _ template => [template]
  | nested _ _ template => template.toList

theorem calls_nodeCall {isReference : Bool} {suffix : Suffix} :
    calls (nodeCall isReference suffix) = [nodeTemplateName] := by
  cases isReference <;> rfl

theorem callsIn_whenPresent {present : List String} {es : List Element} :
    callsIn (whenPresent present es) = callsIn es := by
  unfold whenPresent
  split
  · rfl
  · simp [callsIn, calls_onlyIf]

theorem forward_calls {f : Forward} (h : name ∈ callsIn f.toXml) : name = nodeTemplateName := by
  cases f with
  | spliced present predicate element =>
    simpa [Forward.toXml, callsIn_whenPresent, callsIn, calls_plain, calls_nodeCall] using h
  | codelist | languageText | literal =>
    simp [Forward.toXml, callsIn, calls, calls_forEach, callee, attributeOf, valueOf, copyOf] at h
  | link element predicate =>
    simpa [Forward.toXml, callsIn, calls_forEach, calls_plain, calls_nodeCall] using h

theorem related_calls {r : Related} (h : name ∈ callsIn r.toXml) :
    name = nodeTemplateName ∨ name ∈ r.callees := by
  cases r with
  | spliced present element reverse template =>
    cases reverse with
    | none =>
      exact .inr (by simpa [Related.toXml, Related.callees, callsIn_whenPresent, callsIn,
        calls_call, calls_argument] using h)
    | some predicate =>
      simpa [Related.toXml, Related.callees, callsIn_whenPresent, callsIn, calls_call,
        calls_argument, calls_plain, calls_nodeCall] using h
  | nested element reverse template =>
    cases reverse <;> cases template <;>
      simp_all [Related.toXml, Related.callees, callsIn, calls_forEach, calls_nodeCall, plainCall,
        calls, callee]

theorem template_calls {t : Template} (h : name ∈ calls t.toXml) :
    name = nodeTemplateName ∨ ∃ r ∈ t.related, name ∈ r.callees := by
  have typed : callsIn (t.meaning.elim [] fun iri =>
      [Element.leaf "rdf:type" [("rdf:resource", iri)]]) = [] := by
    cases t.meaning <;> rfl
  have parameter : calls (.leaf "xsl:param" [("name", "suffix"), ("select", "''")]) = [] := rfl
  simp only [Template.toXml, calls_template, callsIn_append, callsIn, calls_plain, calls_nodeCall,
    typed, parameter, List.mem_append, List.mem_singleton, List.nil_append, List.append_nil,
    mem_callsIn_flatMap] at h
  rcases h with (rfl | ⟨f, _, called⟩) | ⟨r, member, called⟩
  · exact .inl rfl
  · exact .inl (forward_calls called)
  · exact (related_calls called).imp_right fun callee => ⟨r, member, callee⟩

/-! #### What a run calls -/

theorem runs_imports {α β : Type} {f : α → Build β} {P : Import.Table → α → β → Prop}
    (mono : ∀ t u x y, t.entries ⊆ u.entries → P t x y → P u x y) {xs : List α} {ys : List β}
    (h : Runs f xs ys s t)
    (each : ∀ x y s t, f x s = .ok (y, t) → s.imports.entries ⊆ t.imports.entries ∧
      P t.imports x y) :
    s.imports.entries ⊆ t.imports.entries ∧ List.Forall₂ (P t.imports) xs ys :=
  runs_grow (G := fun s t : Progress => s.imports.entries ⊆ t.imports.entries)
    (P := fun s => P s.imports) (fun _ => List.Subset.refl _) (fun _ _ _ => List.Subset.trans)
    (fun _ _ => mono _ _) h fun x _ => each x

theorem templateOf_step {c : Class} (h : templateOf m o c s = .ok (name, t)) :
    s.imports.entries ⊆ t.imports.entries ∧ AtHand o m t.imports c ∧
      name = templateName c.iri := by
  obtain ⟨found, resolved, rfl, rfl⟩ := templateOf_made h
  obtain ⟨more, atHand⟩ := atHand_register resolved rfl
  exact ⟨more, atHand, rfl⟩

theorem predicateOf_imports (h : predicateOf p s = .ok (name, t)) : t.imports = s.imports := by
  obtain ⟨_, _, rfl⟩ := predicateOf_made h
  rfl

theorem ReverseMade.imports {r : Option String} (h : ReverseMade p s r t) :
    t.imports = s.imports := by
  cases h with
  | forward => rfl
  | reverse _ found => exact predicateOf_imports found

theorem forward_imports {fs : List Forward} (h : forward m p s = .ok (fs, t)) :
    t.imports = s.imports := by
  cases forward_made h with
  | reverse => rfl
  | spliced _ _ found | plain _ _ _ found | link _ _ _ found => exact predicateOf_imports found

/-- The class that describes the values of a property may be described itself. -/
theorem describedBy_describable {shape : Shape} {c : Class} (leads : m.Leads shape)
    (h : describedBy shape = some c) : m.Describable c := by
  cases shape with
  | primitive primitives => cases h
  | single d => exact Option.some.inj h ▸ leads
  | choice plan =>
    obtain ⟨each, grounded⟩ := leads
    rw [ChoicePlan.Grounded] at grounded
    rw [describedBy] at h
    cases base : plan.base with
    | rooted root derived =>
      rw [base] at h grounded
      exact Option.some.inj h ▸ each root grounded.1
    | placeholder label =>
      rw [base] at h
      cases h

theorem related_step {rs : List Related} (h : related m o p s = .ok (rs, t)) :
    s.imports.entries ⊆ t.imports.entries ∧
      ∀ r ∈ rs, ∀ n ∈ r.callees, CallsClass o m t.imports n := by
  cases related_made h with
  | spliced _ target _ reverse made =>
    obtain ⟨more, atHand, rfl⟩ := templateOf_step made
    refine ⟨reverse.imports ▸ more, fun r member n called => ?_⟩
    obtain rfl := List.mem_singleton.mp member
    obtain rfl := List.mem_singleton.mp called
    exact ⟨_, (Model.spliceTarget_ok target).1, atHand, rfl⟩
  | nested _ read described reverse made =>
    obtain ⟨more, atHand, rfl⟩ := templateOf_step made
    refine ⟨reverse.imports ▸ more, fun r member n called => ?_⟩
    obtain rfl := List.mem_singleton.mp member
    obtain rfl := List.mem_singleton.mp called
    exact ⟨_, describedBy_describable (Model.shapeOf_leads read) described, atHand, rfl⟩
  | plain | placeholder => exact ⟨List.Subset.refl _, fun r member => by cases member⟩
  | stated _ _ _ _ found =>
    refine ⟨predicateOf_imports found ▸ List.Subset.refl _, fun r member n called => ?_⟩
    obtain rfl := List.mem_singleton.mp member
    cases called

/-- The template of a class, whose calls can all be made. -/
def TemplateOf (o : Import.Outlook) (m : Model) (imports : Import.Table) (c : Class)
    (t : Template) : Prop :=
  t.name = templateName c.iri ∧ ∀ r ∈ t.related, ∀ n ∈ r.callees, CallsClass o m imports n

theorem TemplateOf.mono {t u : Import.Table} {c : Class} {template : Template}
    (h : TemplateOf o m t c template) (more : t.entries ⊆ u.entries) :
    TemplateOf o m u c template :=
  ⟨h.1, fun r member n called => (h.2 r member n called).mono more⟩

theorem classTemplate_calls {c : Class} {template : Template}
    (h : classTemplate m o c s = .ok (template, t)) :
    s.imports.entries ⊆ t.imports.entries ∧ TemplateOf o m t.imports c template := by
  obtain ⟨ps, fs, rs, u, own, first, second, rfl⟩ := classTemplate_made h
  obtain ⟨before, -⟩ := runs_imports (P := fun _ _ _ => True) (fun _ _ _ _ _ => id) first
    fun _ _ _ _ run => ⟨forward_imports run ▸ List.Subset.refl _, trivial⟩
  obtain ⟨after, each⟩ := runs_imports
    (P := fun t (_ : Property) rs => ∀ r ∈ rs, ∀ n ∈ r.callees, CallsClass o m t n)
    (fun _ _ _ _ more calls r member n called => (calls r member n called).mono more) second
    fun _ _ _ _ run => related_step run
  refine ⟨List.Subset.trans before after, rfl, fun r member n called => ?_⟩
  obtain ⟨rs, among, inside⟩ := List.mem_flatten.mp member
  obtain ⟨_, _, calls⟩ := forall₂_mem_right each among
  exact calls r inside n called

/-- The rule for a root class, whose template is at hand. -/
def RuleOf (o : Import.Outlook) (m : Model) (imports : Import.Table) (c : Class) (r : RootRule) :
    Prop := AtHand o m imports c ∧ r.template = templateName c.iri

theorem RuleOf.mono {t u : Import.Table} {c : Class} {r : RootRule} (h : RuleOf o m t c r)
    (more : t.entries ⊆ u.entries) : RuleOf o m u c r := ⟨h.1.mono more, h.2⟩

theorem rootRule_calls {c : Class} {r : RootRule} (h : rootRule m o c s = .ok (r, t)) :
    s.imports.entries ⊆ t.imports.entries ∧ RuleOf o m t.imports c r := by
  obtain ⟨template, made, rfl⟩ := rootRule_made h
  exact templateOf_step made

theorem generate_calls {s : Source} {l : Lifting} (h : generate s = .ok l) : ∃ cs imports,
    s.model.rootClasses = .ok cs ∧ l.imports = imports.entries.map (·.descriptor.reference) ∧
      List.Forall₂ (RuleOf (s.outlook .lifting) s.model imports) cs l.roots ∧
      List.Forall₂ (TemplateOf (s.outlook .lifting) s.model imports) s.model.describedClasses
        l.templates := by
  obtain ⟨cs, between, last, made⟩ := generate_made h
  obtain ⟨-, rules⟩ := runs_imports (P := RuleOf (s.outlook .lifting) s.model)
    (fun _ _ _ _ more rule => rule.mono more) made.roots fun _ _ _ _ run => rootRule_calls run
  obtain ⟨more, each⟩ := runs_imports (P := TemplateOf (s.outlook .lifting) s.model)
    (fun _ _ _ _ more of => of.mono more) made.templates fun _ _ _ _ run => classTemplate_calls run
  exact ⟨cs, last.imports, made.found, made.imports, rules.imp fun _ _ rule => rule.mono more, each⟩

theorem calls_rootRule {r : RootRule} : calls r.toXml = [r.template] := by
  simp [RootRule.toXml, calls_rule, callsIn, plainCall, calls, callee]

theorem calls_nodeTemplate : calls nodeTemplate = [] := by
  simp [nodeTemplate, calls_template, callsIn, calls, callee, attributeOf]

theorem calls_toXml {l : Lifting} : name ∈ calls (toXml l) ↔
    (∃ r ∈ l.roots, name = r.template) ∨ ∃ t ∈ l.templates, name ∈ calls t.toXml := by
  have imports : callsIn (l.imports.map importOf) = [] := by
    refine List.eq_nil_iff_forall_not_mem.mpr fun n called => ?_
    obtain ⟨reference, _, called⟩ := mem_callsIn_map.mp called
    cases called
  have last : callsIn [nodeTemplate, identityRule] = [] := by
    simp [callsIn, calls_nodeTemplate, identityRule, calls_rule, calls, callee]
  have output : callsIn [outputMethod] = [] := rfl
  have top : callee "xsl:stylesheet" (headAttributes l) = [] := callee_other (by decide)
  rw [toXml, calls, top, List.nil_append]
  simp only [callsIn_append, imports, last, output, List.nil_append, List.append_nil,
    List.mem_append, mem_callsIn_map, calls_rootRule, List.mem_singleton]

theorem definitions_toXml {l : Lifting} :
    definitions (toXml l).children = l.templates.map (·.name) ++ [nodeTemplateName] := by
  have imports : definitions (l.imports.map importOf) = [] := definitions_nil fun e member _ => by
    obtain ⟨reference, _, rfl⟩ := List.mem_map.mp member
    rfl
  have roots : definitions (l.roots.map RootRule.toXml) = [] := definitions_nil fun e member _ => by
    obtain ⟨r, _, rfl⟩ := List.mem_map.mp member
    rfl
  have templates : definitions (l.templates.map Template.toXml) = l.templates.map (·.name) :=
    definitions_templates (fun _ => rfl) _
  have output : definitions [outputMethod] = [] := rfl
  have last : definitions [nodeTemplate, identityRule] = [nodeTemplateName] := rfl
  simp only [toXml, Element.children, definitions_append, imports, roots, templates, output, last,
    List.nil_append, List.append_nil]

theorem generate_reaches {s : Source} {l : Lifting} (h : generate s = .ok l) :
    ∃ imports, Reaches (s.outlook .lifting) s.model imports (toXml l) := by
  obtain ⟨cs, imports, found, entered, rules, each⟩ := generate_calls h
  refine ⟨imports, ?_, ?_, ?_, ?_⟩
  · intro c described
    obtain ⟨t, member, named, _⟩ := forall₂_mem_left each described
    rw [definitions_toXml, ← named]
    exact List.mem_append_left _ (List.mem_map_of_mem member)
  · intro e listed
    simp only [toXml, Element.children, List.append_assoc, entered]
    exact List.mem_append_left _ (List.mem_map_of_mem (List.mem_map_of_mem listed))
  · intro c known root
    obtain ⟨r, member, _, named⟩ := forall₂_mem_left rules (Model.mem_rootClasses found known root)
    exact calls_toXml.mpr (.inl ⟨r, member, named.symm⟩)
  · intro n called
    rcases calls_toXml.mp called with ⟨r, member, rfl⟩ | ⟨t, member, called⟩
    · obtain ⟨c, among, atHand, named⟩ := forall₂_mem_right rules member
      exact .inr ⟨c, Model.rootClasses_knows found c among, atHand, named,
        fun _ => Model.rootClasses_isRoot found c among⟩
    · rcases template_calls called with rfl | ⟨r, inside, called⟩
      · rw [definitions_toXml]
        exact .inl (List.mem_append_right _ List.mem_cons_self)
      · obtain ⟨c, _, _, of⟩ := forall₂_mem_right each member
        obtain ⟨d, ⟨known, plain⟩, atHand, named⟩ := of r inside n called
        exact .inr ⟨d, known, atHand, named, fun codelist => absurd codelist (by simp [plain])⟩

end RdfXmlMapping.Lifting
