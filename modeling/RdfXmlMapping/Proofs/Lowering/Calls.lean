import RdfXmlMapping.Proofs.Lowering.Runs
import RdfXmlMapping.Proofs.Stylesheet.Calls

/-!
Calls of templates in the stylesheet from query results to documents. The template of a class calls
those of the classes that the values of its properties belong to, with all candidates of a choice;
the rule for a root calls the template of the root.
-/

namespace RdfXmlMapping.Lowering

open Stylesheet
open Xml (Element)

variable {name : String}
variable {y : Plan} {s t : Progress} {p : Property}

def Content.callees : Content → List String
  | codelist | literal | identity => []
  | instanceOf template => [template]
  | choice branches otherwise => branches.map (·.template) ++ [otherwise]

def Item.callees : Item → List String
  | spliced _ template => [template]
  | element _ _ content => content.callees

theorem calls_classCall {template id : String} {extra : List Element} :
    calls (classCall template id extra) = template :: callsIn extra := rfl

theorem calls_branch (b : Branch) : calls b.toXml = [b.template] := by
  have plain : callsIn (b.type.elim [] fun type =>
      [argument "type_name" (literal type.text)]) = [] := by
    cases b.type <;> rfl
  simp [Branch.toXml, calls, callsIn, calls_classCall, plain, callee]

theorem calls_branches (branches : List Branch) :
    callsIn (branches.map Branch.toXml) = branches.map (·.template) := by
  induction branches with
  | nil => rfl
  | cons b bs ih =>
    rw [List.map_cons, callsIn, calls_branch, ih, List.map_cons, List.singleton_append]

theorem calls_content (member : String) (content : Content) :
    callsIn (content.toXml member) = content.callees := by
  cases content with
  | codelist | literal | identity =>
    simp [Content.toXml, Content.callees, callsIn, calls, callee, valueOf, memberVariable, onlyIf,
      identityOf]
  | instanceOf template => rfl
  | choice branches otherwise =>
    have bound (selection : String) : calls (memberVariable selection) = [] := rfl
    have types : calls (.leaf "xsl:variable" [("name", "types"), ("select",
      "f:rows($subj, f:id-key($member), $type)/sp:binding[@name = $obj]/sp:uri")]) = [] := rfl
    simp [Content.toXml, Content.callees, callsIn, calls_plain, calls_branches, calls_classCall,
      bound, types]

theorem calls_item (i : Item) : calls i.toXml = i.callees := by
  cases i with
  | spliced rows template =>
    simp [Item.toXml, Item.callees, callsIn, calls_forEach, calls_classCall, calls_argument]
  | element rows name content =>
    simp [Item.toXml, Item.callees, callsIn, calls_forEach, calls_plain, calls_content]

theorem template_calls {t : Template} :
    name ∈ calls t.toXml ↔ ∃ i ∈ t.items, name ∈ i.callees := by
  have head : callsIn [.leaf "xsl:param" [("name", "id"), ("as", "element()")],
      .leaf "xsl:param" [("name", "type_name"), ("as", "xs:string?"), ("select", "()")],
      .leaf "xsl:param" [("name", "no_iri"), ("as", "xs:boolean"), ("select", "false()")],
      onlyIf "exists($type_name)" [attributeOf "xsi:type" "$type_name"],
      onlyIf "not($no_iri) and $id/self::sp:uri" [identityOf "$id"],
      .leaf "xsl:variable" [("name", "key"), ("select", "f:id-key($id)")]] = [] := rfl
  rw [Template.toXml, calls_template, callsIn_append, head, List.nil_append, mem_callsIn_map]
  simp only [calls_item]

/-! #### What a run calls -/

theorem runs_imports {α β : Type} {f : α → Build β} {P : Import.Table → α → β → Prop}
    (mono : ∀ t u x y, t.entries ⊆ u.entries → P t x y → P u x y) {xs : List α} {ys : List β}
    (h : Runs f xs ys s t)
    (each : ∀ x ∈ xs, ∀ y s t, f x s = .ok (y, t) → s.imports.entries ⊆ t.imports.entries ∧
      P t.imports x y) :
    s.imports.entries ⊆ t.imports.entries ∧ List.Forall₂ (P t.imports) xs ys :=
  runs_grow (G := fun s t : Progress => s.imports.entries ⊆ t.imports.entries)
    (P := fun s => P s.imports) (fun _ => List.Subset.refl _) (fun _ _ _ => List.Subset.trans)
    (fun _ _ => mono _ _) h each

theorem templateOf_step {c : Class} (h : y.templateOf c s = .ok (name, t)) :
    s.imports.entries ⊆ t.imports.entries ∧ AtHand y.outlook y.model t.imports c ∧
      name = templateName c.iri := by
  obtain ⟨found, resolved, named, rfl⟩ := templateOf_made h
  obtain ⟨more, atHand⟩ := atHand_register resolved rfl
  exact ⟨more, atHand, named⟩

theorem typeName_imports {c : Class} {q : Xml.QName} (h : y.typeName c s = .ok (q, t)) :
    t.imports = s.imports := by
  cases typeName_made h <;> rfl

theorem branch_calls {root c : Class} {b : Branch} (h : y.branch root c s = .ok (b, t)) :
    s.imports.entries ⊆ t.imports.entries ∧ AtHand y.outlook y.model t.imports c ∧
      b.template = templateName c.iri := by
  cases branch_made h with
  | root _ _ made => exact templateOf_step made
  | derived _ _ named made =>
    obtain ⟨more, atHand, same⟩ := templateOf_step made
    exact ⟨typeName_imports named ▸ more, atHand, same⟩

theorem content_calls {shape : Shape} {content : Content} (leads : y.model.Leads shape)
    (h : ContentMade y p s shape content t) : s.imports.entries ⊆ t.imports.entries ∧
      ∀ n ∈ content.callees, CallsClass y.outlook y.model t.imports n := by
  cases h with
  | codelist | literal | identity => exact ⟨List.Subset.refl _, fun _ called => by cases called⟩
  | @instanceOf d template _ made =>
    obtain ⟨more, atHand, rfl⟩ := templateOf_step made
    exact ⟨more, fun n called => ⟨d, leads, atHand, List.mem_singleton.mp called⟩⟩
  | @choice plan root derived branches template _ u base each made =>
    obtain ⟨described, grounded⟩ := leads
    rw [ChoicePlan.Grounded, base] at grounded
    obtain ⟨before, made'⟩ := runs_imports
      (P := fun t (_ : Class) (b : Branch) => CallsClass y.outlook y.model t b.template)
      (fun _ _ _ _ more calls => calls.mono more) each fun c member b s t run => by
        obtain ⟨more, atHand, same⟩ := branch_calls run
        exact ⟨more, c, described c member, atHand, same⟩
    obtain ⟨after, atHand, rfl⟩ := templateOf_step made
    refine ⟨List.Subset.trans before after, fun n called => ?_⟩
    rcases List.mem_append.mp called with branch | last
    · obtain ⟨b, member, rfl⟩ := List.mem_map.mp branch
      obtain ⟨_, _, calls⟩ := forall₂_mem_right made' member
      exact calls.mono after
    · exact ⟨root, described root grounded.1, atHand, List.mem_singleton.mp last⟩

theorem item_calls {i : Item} (h : y.item p s = .ok (i, t)) :
    s.imports.entries ⊆ t.imports.entries ∧
      ∀ n ∈ i.callees, CallsClass y.outlook y.model t.imports n := by
  cases item_made h with
  | spliced _ target made =>
    obtain ⟨more, atHand, rfl⟩ := templateOf_step made
    refine ⟨more, fun n called => ?_⟩
    exact ⟨_, (Model.spliceTarget_ok target).1, atHand, List.mem_singleton.mp called⟩
  | element _ read made => exact content_calls (Model.shapeOf_leads read) made

/-- The template of a class, whose calls can all be made. -/
def CallsOf (y : Plan) (imports : Import.Table) (c : Class) (t : Template) : Prop :=
  t.name = templateName c.iri ∧
    ∀ i ∈ t.items, ∀ n ∈ i.callees, CallsClass y.outlook y.model imports n

theorem classTemplate_calls {c : Class} {template : Template}
    (h : y.classTemplate c s = .ok (template, t)) :
    s.imports.entries ⊆ t.imports.entries ∧ CallsOf y t.imports c template := by
  obtain ⟨ps, items, _, each, rfl⟩ := classTemplate_made h
  obtain ⟨more, made⟩ := runs_imports
    (P := fun t (_ : Property) (i : Item) => ∀ n ∈ i.callees, CallsClass y.outlook y.model t n)
    (fun _ _ _ _ more calls n called => (calls n called).mono more) each
    fun _ _ _ _ _ run => item_calls run
  refine ⟨more, rfl, fun i member => ?_⟩
  obtain ⟨_, _, calls⟩ := forall₂_mem_right made member
  exact calls

def RuleOf (y : Plan) (imports : Import.Table) (c : Class) (r : RootRule) : Prop :=
  AtHand y.outlook y.model imports c ∧ r.template = templateName c.iri

theorem rootRules_calls {cs : List Class} {rules : List RootRule} (h : RulesMade y cs rules s t) :
    s.imports.entries ⊆ t.imports.entries ∧ List.Forall₂ (RuleOf y t.imports) cs rules := by
  induction h with
  | nil => exact ⟨List.Subset.refl _, .nil⟩
  | cons _ made _ ih =>
    obtain ⟨before, atHand, named⟩ := templateOf_step made
    obtain ⟨after, each⟩ := ih
    exact ⟨List.Subset.trans before after, .cons ⟨atHand.mono after, named⟩ each⟩

theorem templates_calls {templates : List Template}
    (h : Runs y.classTemplate y.model.describedClasses templates s t) :
    s.imports.entries ⊆ t.imports.entries ∧
      List.Forall₂ (CallsOf y t.imports) y.model.describedClasses templates :=
  runs_imports (P := CallsOf y)
    (fun _ _ _ _ more of => ⟨of.1, fun i member n called => (of.2 i member n called).mono more⟩)
    h fun _ _ _ _ _ run => classTemplate_calls run

theorem calls_rootRule {r : RootRule} : calls r.toXml = [r.template] := by
  simp [RootRule.toXml, callsIn, calls_classCall, calls, callee]

theorem calls_toXml {l : Lowering} : name ∈ calls (toXml l) ↔
    (∃ r ∈ l.roots, name = r.template) ∨ ∃ t ∈ l.templates, name ∈ calls t.toXml := by
  have imports : callsIn (l.imports.map importOf) = [] := by
    refine List.eq_nil_iff_forall_not_mem.mpr fun n called => ?_
    obtain ⟨reference, _, called⟩ := mem_callsIn_map.mp called
    cases called
  have head : callsIn [outputMethod] = [] ∧ callsIn (bindingParameters l.bindings) = [] ∧
      callsIn globalVariables = [] ∧ callsIn functions = [] ∧ callsIn entryRules = [] ∧
      callsIn valueRules = [] := ⟨rfl, rfl, rfl, rfl, rfl, rfl⟩
  have top : callee "xsl:stylesheet" (headAttributes l) = [] := callee_other (by decide)
  rw [toXml, calls, top, List.nil_append]
  simp only [callsIn_append, imports, head, List.nil_append, List.append_nil, List.mem_append,
    mem_callsIn_map, calls_rootRule, List.mem_singleton]

theorem definitions_toXml {l : Lowering} :
    definitions (toXml l).children = l.templates.map (·.name) := by
  have imports : definitions (l.imports.map importOf) = [] := definitions_nil fun e member _ => by
    obtain ⟨reference, _, rfl⟩ := List.mem_map.mp member
    rfl
  have roots : definitions (l.roots.map RootRule.toXml) = [] := definitions_nil fun e member _ => by
    obtain ⟨r, _, rfl⟩ := List.mem_map.mp member
    rfl
  have templates : definitions (l.templates.map Template.toXml) = l.templates.map (·.name) :=
    definitions_templates (fun _ => rfl) _
  have rest : definitions [outputMethod] = [] ∧ definitions (bindingParameters l.bindings) = [] ∧
      definitions globalVariables = [] ∧ definitions functions = [] ∧
      definitions entryRules = [] ∧ definitions valueRules = [] := ⟨rfl, rfl, rfl, rfl, rfl, rfl⟩
  simp only [toXml, Element.children, definitions_append, imports, roots, templates, rest,
    List.nil_append, List.append_nil]

theorem generate_reaches {s : Source} {l : Lowering} (h : generate s = .ok l) :
    ∃ imports, Reaches (s.outlook .lowering) s.model imports (toXml l) := by
  obtain ⟨cs, between, last, made⟩ := generate_made h
  have found := made.found
  obtain ⟨more, each⟩ := templates_calls made.templates
  have rules := (rootRules_calls made.roots).2.imp fun _ _ rule =>
    (⟨rule.1.mono more, rule.2⟩ : RuleOf _ last.imports _ _)
  refine ⟨last.imports, ?_, ?_, ?_, ?_⟩
  · intro c described
    obtain ⟨t, member, named, _⟩ := forall₂_mem_left each described
    rw [definitions_toXml, ← named]
    exact List.mem_map_of_mem member
  · intro e listed
    simp only [toXml, Element.children, List.append_assoc, made.imports]
    exact List.mem_append_left _ (List.mem_map_of_mem (List.mem_map_of_mem listed))
  · intro c known root
    obtain ⟨r, member, _, named⟩ := forall₂_mem_left rules (Model.mem_rootClasses found known root)
    exact calls_toXml.mpr (.inl ⟨r, member, named.symm⟩)
  · intro n called
    right
    rcases calls_toXml.mp called with ⟨r, member, rfl⟩ | ⟨t, member, called⟩
    · obtain ⟨c, among, atHand, named⟩ := forall₂_mem_right rules member
      exact ⟨c, Model.rootClasses_knows found c among, atHand, named,
        fun _ => Model.rootClasses_isRoot found c among⟩
    · obtain ⟨i, inside, called⟩ := template_calls.mp called
      obtain ⟨c, _, _, of⟩ := forall₂_mem_right each member
      obtain ⟨d, ⟨known, plain⟩, atHand, named⟩ := of i inside n called
      exact ⟨d, known, atHand, named, fun codelist => absurd codelist (by simp [plain])⟩

end RdfXmlMapping.Lowering
