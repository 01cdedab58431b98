import RdfXmlMapping.Proofs.Lowering.Dispatch
import RdfXmlMapping.Proofs.TypeNames

/-!
Strings in the expressions of a stylesheet. Names of columns, predicates, the meanings of classes
and the names of types are put into expressions as literals, whatever they are made of. A reader of
the document finds each of them where it was put, and the rest of the expression around it
(`literals_read`).
-/

namespace RdfXmlMapping.Lowering

open Stylesheet
open Xml (Attributes Element)

/-! ### Expressions with quotes -/

/-- An attribute that holds an expression or a pattern with a quote. -/
def isQuoted (a : String × String) : Bool :=
  a.1 ∈ ["select", "test", "match"] ∧ '\'' ∈ a.2.toList

def quoted (attributes : Attributes) : List String := (attributes.filter isQuoted).map (·.2)

/-- The expressions with quotes in elements, in the order of the document. -/
def quotedIn (es : List Element) : List String :=
  (Xml.attributesIn (fun _ => isQuoted) es).map (·.2)

/-- What a reader makes of an expression that was made of parts. -/
structure ReadAs (expression : String) (parts : List Part) : Prop where
  made : expression = written parts
  read : tokens? expression = some (parts.flatMap Part.tokens)

/-! ### What strings are put into -/

def rowsParts (p : Property) : List Part :=
  [.verbatim ("f:rows(" ++ (if p.isReverse then "$obj" else "$subj") ++ ", $key, "),
    .literal p.predicate, .verbatim ")"]

def patternParts (iri : String) : List Part :=
  [.verbatim
      "sp:result[sp:binding[@name = $pred]/sp:uri = $type and sp:binding[@name = $obj]/sp:uri = ",
    .literal iri, .verbatim "]"]

def testParts (iri : String) : List Part := [.verbatim "$types = ", .literal iri]

def keyParts : List Part :=
  [.verbatim "if (empty($term)) then ", .literal "", .verbatim " else concat(local-name($term), ",
    .literal "|", .verbatim ", string($term))"]

/-- The expressions that stand in a stylesheet in any case. -/
def fixedParts (b : Bindings) : List (List Part) :=
  [[.literal b.subject], [.literal b.predicate], [.literal b.object], [.literal Vocabulary.rdfType],
    keyParts]

/-- The expressions for a candidate of a choice: it is told by its meaning, and the name of its type
is stated unless it is the root. -/
inductive CandidateParts (s : Source) (l : Lowering) (root c : Class) : List (List Part) → Prop
  | root {iri : String} : c.iri = root.iri → c.meaning = some iri →
      CandidateParts s l root c [testParts iri]
  | derived {iri : String} {q : Xml.QName} : c.iri ≠ root.iri → c.meaning = some iri →
      NamesType s l c q → CandidateParts s l root c [testParts iri, [.literal q.text]]

/-- The expressions for a property. -/
inductive PropertyParts (s : Source) (l : Lowering) (p : Property) : List (List Part) → Prop
  | rows : (∀ plan root derived, s.model.shapeOf p = .ok (.choice plan) →
      plan.base ≠ .rooted root derived) → PropertyParts s l p [rowsParts p]
  | choice {plan : ChoicePlan} {root : Class} {derived : List Derivation}
      {candidates : List (List (List Part))} : s.model.shapeOf p = .ok (.choice plan) →
      plan.base = .rooted root derived →
      List.Forall₂ (CandidateParts s l root) plan.candidates candidates →
      PropertyParts s l p (rowsParts p :: candidates.flatten)

/-- The expressions in the template of a class. -/
def TemplateParts (s : Source) (l : Lowering) (c : Class) (parts : List (List Part)) : Prop :=
  ∃ ps each, s.model.effectiveProperties c = .ok ps ∧
    List.Forall₂ (PropertyParts s l) ps each ∧ parts = each.flatten

/-! ### Quotes in what is written -/

variable {es fs : List Element} {attributes : Attributes} {name : String}

theorem quotedIn_append : quotedIn (es ++ fs) = quotedIn es ++ quotedIn fs := by
  rw [quotedIn, Xml.attributesIn_append, List.map_append]
  rfl

theorem quotedIn_cons (e : Element) : quotedIn (e :: es) = quotedIn [e] ++ quotedIn es := by
  rw [quotedIn, Xml.attributesIn_cons, List.map_append]
  rfl

theorem quotedIn_node :
    quotedIn [.node name attributes es] = quoted attributes ++ quotedIn es := by
  rw [quotedIn, Xml.attributesIn_node, List.map_append]
  rfl

theorem quotedIn_leaf : quotedIn [.leaf name attributes] = quoted attributes := by
  rw [quotedIn, Xml.attributesIn_leaf]
  rfl

theorem quote_written {parts : List Part} {value : String} (inside : .literal value ∈ parts) :
    '\'' ∈ (written parts).toList := by
  induction parts with
  | nil => cases inside
  | cons p ps ih =>
    rw [written_cons]
    rcases List.mem_cons.mp inside with rfl | inside
    · refine List.mem_append_left _ ?_
      rw [Part.text, literal_toList]
      exact List.mem_cons_self
    · exact List.mem_append_right _ (ih inside)

theorem written_literal (value : String) : written [.literal value] = literal value := by
  simp [written, Part.text]

theorem between_written (before after value : String) : before ++ literal value ++ after =
    written [.verbatim before, .literal value, .verbatim after] := by
  simp [written, Part.text, String.append_assoc]

theorem rows_written (p : Property) :
    (Rows.mk p.predicate p.isReverse).text = written (rowsParts p) := between_written ..

theorem pattern_written (iri : String) : patternOf iri = written (patternParts iri) :=
  between_written ..

theorem test_written (iri : String) : testOf iri = written (testParts iri) := by
  simp [testOf, written, testParts, Part.text]

/-- An expression with a literal has quotes. -/
theorem quoted_written {key value : String} {parts : List Part}
    (known : key ∈ ["select", "test", "match"]) (inside : .literal value ∈ parts) :
    quoted ((key, written parts) :: attributes) = written parts :: quoted attributes := by
  have holds : isQuoted (key, written parts) := decide_eq_true ⟨known, quote_written inside⟩
  rw [quoted, List.filter_cons_of_pos holds, List.map_cons]
  rfl

theorem quoted_other {key value : String} (other : key ∉ ["select", "test", "match"]) :
    quoted ((key, value) :: attributes) = quoted attributes := by
  have fails : ¬ isQuoted (key, value) := fun holds => other (of_decide_eq_true holds).1
  rw [quoted, List.filter_cons_of_neg fails]
  rfl

theorem quotedIn_rule (r : RootRule) :
    quotedIn [r.toXml] = [written (patternParts r.meaning)] := by
  have pattern : r.pattern = written (patternParts r.meaning) := pattern_written r.meaning
  have inside : quotedIn [.node r.element.text []
      [classCall r.template "sp:binding[@name = $subj]/*" []]] = [] := by
    rw [quotedIn_node]
    rfl
  have priority : quoted [("priority", toString r.priority)] = [] := quoted_other (by decide)
  have literal : Part.literal r.meaning ∈ patternParts r.meaning :=
    List.mem_cons_of_mem _ List.mem_cons_self
  rw [RootRule.toXml, quotedIn_node, inside, pattern,
    quoted_written (by decide) literal, priority]
  rfl

theorem quotedIn_parameters (b : Bindings) : quotedIn (bindingParameters b) =
    [written [.literal b.subject], written [.literal b.predicate],
      written [.literal b.object]] := by
  have parameter (name column : String) : quoted [("name", name), ("select", literal column),
      ("as", "xs:string")] = [written [.literal column]] := by
    rw [quoted_other (by decide), ← written_literal, quoted_written (by decide) List.mem_cons_self,
      quoted_other (by decide)]
    rfl
  rw [bindingParameters, List.map_cons, List.map_cons, List.map_cons, List.map_nil, quotedIn_cons,
    quotedIn_leaf, parameter, quotedIn_cons, quotedIn_leaf, parameter, quotedIn_leaf, parameter]
  rfl

theorem quotedIn_variables :
    quotedIn globalVariables = [written [.literal Vocabulary.rdfType]] := by
  decide +kernel

theorem quotedIn_functions : quotedIn functions = [written keyParts] := by
  decide +kernel

theorem quotedIn_classCall {template id : String} :
    quotedIn [classCall template id es] = quotedIn [argument "id" id] ++ quotedIn es := by
  rw [classCall, call, quotedIn_node, quoted_other (by decide), quotedIn_cons]
  rfl

/-- The expressions of a branch. -/
def branchParts (b : Branch) : List (List Part) :=
  testParts b.meaning :: b.type.toList.map fun q => [.literal q.text]

theorem quotedIn_branch (b : Branch) : quotedIn [b.toXml] = (branchParts b).map written := by
  have test : quoted [("test", "$types = " ++ literal b.meaning)] =
      [written (testParts b.meaning)] := by
    have made : "$types = " ++ literal b.meaning = written (testParts b.meaning) :=
      test_written b.meaning
    have literal : Part.literal b.meaning ∈ testParts b.meaning :=
      List.mem_cons_of_mem _ List.mem_cons_self
    rw [made, quoted_written (by decide) literal]
    rfl
  have type : quotedIn (b.type.elim [] fun type => [argument "type_name" (literal type.text)]) =
      b.type.toList.map fun q => written [.literal q.text] := by
    cases b.type with
    | none => rfl
    | some q =>
      change quotedIn [argument "type_name" (literal q.text)] = [written [.literal q.text]]
      rw [argument, quotedIn_leaf, quoted_other (by decide), ← written_literal,
        quoted_written (by decide) List.mem_cons_self]
      rfl
  have member : quotedIn [argument "id" "$member"] = [] := by decide
  rw [Branch.toXml, quotedIn_node, test, quotedIn_classCall, member, type, branchParts,
    List.map_cons, List.map_map]
  rfl

theorem quotedIn_branches (branches : List Branch) :
    quotedIn (branches.map Branch.toXml) = (branches.flatMap branchParts).map written := by
  induction branches with
  | nil => rfl
  | cons b bs ih =>
    rw [List.map_cons, quotedIn_cons, quotedIn_branch, ih, List.flatMap_cons, List.map_append]

/-- The expressions of what an element holds for a value. -/
def contentParts : Content → List (List Part)
  | .choice branches _ => branches.flatMap branchParts
  | _ => []

theorem quoted_plain {key selection : String} (plain : '\'' ∉ selection.toList) :
    quoted ((key, selection) :: attributes) = quoted attributes := by
  have fails : ¬ isQuoted (key, selection) := fun holds => plain (of_decide_eq_true holds).2
  rw [quoted, List.filter_cons_of_neg fails]
  rfl

theorem member_plain (r : Rows) : '\'' ∉ r.member.toList := by
  have pieces : '\'' ∉ "sp:binding[@name = ".toList ∧ '\'' ∉ "$subj".toList ∧
      '\'' ∉ "$obj".toList ∧ '\'' ∉ "]/*".toList := by decide
  obtain ⟨before, subject, object, after⟩ := pieces
  have split : r.member =
      "sp:binding[@name = " ++ (if r.isReverse then "$subj" else "$obj") ++ "]/*" := rfl
  rw [split]
  intro inside
  simp only [String.toList_append, List.mem_append, before, after, or_false, false_or] at inside
  cases turned : r.isReverse with
  | false =>
    rw [turned] at inside
    exact object inside
  | true =>
    rw [turned] at inside
    exact subject inside

theorem quotedIn_content {member : String} (plain : '\'' ∉ member.toList) (content : Content) :
    quotedIn (content.toXml member) = (contentParts content).map written := by
  have named : quoted [("name", "member"), ("select", member)] = [] := by
    rw [quoted_other (by decide), quoted_plain plain]
    rfl
  cases content with
  | codelist =>
    rw [Content.toXml, valueOf, quotedIn_leaf, quoted_plain plain]
    rfl
  | literal =>
    rw [Content.toXml, quotedIn_leaf, quoted_plain plain]
    rfl
  | instanceOf template =>
    rw [Content.toXml, quotedIn_classCall, argument, quotedIn_leaf, quoted_other (by decide),
      quoted_plain plain]
    rfl
  | identity =>
    rw [Content.toXml, quotedIn_cons, memberVariable, quotedIn_leaf, named]
    rfl
  | choice branches otherwise =>
    have types : quotedIn [.leaf "xsl:variable" [("name", "types"), ("select",
        "f:rows($subj, f:id-key($member), $type)/sp:binding[@name = $obj]/sp:uri")]] = [] := by
      decide
    have last : quotedIn [.node "xsl:otherwise" [] [classCall otherwise "$member" []]] = [] := by
      rw [quotedIn_node, quotedIn_classCall]
      rfl
    rw [Content.toXml, quotedIn_cons, memberVariable, quotedIn_leaf, named, quotedIn_cons, types,
      quotedIn_node, quotedIn_append, quotedIn_branches, last, List.append_nil]
    rfl

theorem quoted_rows (p : Property) :
    quoted [("select", (Rows.mk p.predicate p.isReverse).text)] = [written (rowsParts p)] := by
  have literal : Part.literal p.predicate ∈ rowsParts p :=
    List.mem_cons_of_mem _ List.mem_cons_self
  rw [rows_written, quoted_written (by decide) literal]
  rfl

theorem quotedIn_spliced {p : Property} {template : String} :
    quotedIn [(Item.spliced ⟨p.predicate, p.isReverse⟩ template).toXml] =
      [written (rowsParts p)] := by
  have last : quotedIn [argument "no_iri" "true()"] = [] := by decide
  rw [Item.toXml, forEach, quotedIn_node, quoted_rows, quotedIn_classCall, argument, quotedIn_leaf,
    quoted_other (by decide), quoted_plain (member_plain _), last]
  rfl

theorem quotedIn_element {p : Property} {content : Content} :
    quotedIn [(Item.element ⟨p.predicate, p.isReverse⟩ name content).toXml] =
      (rowsParts p :: contentParts content).map written := by
  rw [Item.toXml, forEach, quotedIn_node, quoted_rows, quotedIn_node,
    quotedIn_content (member_plain _)]
  rfl

/-! ### What a run puts into expressions -/

variable {s : Source} {l : Lowering} {c root : Class} {p : Property}

theorem forall₂_and {α β : Type} {R S : α → β → Prop} {xs : List α} {ys : List β}
    (h : List.Forall₂ R xs ys) (h' : List.Forall₂ S xs ys) :
    List.Forall₂ (fun x y => R x y ∧ S x y) xs ys := by
  induction h with
  | nil => exact .nil
  | cons first _ ih =>
    cases h' with
    | cons first' rest => exact .cons ⟨first, first'⟩ (ih rest)

theorem branch_parts {o : Outcome s l} {b : Branch} (meant : c.meaning = some b.meaning)
    (of : BranchOf o.plan o.final root c b) : CandidateParts s l root c (branchParts b) := by
  rw [BranchOf] at of
  split at of
  next same =>
    rw [branchParts, of]
    exact .root same meant
  next other =>
    obtain ⟨q, stated, named⟩ := of
    rw [branchParts, stated]
    exact .derived other meant (o.namesType named)

/-- Elements whose expressions are made of parts, from the first to the last. -/
theorem quotedIn_each {α : Type} {R : α → List (List Part) → Prop} {xs : List α}
    (h : List.Forall₂ (fun x e => ∃ parts, quotedIn [e] = parts.map written ∧ R x parts) xs es) :
    ∃ each, List.Forall₂ R xs each ∧ quotedIn es = each.flatten.map written := by
  induction h with
  | nil => exact ⟨[], .nil, rfl⟩
  | @cons _ e _ _ first _ ih =>
    obtain ⟨parts, here, of⟩ := first
    obtain ⟨each, others, rest⟩ := ih
    refine ⟨parts :: each, .cons of others, ?_⟩
    rw [quotedIn_cons, here, rest, List.flatten_cons, List.map_append]

theorem item_parts {o : Outcome s l} {i : Item} {u v : Progress}
    (h : (Plan.ofSource s).item p u = .ok (i, v)) (of : ItemOf o.plan o.final p i) :
    ∃ parts, quotedIn [i.toXml] = parts.map written ∧ PropertyParts s l p parts := by
  cases item_made h with
  | spliced _ target made =>
    refine ⟨[rowsParts p], quotedIn_spliced, .rows fun plan root derived shape => ?_⟩
    cases Except.ok.inj (shape.symm.trans (Model.spliceTarget_single target).1)
  | element _ read made =>
    refine ⟨_, quotedIn_element, ?_⟩
    cases made with
    | choice base each made =>
      obtain ⟨_, _, branches, _, same, typed⟩ := of _ _ _ (o.model ▸ read) base
      obtain ⟨-, -, same⟩ := Item.element.inj same
      obtain ⟨rfl, -⟩ := Content.choice.inj same
      have meant := runs_forall₂ each fun _ _ _ _ _ run => branch_asks run
      have parts := (forall₂_and meant typed).imp fun c b both =>
        branch_parts (o := o) both.1.1 both.2
      exact .choice read base (List.forall₂_map_right_iff.mpr parts)
    | codelist | literal | instanceOf =>
      refine .rows fun plan root derived shape => ?_
      cases read.symm.trans shape
    | identity base =>
      refine .rows fun plan root derived shape other => ?_
      obtain rfl := Shape.choice.inj (Except.ok.inj (read.symm.trans shape))
      cases base.symm.trans other

theorem template_parts {o : Outcome s l} {template : Template} {u v : Progress}
    (h : (Plan.ofSource s).classTemplate c u = .ok (template, v))
    (of : TemplateOf o.plan o.final c template) :
    ∃ parts, quotedIn [template.toXml] = parts.map written ∧ TemplateParts s l c parts := by
  obtain ⟨ps, items, own, each, rfl⟩ := classTemplate_made h
  obtain ⟨ps', own', typed⟩ := of
  rw [o.model] at own'
  obtain rfl := Except.ok.inj (own.symm.trans own')
  have runs := runs_forall₂ (R := fun p i => ∃ u v, (Plan.ofSource s).item p u = .ok (i, v)) each
    fun _ _ _ u v run => ⟨u, v, run⟩
  obtain ⟨each, parts, same⟩ := quotedIn_each (List.forall₂_map_right_iff.mpr
    ((forall₂_and runs typed).imp fun p i both => by
      obtain ⟨⟨u, v, run⟩, of⟩ := both
      exact item_parts (o := o) run of))
  refine ⟨each.flatten, ?_, ps, each, own, parts, rfl⟩
  have head : quotedIn [.leaf "xsl:param" [("name", "id"), ("as", "element()")],
      .leaf "xsl:param" [("name", "type_name"), ("as", "xs:string?"), ("select", "()")],
      .leaf "xsl:param" [("name", "no_iri"), ("as", "xs:boolean"), ("select", "false()")],
      onlyIf "exists($type_name)" [attributeOf "xsi:type" "$type_name"],
      onlyIf "not($no_iri) and $id/self::sp:uri" [identityOf "$id"],
      .leaf "xsl:variable" [("name", "key"), ("select", "f:id-key($id)")]] = [] := by decide
  rw [Template.toXml, Stylesheet.template, quotedIn_node, quoted_other (by decide), quotedIn_append,
    head, same]
  rfl

/-! ### What is read -/

/-- The expressions for the instances of root classes. -/
def RootParts (c : Class) (parts : List (List Part)) : Prop :=
  ∃ iri, c.meaning = some iri ∧ parts = [patternParts iri]

theorem separate_rows (p : Property) : areSeparate (rowsParts p) := by
  rw [rowsParts]
  cases p.isReverse <;> rfl

theorem separate_pattern (iri : String) : areSeparate (patternParts iri) := rfl

theorem separate_test (iri : String) : areSeparate (testParts iri) := rfl

theorem separate_fixed (b : Bindings) : ∀ parts ∈ fixedParts b, areSeparate parts := by
  have key : areSeparate keyParts := by decide
  have literal (value : String) : areSeparate [.literal value] := rfl
  simp [fixedParts, key, literal]

theorem separate_candidate {each : List (List Part)} (h : CandidateParts s l root c each) :
    ∀ parts ∈ each, areSeparate parts := by
  have literal (value : String) : areSeparate [.literal value] := rfl
  cases h with
  | root => simp [separate_test]
  | derived => simp [separate_test, literal]

theorem separate_flatten {α : Type} {R : α → List (List Part) → Prop} {xs : List α}
    {each : List (List (List Part))} (h : List.Forall₂ R xs each)
    (separate : ∀ x own, R x own → ∀ parts ∈ own, areSeparate parts) :
    ∀ parts ∈ each.flatten, areSeparate parts := by
  intro parts member
  obtain ⟨own, among, inside⟩ := List.mem_flatten.mp member
  obtain ⟨x, _, of⟩ := forall₂_mem_right h among
  exact separate x own of parts inside

theorem separate_property {each : List (List Part)} (h : PropertyParts s l p each) :
    ∀ parts ∈ each, areSeparate parts := by
  cases h with
  | rows => simp [separate_rows]
  | choice _ _ candidates =>
    refine List.forall_mem_cons.mpr ⟨separate_rows p, ?_⟩
    exact separate_flatten candidates fun _ _ => separate_candidate

theorem separate_template {each : List (List Part)} (h : TemplateParts s l c each) :
    ∀ parts ∈ each, areSeparate parts := by
  obtain ⟨_, _, _, properties, rfl⟩ := h
  exact separate_flatten properties fun _ _ => separate_property

theorem readAs_written {each : List (List Part)} (separate : ∀ parts ∈ each, areSeparate parts) :
    List.Forall₂ ReadAs (each.map written) each := by
  induction each with
  | nil => exact .nil
  | cons parts each ih =>
    obtain ⟨first, rest⟩ := List.forall_mem_cons.mp separate
    exact .cons ⟨rfl, tokens?_written first⟩ (ih rest)

theorem quoted_nil (other : ∀ a ∈ attributes, a.1 ∉ ["select", "test", "match"]) :
    quoted attributes = [] := by
  rw [quoted, List.map_eq_nil_iff, List.filter_eq_nil_iff]
  exact fun a member holds => other a member (of_decide_eq_true holds).1

theorem quoted_head (l : Lowering) : quoted (headAttributes l) = [] := by
  have fixed : ∀ a ∈ Stylesheet.headAttributes ++ [("xmlns:xs", Vocabulary.xmlSchema),
      ("xmlns:sp", Vocabulary.sparqlResults), ("xmlns:f", functionNamespace),
      ("xmlns:xsi", Vocabulary.xmlSchemaInstance)], a.1 ∉ ["select", "test", "match"] := by decide
  have last : ∀ a ∈ [("exclude-result-prefixes", "xs sp f")],
      a.1 ∉ ["select", "test", "match"] := by
    decide
  have declaration (name : String) : "xmlns:" ++ name ∉ ["select", "test", "match"] :=
    declaration_notMem (by decide) name
  refine quoted_nil fun a member => ?_
  rcases List.mem_append.mp member with member | member
  · rcases List.mem_append.mp member with member | type
    · rcases List.mem_append.mp member with member | target
      · exact fixed a member
      · cases own : l.target with
        | none => simp [own] at target
        | some t =>
          simp only [own, List.mem_singleton] at target
          exact target ▸ declaration t.1
    · obtain ⟨e, _, bound⟩ := List.mem_filterMap.mp type
      unfold typeBinding at bound
      split at bound
      · cases bound
        exact declaration _
      · cases bound
  · exact last a member

theorem quotedIn_toXml (l : Lowering) : quotedIn [toXml l] =
    (fixedParts l.bindings).map written ++ quotedIn (l.roots.map RootRule.toXml) ++
      quotedIn (l.templates.map Template.toXml) := by
  have imports : quotedIn (l.imports.map importOf) = [] := by
    induction l.imports with
    | nil => rfl
    | cons reference references ih =>
      rw [List.map_cons, quotedIn_cons, ih, importOf, quotedIn_leaf, quoted_other (by decide)]
      rfl
  have rest : quotedIn [outputMethod] = [] ∧ quotedIn entryRules = [] ∧
      quotedIn valueRules = [] := by
    decide
  have fixed : (fixedParts l.bindings).map written =
      [written [.literal l.bindings.subject], written [.literal l.bindings.predicate],
        written [.literal l.bindings.object]] ++ [written [.literal Vocabulary.rdfType]] ++
        [written keyParts] := rfl
  rw [toXml, quotedIn_node, quoted_head]
  simp only [quotedIn_append, imports, rest, quotedIn_parameters, quotedIn_variables,
    quotedIn_functions, fixed, List.nil_append, List.append_nil, List.append_assoc]

/-- Strings are read where they were put. -/
structure LiteralsRead (s : Source) (l : Lowering) : Prop where
  /-- The expressions with quotes are those of the columns, the roots and the properties, in this
  order, and each is cut into tokens where it has been put together. -/
  expressions : ∃ cs roots templates, s.model.rootClasses = .ok cs ∧
    List.Forall₂ RootParts cs roots ∧
    List.Forall₂ (TemplateParts s l) s.model.describedClasses templates ∧
    List.Forall₂ ReadAs (quotedIn [toXml l])
      (fixedParts s.config.bindings ++ roots.flatten ++ templates.flatten)
  /-- In the text of the document each value of an attribute is read as it is. -/
  values : ∀ e ∈ (toXml l).all, ∀ a ∈ e.attributes, ∃ before rest after,
    (render l).toList = before ++ ' ' :: (a.1.toList ++ '=' :: '"' :: rest) ∧
    Xml.valueAt? rest = some (a.2, after)

/-- Whatever strings are put into a stylesheet, none of them ends its literal or its attribute. -/
theorem literals_read (h : generate s = .ok l) : LiteralsRead s l := by
  obtain ⟨o⟩ := generate_outcome h
  obtain ⟨cs, _, _, made⟩ := generate_made h
  obtain ⟨roots, root_parts, of_roots⟩ := quotedIn_each (R := RootParts)
    (List.forall₂_map_right_iff.mpr ((rootRules_falling made.roots).1.imp fun c r of =>
      ⟨[patternParts r.meaning], quotedIn_rule r, r.meaning, of.1, rfl⟩))
  have runs := runs_forall₂
    (R := fun c t => ∃ u v, (Plan.ofSource s).classTemplate c u = .ok (t, v)) made.templates
    fun _ _ _ u v run => ⟨u, v, run⟩
  obtain ⟨templates, parts, of_templates⟩ := quotedIn_each (R := TemplateParts s l)
    (List.forall₂_map_right_iff.mpr ((forall₂_and runs o.templates).imp fun c t both => by
      obtain ⟨⟨u, v, run⟩, of⟩ := both
      exact template_parts (o := o) run of))
  refine ⟨⟨cs, roots, templates, made.found, root_parts, parts, ?_⟩, fun e inside a given =>
    Xml.document_values inside given⟩
  rw [quotedIn_toXml, of_roots, of_templates, made.bindings, ← List.map_append, ← List.map_append]
  refine readAs_written fun each member => ?_
  rcases List.mem_append.mp member with member | member
  · rcases List.mem_append.mp member with fixed | root
    · exact separate_fixed _ each fixed
    · refine separate_flatten root_parts (fun c own of => ?_) each root
      obtain ⟨iri, _, rfl⟩ := of
      simp [separate_pattern]
  · exact separate_flatten parts (fun _ _ => separate_template) each member

/-- A street with inns, some of them bars, where every string holds a quote. -/
def inns : Source where
  model :=
    ((Model.make "inns" "inns").rootedAt ["Inn"]).declaring
        { Class.make "Inn" "Inn" with meaning := some "https://ex.org/O'Hara's \"Inn\"" }
      |>.declaring { (Class.make "Bar" "Bar").extending "Inn" with meaning := some "'<&>''" }
      |>.declaring ((Class.make "Street" "Street").declaring
        (((Property.make "has" "https://ex.org/has?a='").association "Inn").association "Bar"))
  manifests := []
  config := {
    bindings := { subject := "s'", predicate := "''", object := "o" }
    output := { baseAddress := "https://own.org/" } }

theorem literals_read_inns : ∃ l, generate inns = .ok l ∧ LiteralsRead inns l := by
  have lowered : (generate inns).isOk := by decide +kernel
  obtain ⟨l, made⟩ := except_isOk lowered
  exact ⟨l, made, literals_read made⟩

end RdfXmlMapping.Lowering
