import RdfXmlMapping.Proofs.Lifting.Runs
import RdfXmlMapping.Proofs.Lowering.Runs
import RdfXmlMapping.Proofs.Xml.Drafts
import RdfXmlMapping.Stylesheet.Basic

/-!
Stylesheets written while they are generated: the tags of a template are written between the steps
that find out what stands in it, and some only under a condition. Each function writes what the
elements would that are made first and written at the end, so the draft of a stylesheet is that of
the generated one (`Lifting.draft_eq`, `Lowering.draft_eq`).
-/

namespace RdfXmlMapping.Stylesheet

open Xml (Call Element)

def headCalls (imports : List String) : List Call :=
  (imports.map fun reference => Call.empty "xsl:import" [("href", reference)]) ++
  [.empty "xsl:output"
    [("method", "xml"), ("version", "1.0"), ("encoding", "utf-8"), ("indent", "yes")]]

def headElements (imports : List String) : List Element := imports.map importOf ++ [outputMethod]

variable {pattern name value selection test : String} {body arguments : List Element}

@[simp]
theorem script_rule : (rule pattern body).script =
    .start "xsl:template" [("match", pattern)] :: (Element.scripts body ++ [.stop]) := rfl

@[simp]
theorem script_template : (template name body).script =
    .start "xsl:template" [("name", name)] :: (Element.scripts body ++ [.stop]) := rfl

@[simp]
theorem script_call : (call name arguments).script =
    .start "xsl:call-template" [("name", name)] :: (Element.scripts arguments ++ [.stop]) := rfl

@[simp]
theorem script_plainCall :
    (plainCall name).script = [.empty "xsl:call-template" [("name", name)]] := rfl

@[simp]
theorem script_argument : (argument name value).script =
    [.empty "xsl:with-param" [("name", name), ("select", value)]] := rfl

@[simp]
theorem script_forEach : (forEach selection body).script =
    .start "xsl:for-each" [("select", selection)] :: (Element.scripts body ++ [.stop]) := rfl

@[simp]
theorem script_onlyIf : (onlyIf test body).script =
    .start "xsl:if" [("test", test)] :: (Element.scripts body ++ [.stop]) := rfl

@[simp]
theorem script_valueOf :
    (valueOf selection).script = [.empty "xsl:value-of" [("select", selection)]] := rfl

@[simp]
theorem script_copyOf :
    (copyOf selection).script = [.empty "xsl:copy-of" [("select", selection)]] := rfl

@[simp]
theorem script_attributeOf : (attributeOf name selection).script =
    [.empty "xsl:attribute" [("name", name), ("select", selection)]] := rfl

theorem headCalls_eq (imports : List String) :
    headCalls imports = Element.scripts (headElements imports) := by
  rw [headCalls, headElements, Element.scripts_append, Element.scripts_map, List.map_eq_flatMap]
  rfl

end RdfXmlMapping.Stylesheet

namespace RdfXmlMapping.Lifting

open Stylesheet
open Xml Xml.Writing

/-- Writes a call of the template of a class. -/
def writeCall (m : Model) (o : Import.Outlook) (c : Class) (suffix : Option Suffix) :
    Writing Build Unit := do
  let name ← templateOf m o c
  match suffix with
  | none => emptyTag "xsl:call-template" [("name", name)]
  | some suffix =>
    startTag "xsl:call-template" [("name", name)]
    emptyTag "xsl:with-param" [("name", "suffix"), ("select", suffix.text)]
    endTag

/-- Writes the attribute that identifies an instance, or refers to it. -/
def writeNode (isReference : Bool) (suffix : Suffix) : Writing Build Unit := do
  startTag "xsl:call-template" [("name", nodeTemplateName)]
  if isReference then emptyTag "xsl:with-param" [("name", "reference"), ("select", "true()")]
  emptyTag "xsl:with-param" [("name", "suffix"), ("select", suffix.text)]
  endTag

def writeRoot (m : Model) (o : Import.Outlook) (c : Class) : Writing Build Unit := do
  let element := targetName m.target? (Model.elementName c)
  startTag "xsl:template" [("match", "/" ++ element.text)]
  startTag "rdf:RDF" []
  writeCall m o c none
  endTag
  endTag

/-- The test for the elements of an instance that is spliced in; one without elements needs none. -/
def presenceTest (m : Model) (c : Class) : Generated (Option String) := do
  let names ← contentNames m c
  return if names.isEmpty then none else some (" or ".intercalate names)

/-- Writes what a plain value in an element states. -/
def writeValue (predicate : String) : Primitive → Writing Build Unit
  | .codelist _ => do
    startTag predicate []
    emptyTag "xsl:attribute" [("name", "rdf:resource"), ("select", ".")]
    endTag
  | .datatype iri =>
    if iri = Vocabulary.langString then do
      startTag predicate []
      emptyTag "xsl:copy-of" [("select", "@xml:lang")]
      emptyTag "xsl:value-of" [("select", ".")]
      endTag
    else do
      startTag predicate [("rdf:datatype", iri)]
      emptyTag "xsl:value-of" [("select", ".")]
      endTag

/-- Writes the triples of a property inside the description of its subject. -/
def writeForward (m : Model) (p : Property) : Writing Build Unit := do
  let shape ← if p.isSpliced then pure none else some <$> m.shapeOf p
  if p.isReverse then
    match shape with
    | some (.primitive _) => throw (.reversePrimitive p.iri)
    | _ => pure ()
  else
    let predicate ← predicateOf p
    let element := toNCName p.label
    match shape with
    | none =>
      let target ← m.spliceTarget p
      let test ← presenceTest m target
      test.forM fun test => startTag "xsl:if" [("test", test)]
      startTag predicate []
      writeNode true (.extended element)
      endTag
      if test.isSome then endTag
    | some shape =>
      startTag "xsl:for-each" [("select", element)]
      match shape with
      | .primitive primitives => writeValue predicate (← Primitive.only p primitives)
      | _ =>
        startTag predicate []
        writeNode true .empty
        endTag
      endTag

/-- Writes the descriptions that follow that of the subject for a property. -/
def writeRelated (m : Model) (o : Import.Outlook) (p : Property) : Writing Build Unit := do
  let element := toNCName p.label
  if p.isSpliced then
    let target ← m.spliceTarget p
    let test ← presenceTest m target
    test.forM fun test => startTag "xsl:if" [("test", test)]
    if p.isReverse then
      let predicate ← predicateOf p
      startTag "rdf:Description" []
      writeNode false (.extended element)
      startTag predicate []
      writeNode true .own
      endTag
      endTag
    writeCall m o target (some (.extended element))
    if test.isSome then endTag
  else
    let shape ← m.shapeOf p
    match shape, describedBy shape with
    | .primitive _, _ => pure ()
    | _, child =>
      if child.isNone && !p.isReverse then pure ()
      else
        startTag "xsl:for-each" [("select", element)]
        if p.isReverse then
          let predicate ← predicateOf p
          startTag "rdf:Description" []
          writeNode false .empty
          startTag predicate []
          startTag "xsl:for-each" [("select", "..")]
          writeNode true .own
          endTag
          endTag
          endTag
        child.forM fun child => writeCall m o child none
        endTag

def writeTemplate (m : Model) (o : Import.Outlook) (c : Class) : Writing Build Unit := do
  startTag "xsl:template" [("name", templateName c.iri)]
  emptyTag "xsl:param" [("name", "suffix"), ("select", "''")]
  startTag "rdf:Description" []
  writeNode false .own
  c.meaning.forM fun iri => emptyTag "rdf:type" [("rdf:resource", iri)]
  let properties ← m.effectiveProperties c
  properties.forM (writeForward m)
  endTag
  properties.forM (writeRelated m o)
  endTag

def writeNodeTemplate : Writing Build Unit := do
  startTag "xsl:template" [("name", nodeTemplateName)]
  emptyTag "xsl:param" [("name", "reference"), ("select", "false()")]
  emptyTag "xsl:param" [("name", "suffix"), ("select", "''")]
  startTag "xsl:choose" []
  startTag "xsl:when" [("test", "$suffix = '' and " ++ identityElement)]
  emptyTag "xsl:attribute" [
    ("name", "\x7bif ($reference) then 'rdf:resource' else 'rdf:about'\x7d"),
    ("select", "normalize-space(" ++ identityElement ++ ")")]
  endTag
  startTag "xsl:otherwise" []
  emptyTag "xsl:attribute" [("name", "rdf:nodeID"),
    ("select", "concat('n', generate-id(), translate($suffix, '/', '_'))")]
  endTag
  endTag
  endTag

def writeIdentityRule : Writing Build Unit := do
  startTag "xsl:template" [("match", "@*|node()")]
  startTag "xsl:copy" []
  emptyTag "xsl:apply-templates" [("select", "@*|node()")]
  endTag
  endTag

def writeBody (m : Model) (o : Import.Outlook) : Writing Build Unit := do
  (← m.rootClasses).forM (writeRoot m o)
  m.describedClasses.forM (writeTemplate m o)
  writeNodeTemplate
  writeIdentityRule

/-- The stylesheet of a source as it is written: the body first, and then what its making has led
to. -/
def draft (s : Source) : Generated Draft := do
  s.model.checkSplicing
  let (((), body), final) ← ((writeBody s.model (s.outlook .lifting)).run []).run (begun s.model)
  let imports := final.imports.entries.map (·.descriptor.reference)
  return {
    name := "xsl:stylesheet"
    attributes := headAttributes {
      target := s.model.target?, predicates := final.predicates.bindings, imports
      roots := [], templates := [] }
    head := headCalls imports
    body }

/-! ### What is written -/

variable {m : Model} {o : Import.Outlook} {c : Class} {p : Property}

theorem writeNode_eq (isReference : Bool) (suffix : Suffix) :
    writeNode isReference suffix = issue (nodeCall isReference suffix).script := by
  cases isReference <;> simp [writeNode, nodeCall]

theorem writeCall_eq (c : Class) (suffix : Option Suffix) : writeCall m o c suffix =
    writing (templateOf m o c) fun name =>
      (suffix.elim (plainCall name) fun s => call name [argument "suffix" s.text]).script := by
  unfold writeCall writing
  cases suffix <;> simp

theorem writeRoot_eq (c : Class) :
    writeRoot m o c = writing (rootRule m o c) fun r => r.toXml.script := by
  unfold writeRoot rootRule
  simp [writeCall_eq, writing, RootRule.toXml]

theorem writeValue_eq (element predicate : String) (v : Primitive) :
    (do
      startTag "xsl:for-each" [("select", element)]
      writeValue predicate v
      endTag) =
      issue (Element.scripts (plainTriples element predicate v).toXml) := by
  cases v with
  | codelist c => simp [writeValue, plainTriples, Forward.toXml]
  | datatype iri =>
    by_cases language : iri = Vocabulary.langString <;>
      simp [writeValue, plainTriples, Forward.toXml, language]

theorem plainForward_primitive (forward : p.isReverse = false) (vs : List Primitive) :
    plainForward p (.primitive vs) = do
      let predicate ← predicateOf p
      let v ← Primitive.only p vs
      return [plainTriples (toNCName p.label) predicate v] := by
  simp only [plainForward, forward, Bool.false_eq_true, if_false]
  refine bind_congr fun predicate => bind_congr fun v => ?_
  cases v with
  | codelist c => rfl
  | datatype iri =>
    by_cases language : iri = Vocabulary.langString <;> simp [plainTriples, language]

theorem writeForward_eq : writeForward m p =
    writing (forward m p) fun fs => Element.scripts (fs.flatMap Forward.toXml) := by
  unfold writeForward forward writing
  by_cases spliced : p.isSpliced
  · by_cases reverse : p.isReverse
    · simp [spliced, reverse, issue_nil]
    · simp only [spliced, reverse, presenceTest, Bool.false_eq_true, if_true, if_false, lift_lift,
        liftM_bind, liftM_pure, bind_assoc, pure_bind]
      refine bind_congr fun predicate => bind_congr fun d => bind_congr fun names => ?_
      cases names <;> simp [writeNode_eq, Forward.toXml, whenPresent]
  · simp only [spliced, Bool.false_eq_true, if_false, lift_lift, liftM_bind, bind_map_left,
      bind_assoc]
    refine bind_congr fun shape => ?_
    by_cases reverse : p.isReverse
    · cases shape with
      | primitive vs =>
        simp [plainForward, reverse]
        rfl
      | single _ | choice _ => simp [plainForward, reverse, issue_nil]
    · cases shape with
      | primitive vs =>
        simp [plainForward_primitive (by simpa using reverse), reverse, ← writeValue_eq]
      | single _ | choice _ => simp [plainForward, reverse, writeNode_eq, Forward.toXml]

theorem writeRelated_eq : writeRelated m o p =
    writing (related m o p) fun rs => Element.scripts (rs.flatMap Related.toXml) := by
  unfold writeRelated related writing reversePredicateOf
  by_cases spliced : p.isSpliced
  · simp only [spliced, presenceTest, if_true, lift_lift, liftM_bind, liftM_pure, bind_assoc,
      pure_bind]
    refine bind_congr fun d => bind_congr fun names => ?_
    by_cases reverse : p.isReverse <;> cases names <;>
      simp [reverse, writeNode_eq, writeCall_eq, writing, Related.toXml, whenPresent]
  · simp only [spliced, Bool.false_eq_true, if_false, lift_lift, liftM_bind, bind_assoc]
    refine bind_congr fun shape => ?_
    unfold plainRelated
    cases shape with
    | primitive vs => simp [issue_nil]
    | single d =>
      simp only [describedBy, reversePredicateOf]
      by_cases reverse : p.isReverse <;>
        simp [reverse, writeNode_eq, writeCall_eq, writing, Related.toXml]
    | choice plan =>
      cases by_class : describedBy (.choice plan) <;> by_cases reverse : p.isReverse <;>
        simp [reverse, reversePredicateOf, writeNode_eq, writeCall_eq, writing, Related.toXml,
          issue_nil]

theorem writeTemplate_eq (c : Class) : writeTemplate m o c =
    writing (classTemplate m o c) fun t => t.toXml.script := by
  have forward : writeForward m = fun p => writing (forward m p) fun fs =>
    Element.scripts (fs.flatMap Forward.toXml) := funext fun p => writeForward_eq
  have related : writeRelated m o = fun p => writing (related m o p) fun rs =>
    Element.scripts (rs.flatMap Related.toXml) := funext fun p => writeRelated_eq
  unfold writeTemplate classTemplate
  simp only [forward, related, writeNode_eq, forM_writing]
  cases c.meaning <;> simp [writing, Template.toXml, Element.scripts_flatten]

theorem writeNodeTemplate_eq : writeNodeTemplate = issue nodeTemplate.script := by
  simp [writeNodeTemplate, nodeTemplate]

theorem writeIdentityRule_eq : writeIdentityRule = issue identityRule.script := by
  simp [writeIdentityRule, identityRule]

theorem writeBody_eq : writeBody m o = writing (rules m o) fun made =>
    Element.scripts (made.1.map RootRule.toXml ++ made.2.map Template.toXml ++
      [nodeTemplate, identityRule]) := by
  have root : writeRoot m o = fun c => writing (rootRule m o c) fun r => r.toXml.script :=
    funext writeRoot_eq
  have each : writeTemplate m o = fun c => writing (classTemplate m o c) fun t => t.toXml.script :=
    funext writeTemplate_eq
  unfold writeBody rules
  simp only [root, each, forM_writing, writeNodeTemplate_eq, writeIdentityRule_eq]
  simp [writing, Element.scripts_map]

/-! ### Drafts -/

/-- The draft of a stylesheet that has been made. -/
def draftOf (l : Lifting) : Draft :=
  .of "xsl:stylesheet" (headAttributes l) (headElements l.imports)
    (l.roots.map RootRule.toXml ++ l.templates.map Template.toXml ++ [nodeTemplate, identityRule])

theorem draftOf_text (l : Lifting) : (draftOf l).text = render l := by
  rw [draftOf, Draft.of_text, render, toXml, headElements]
  simp only [List.append_assoc]

/-- A stylesheet is written as it would be if it were made first, and for no other sources. -/
theorem draft_eq (s : Source) : draft s = draftOf <$> generate s := by
  unfold draft generate unchecked
  simp only [writeBody_eq, map_bind]
  refine bind_congr fun _ => ?_
  change (writing (rules s.model (s.outlook .lifting)) _ [] _ >>= _) =
    (rules s.model (s.outlook .lifting) _ >>= _)
  rw [run_writing, bind_map_left]
  refine bind_congr fun r => ?_
  rw [headCalls_eq]
  rfl

end RdfXmlMapping.Lifting

namespace RdfXmlMapping.Lowering

open Stylesheet
open Xml Xml.Writing

def writeEntryRules : Writing Build Unit := do
  startTag "xsl:template" [("match", "/")]
  emptyTag "xsl:apply-templates" [("select", "$results")]
  endTag
  emptyTag "xsl:template" [("match", "sp:result")]

def writeValueRules : Writing Build Unit := do
  startTag "xsl:template" [("match", "sp:literal"), ("mode", "value")]
  emptyTag "xsl:copy-of" [("select", "@xml:lang")]
  emptyTag "xsl:value-of" [("select", ".")]
  endTag
  startTag "xsl:template" [("match", "sp:uri | sp:bnode"), ("mode", "value")]
  emptyTag "xsl:value-of" [("select", ".")]
  endTag

namespace Plan

/-- Writes a call of the template of a class for the instance that an expression selects. -/
def writeCall (x : Plan) (c : Class) (id : String) (type : Option QName) (noIdentity : Bool) :
    Writing Build Unit := do
  let name ← x.templateOf c
  startTag "xsl:call-template" [("name", name)]
  emptyTag "xsl:with-param" [("name", "id"), ("select", id)]
  type.forM fun type =>
    emptyTag "xsl:with-param" [("name", "type_name"), ("select", literal type.text)]
  if noIdentity then emptyTag "xsl:with-param" [("name", "no_iri"), ("select", "true()")]
  endTag

/-- The rows that state that something is an instance of a class with a meaning. -/
def rootPattern (meaning : String) : String :=
  "sp:result[sp:binding[@name = $pred]/sp:uri = $type and sp:binding[@name = $obj]/sp:uri = " ++
    literal meaning ++ "]"

def writeRoot (x : Plan) (c : Class) (priority : Nat) : Writing Build Unit := do
  match c.meaning with
  | none => throw (.missingInterpretation c.iri .root)
  | some meaning =>
    let element := targetName x.model.target? (Model.elementName c)
    startTag "xsl:template" [("match", rootPattern meaning), ("priority", toString priority)]
    startTag element.text []
    x.writeCall c "sp:binding[@name = $subj]/*" none false
    endTag
    endTag

def writeRoots (x : Plan) : List Class → Writing Build Unit
  | [] => pure ()
  | c :: cs => do
    x.writeRoot c (cs.length + 1)
    x.writeRoots cs

/-- Writes what is done for a candidate of a choice. -/
def writeBranch (x : Plan) (root c : Class) : Writing Build Unit := do
  match c.meaning with
  | none => throw (.missingInterpretation c.iri .choice)
  | some meaning =>
    startTag "xsl:when" [("test", "$types = " ++ literal meaning)]
    let type ← if c.iri = root.iri then pure none else some <$> (x.typeName c : Build QName)
    x.writeCall c "$member" type false
    endTag

/-- Writes how a member is told apart: the first candidate counts whose meaning it has. -/
def writeDispatch (x : Plan) (plan : ChoicePlan) : Writing Build Unit := do
  match plan.base with
  | .placeholder _ =>
    startTag "xsl:if" [("test", "$member/self::sp:uri")]
    startTag identityElement []
    emptyTag "xsl:value-of" [("select", "$member")]
    endTag
    endTag
  | .rooted root _ =>
    emptyTag "xsl:variable" [("name", "types"),
      ("select", "f:rows($subj, f:id-key($member), $type)/sp:binding[@name = $obj]/sp:uri")]
    startTag "xsl:choose" []
    plan.candidates.forM (x.writeBranch root)
    startTag "xsl:otherwise" []
    x.writeCall root "$member" none false
    endTag
    endTag

def writeItem (x : Plan) (p : Property) : Writing Build Unit := do
  let rows : Rows := ⟨p.predicate, p.isReverse⟩
  if p.isSpliced then
    let target ← x.model.spliceTarget p
    startTag "xsl:for-each" [("select", rows.text)]
    x.writeCall target rows.member none true
    endTag
  else
    let element := toNCName p.label
    match ← x.model.shapeOf p with
    | .primitive primitives =>
      if p.isReverse then throw (.reversePrimitive p.iri)
      let one ← Primitive.only p primitives
      startTag "xsl:for-each" [("select", rows.text)]
      startTag element []
      match one with
      | .codelist _ => emptyTag "xsl:value-of" [("select", rows.member)]
      | .datatype _ => emptyTag "xsl:apply-templates" [("select", rows.member), ("mode", "value")]
      endTag
      endTag
    | .single c =>
      startTag "xsl:for-each" [("select", rows.text)]
      startTag element []
      x.writeCall c rows.member none false
      endTag
      endTag
    | .choice plan =>
      startTag "xsl:for-each" [("select", rows.text)]
      startTag element []
      emptyTag "xsl:variable" [("name", "member"), ("select", rows.member)]
      x.writeDispatch plan
      endTag
      endTag

def writeTemplate (x : Plan) (c : Class) : Writing Build Unit := do
  startTag "xsl:template" [("name", templateName c.iri)]
  emptyTag "xsl:param" [("name", "id"), ("as", "element()")]
  emptyTag "xsl:param" [("name", "type_name"), ("as", "xs:string?"), ("select", "()")]
  emptyTag "xsl:param" [("name", "no_iri"), ("as", "xs:boolean"), ("select", "false()")]
  startTag "xsl:if" [("test", "exists($type_name)")]
  emptyTag "xsl:attribute" [("name", "xsi:type"), ("select", "$type_name")]
  endTag
  startTag "xsl:if" [("test", "not($no_iri) and $id/self::sp:uri")]
  startTag identityElement []
  emptyTag "xsl:value-of" [("select", "$id")]
  endTag
  endTag
  emptyTag "xsl:variable" [("name", "key"), ("select", "f:id-key($id)")]
  (← x.model.effectiveProperties c).forM x.writeItem
  endTag

def writeBody (x : Plan) : Writing Build Unit := do
  writeEntryRules
  x.writeRoots (← x.model.rootClasses)
  x.model.describedClasses.forM x.writeTemplate
  writeValueRules

end Plan

/-- The calls for the parameters and variables of a stylesheet. -/
def globalCalls (b : Bindings) : List Call :=
  ([("subj", b.subject), ("pred", b.predicate), ("obj", b.object)].map fun (name, column) =>
    Call.empty "xsl:param" [("name", name), ("select", literal column), ("as", "xs:string")]) ++
  [.empty "xsl:variable"
      [("name", "type"), ("select", literal Vocabulary.rdfType), ("as", "xs:string")],
    .empty "xsl:variable" [("name", "results"), ("select", "/sp:sparql/sp:results/sp:result")]]

def functionCalls : List Call :=
  [.start "xsl:function" [("name", "f:id-key"), ("as", "xs:string")],
    .empty "xsl:param" [("name", "term"), ("as", "element()?")],
    .empty "xsl:sequence" [("select",
      "if (empty($term)) then '' else concat(local-name($term), '|', string($term))")],
    .stop,
    .start "xsl:function" [("name", "f:rows"), ("as", "element()*")],
    .empty "xsl:param" [("name", "role"), ("as", "xs:string")],
    .empty "xsl:param" [("name", "key"), ("as", "xs:string")],
    .empty "xsl:param" [("name", "predicate"), ("as", "xs:string")],
    .empty "xsl:sequence" [("select",
      "$results[sp:binding[@name = $role]/*/f:id-key(.) = $key " ++
        "and sp:binding[@name = $pred]/sp:uri = $predicate]")],
    .stop]

/-- The stylesheet of a source as it is written: the body first, and then what its making has led
to. -/
def draft (s : Source) : Generated Draft := do
  s.model.checkSplicing
  let (((), body), final) ← ((Plan.ofSource s).writeBody.run []).run
    ⟨firstImports s.model, firstImports s.model⟩
  let imports := final.imports.entries.map (·.descriptor.reference)
  return {
    name := "xsl:stylesheet"
    attributes := headAttributes {
      target := s.model.target?, bindings := s.config.bindings, types := final.types.entries
      imports, roots := [], templates := [] }
    head := headCalls imports ++ globalCalls s.config.bindings ++ functionCalls
    body }

/-! ### What is written -/

variable {x : Plan} {c : Class} {p : Property}

theorem writeEntryRules_eq : writeEntryRules = issue (Element.scripts entryRules) := by
  simp [writeEntryRules, entryRules]

theorem writeValueRules_eq : writeValueRules = issue (Element.scripts valueRules) := by
  simp [writeValueRules, valueRules]

/-- What a call tells the template of a class besides the instance. -/
def extraArguments (type : Option QName) (noIdentity : Bool) : List Element :=
  (type.elim [] fun type => [argument "type_name" (literal type.text)]) ++
    (if noIdentity then [argument "no_iri" "true()"] else [])

theorem writeCall_eq (c : Class) (id : String) (type : Option QName) (noIdentity : Bool) :
    x.writeCall c id type noIdentity = writing (x.templateOf c) fun name =>
      (classCall name id (extraArguments type noIdentity)).script := by
  unfold Plan.writeCall writing
  cases type <;> cases noIdentity <;> simp [classCall, extraArguments]

theorem writeRoot_eq (c : Class) (priority : Nat) :
    x.writeRoot c priority = writing (x.rootRule c priority) fun r => r.toXml.script := by
  unfold Plan.writeRoot Plan.rootRule
  cases c.meaning with
  | none => rfl
  | some meaning =>
    have pattern (r : RootRule) : r.pattern = Plan.rootPattern r.meaning := rfl
    simp [writeCall_eq, writing, RootRule.toXml, pattern, extraArguments, classCall]

theorem writeRoots_eq (cs : List Class) : x.writeRoots cs =
    writing (x.rootRules cs) fun rs => Element.scripts (rs.map RootRule.toXml) := by
  induction cs with
  | nil => exact issue_nil.symm
  | cons c cs ih =>
    simp [Plan.writeRoots, Plan.rootRules, writeRoot_eq, ih, writing]

theorem writeBranch_eq (root c : Class) :
    x.writeBranch root c = writing (x.branch root c) fun b => b.toXml.script := by
  unfold Plan.writeBranch Plan.branch
  cases c.meaning with
  | none => rfl
  | some meaning =>
    simp only [writeCall_eq, writing]
    split <;> simp [Branch.toXml, extraArguments, classCall]

/-- What tells a member of a choice apart. -/
def Plan.dispatch (x : Plan) (plan : ChoicePlan) : Build (List Element) := do
  match plan.base with
  | .placeholder _ => return [onlyIf "$member/self::sp:uri" [identityOf "$member"]]
  | .rooted root _ =>
    let branches ← plan.candidates.mapM (x.branch root)
    let otherwise ← x.templateOf root
    return [
      .leaf "xsl:variable" [("name", "types"),
        ("select", "f:rows($subj, f:id-key($member), $type)/sp:binding[@name = $obj]/sp:uri")],
      .node "xsl:choose" [] (branches.map Branch.toXml ++ [
        .node "xsl:otherwise" [] [classCall otherwise "$member" []]])]

theorem writeDispatch_eq (plan : ChoicePlan) :
    x.writeDispatch plan = writing (x.dispatch plan) Element.scripts := by
  have branch (root : Class) : x.writeBranch root = fun c => writing (x.branch root c) fun b =>
    b.toXml.script := funext (writeBranch_eq root)
  unfold Plan.writeDispatch Plan.dispatch
  cases plan.base with
  | placeholder _ =>
    simp [writing, identityOf]
  | rooted root _ =>
    simp only [branch, forM_writing, writeCall_eq]
    simp [writing, extraArguments, Element.scripts_map]

theorem writeItem_eq : x.writeItem p = writing (x.item p) fun i => i.toXml.script := by
  unfold Plan.writeItem Plan.item
  by_cases spliced : p.isSpliced
  · simp [spliced, writeCall_eq, writing, extraArguments, Item.toXml]
  · simp only [spliced, Bool.false_eq_true, if_false, writing, lift_lift, liftM_bind, bind_assoc]
    refine bind_congr fun shape => ?_
    cases shape with
    | primitive vs =>
      simp only [Plan.contentOf]
      by_cases reverse : p.isReverse
      · simp [reverse]
        rfl
      · simp only [reverse, Bool.false_eq_true, if_false, liftM_bind, bind_assoc]
        refine bind_congr fun v => ?_
        cases v <;> simp [Item.toXml, Content.toXml]
    | single d =>
      simp [Plan.contentOf, writeCall_eq, writing, extraArguments, Item.toXml, Content.toXml]
    | choice plan =>
      simp only [writeDispatch_eq, Plan.contentOf, Plan.dispatch]
      cases plan.base <;> simp [writing, Item.toXml, Content.toXml, memberVariable]

theorem writeTemplate_eq (c : Class) :
    x.writeTemplate c = writing (x.classTemplate c) fun t => t.toXml.script := by
  have item : x.writeItem = fun p => writing (x.item p) fun i => i.toXml.script :=
    funext fun p => writeItem_eq
  unfold Plan.writeTemplate Plan.classTemplate
  simp only [item, forM_writing]
  simp [writing, Template.toXml, Element.scripts_map, identityOf]

theorem writeBody_eq : x.writeBody = writing x.rules fun made =>
    Element.scripts (entryRules ++ made.1.map RootRule.toXml ++ made.2.map Template.toXml ++
      valueRules) := by
  have template : x.writeTemplate = fun c => writing (x.classTemplate c) fun t => t.toXml.script :=
    funext writeTemplate_eq
  unfold Plan.writeBody Plan.rules
  simp only [template, forM_writing, writeRoots_eq, writeEntryRules_eq, writeValueRules_eq]
  simp [writing, Element.scripts_map]

/-! ### Drafts -/

/-- What stands before the rules of a stylesheet. -/
def introduction (l : Lowering) : List Element :=
  headElements l.imports ++ bindingParameters l.bindings ++ globalVariables ++ functions

theorem introduction_script (l : Lowering) : Element.scripts (introduction l) =
    headCalls l.imports ++ globalCalls l.bindings ++ functionCalls := by
  simp [introduction, headCalls_eq]
  rfl

/-- The draft of a stylesheet that has been made. -/
def draftOf (l : Lowering) : Draft :=
  .of "xsl:stylesheet" (headAttributes l) (introduction l)
    (entryRules ++ l.roots.map RootRule.toXml ++ l.templates.map Template.toXml ++ valueRules)

theorem draftOf_text (l : Lowering) : (draftOf l).text = render l := by
  rw [draftOf, Draft.of_text, render, toXml, introduction, headElements]
  simp only [List.append_assoc]

/-- A stylesheet is written as it would be if it were made first, and for no other sources. -/
theorem draft_eq (s : Source) : draft s = draftOf <$> generate s := by
  unfold draft generate unchecked
  simp only [writeBody_eq, map_bind]
  refine bind_congr fun _ => ?_
  change (writing (Plan.ofSource s).rules _ [] _ >>= _) = ((Plan.ofSource s).rules _ >>= _)
  rw [run_writing, bind_map_left]
  refine bind_congr fun r => ?_
  simp only [map_pure, draftOf, Draft.of, introduction_script]
  rfl

end RdfXmlMapping.Lowering
