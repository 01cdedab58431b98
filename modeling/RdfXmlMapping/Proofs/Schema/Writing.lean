import RdfXmlMapping.Proofs.Schema.Particles
import RdfXmlMapping.Proofs.Schema.Resolution
import RdfXmlMapping.Proofs.Xml.Drafts

/-!
Schemas written while they are generated: the tags of a declaration are written between the steps
that find out what stands in it. Each function writes what the elements would that are made first
and written at the end (`writeMember_eq`, `writeDeclaration_eq`), so the draft of a schema is that
of the generated one (`draft_eq`).
-/

namespace RdfXmlMapping.Schema

open Xml Xml.Writing

def writeTitle (title : Labels) : Writing Build Unit := do
  if title.entries.isEmpty then pure ()
  else
    startTag "xs:annotation" []
    title.entries.forM fun (language, text) =>
      textElement "xs:documentation" [("xml:lang", language)] text
    endTag

def writeIdentity : Writing Build Unit :=
  emptyTag "xs:element" [("name", identityElement), ("type", "xs:anyURI"), ("minOccurs", "0")]

def writeLanguageText : Writing Build Unit := do
  startTag "xs:complexType" [("name", languageTextType)]
  startTag "xs:simpleContent" []
  startTag "xs:extension" [("base", "xs:string")]
  emptyTag "xs:attribute" [("ref", "xml:lang"), ("use", "required")]
  endTag
  endTag
  endTag

namespace Plan

def writePlain (x : Plan) (name : String) (occurs : Occurs) : List Primitive → Writing Build Unit
  | [one] => do
    let type ← x.plainType one
    emptyTag "xs:element" ([("name", name), ("type", type.text)] ++ occurs.attributes)
  | several => do
    let members := (several.map memberType).eraseDups
    startTag "xs:element" (("name", name) :: occurs.attributes)
    startTag "xs:simpleType" []
    emptyTag "xs:union" [("memberTypes", " ".intercalate (members.map QName.text))]
    endTag
    endTag

mutual

def writeSequence (x : Plan) (path chain : List String) (c : Class) : Writing Build Unit := do
  startTag "xs:sequence" []
  x.writeMembers path chain c true
  endTag
termination_by ((x.model.unvisited path).length, (x.model.unvisited chain).length, 3)

/-- Writes the content of a class. `path` holds the classes whose content this stands in, and
`chain` those whose content is spliced into the innermost of them. -/
def writeMembers (x : Plan) (path chain : List String) (c : Class) (withIdentity : Bool) :
    Writing Build Unit := do
  if withIdentity then writeIdentity
  (← x.model.effectiveProperties c).forM fun p => x.writeMember path chain p
termination_by ((x.model.unvisited path).length, (x.model.unvisited chain).length, 2)

def writeMember (x : Plan) (path chain : List String) (p : Property) : Writing Build Unit := do
  if p.isSpliced then
    let target ← x.model.spliceTarget p
    if _ : x.model.canEnter chain target.iri then
      if p.isSingle then x.writeMembers path (target.iri :: chain) target false
      else
        startTag "xs:sequence" (occursOf p).attributes
        x.writeMembers path (target.iri :: chain) target false
        endTag
    else throw (.dematerializationCycle p.iri)
  else
    let name := toNCName p.label
    match ← x.model.shapeOf p with
    | .primitive primitives =>
      if p.isReverse then throw (.reversePrimitive p.iri)
      x.writePlain name (occursOf p) primitives
    | .single target => x.writeClassMember path p target
    | .choice plan =>
      let type ← x.choiceType plan
      emptyTag "xs:element" ([("name", name), ("type", type.text)] ++ (occursOf p).attributes)
termination_by ((x.model.unvisited path).length, (x.model.unvisited chain).length, 1)
decreasing_by
  · exact Prod.Lex.right _ (Prod.Lex.left _ _ (Model.unvisited_lt ‹_›))
  · exact Prod.Lex.right _ (Prod.Lex.left _ _ (Model.unvisited_lt ‹_›))
  · exact Prod.Lex.right _ (by simp [Prod.lex_def]; omega)

def writeClassMember (x : Plan) (path : List String) (p : Property) (target : Class) :
    Writing Build Unit := do
  let name := toNCName p.label
  let imported ← x.outlook.resolve x.model target
  if imported.isSome || (x.extractionOf target).namedType || path.contains target.iri then
    let type ← x.typeOf target
    emptyTag "xs:element" ([("name", name), ("type", type.text)] ++ (occursOf p).attributes)
  else if (x.extractionOf target).group then
    startTag "xs:element" (("name", name) :: (occursOf p).attributes)
    startTag "xs:complexType" []
    let group ← x.requestGroup target
    emptyTag "xs:group" [("ref", group.text)]
    endTag
    endTag
  else if _ : x.model.canEnter path target.iri then
    startTag "xs:element" (("name", name) :: (occursOf p).attributes)
    startTag "xs:complexType" []
    x.writeSequence (target.iri :: path) [target.iri] target
    endTag
    endTag
  else throw (.unknownClass target.iri p.iri)
termination_by ((x.model.unvisited path).length, 0, 0)
decreasing_by exact Prod.Lex.left _ _ (Model.unvisited_lt ‹_›)

end

def writeRoot (x : Plan) (c : Class) : Writing Build Unit := do
  let name := Model.elementName c
  let imported ← x.outlook.resolve x.model c
  if imported.isSome || (x.extractionOf c).namedType then
    let type ← x.typeOf c
    let attributes := [("name", name), ("type", type.text)]
    if c.title.entries.isEmpty then emptyTag "xs:element" attributes
    else
      startTag "xs:element" attributes
      writeTitle c.title
      endTag
  else
    startTag "xs:element" [("name", name)]
    writeTitle c.title
    startTag "xs:complexType" []
    if (x.extractionOf c).group then
      let group ← x.requestGroup c
      emptyTag "xs:group" [("ref", group.text)]
    else x.writeSequence [c.iri] [c.iri] c
    endTag
    endTag

/-- Writes the content of a class after that of its parent, if it has one. -/
def writeExtension (x : Plan) (c : Class) : Writing Build Unit := do
  match ← x.model.parent? c with
  | none => x.writeSequence [c.iri] [c.iri] c
  | some parent =>
    let base ← x.typeOf parent
    startTag "xs:complexContent" []
    startTag "xs:extension" [("base", base.text)]
    startTag "xs:sequence" []
    c.properties.forM (x.writeMember [c.iri] [c.iri])
    endTag
    endTag
    endTag

def writeDeclaration (x : Plan) : Pending → Writing Build Unit
  | .type c => do
    let name := (← (get : Build Progress)).names.get c
    startTag "xs:complexType" [("name", name)]
    writeTitle c.title
    if x.extended.contains c.iri then x.writeExtension c
    else x.writeSequence [c.iri] [c.iri] c
    endTag
  | .group c => do
    let name := (← (get : Build Progress)).names.get c
    startTag "xs:group" [("name", name)]
    x.writeSequence [c.iri] [c.iri] c
    endTag
  | .placeholder name => do
    startTag "xs:complexType" [("name", name)]
    startTag "xs:sequence" []
    writeIdentity
    endTag
    endTag

def writePending (x : Plan) : (fuel : Nat) → Writing Build Unit
  | 0 => pure ()
  | fuel + 1 => do
    match (← (get : Build Progress)).pending with
    | [] => pure ()
    | next :: rest =>
      (modify ({ · with pending := rest }) : Build Unit)
      x.writeDeclaration next
      x.writePending fuel

def writeBody (x : Plan) : Writing Build Unit := do
  (← x.model.rootClasses).forM x.writeRoot
  x.writePending (declarationLimit x.model)
  if (← (get : Build Progress)).usesLanguageText then writeLanguageText

end Plan

def importCall (e : Import.Entry) : Call :=
  match e.descriptor.uri with
  | some uri => .empty "xs:import" [("namespace", uri), ("schemaLocation", e.descriptor.reference)]
  | none => .empty "xs:include" [("schemaLocation", e.descriptor.reference)]

def importCalls (importsXml : Bool) (imports : List Import.Entry) : List Call :=
  (if importsXml then [.empty "xs:import" [("namespace", Vocabulary.xml),
    ("schemaLocation", Vocabulary.xmlSchemaLocation)]] else []) ++ imports.map importCall

/-- The schema of a source as it is written: the body first, and then what its making has led to. -/
def draft (s : Source) : Generated Draft := do
  s.model.checkSplicing
  let x := planOf s (← extendedClasses s.model)
  let (((), body), final) ← (x.writeBody.run []).run (initial s)
  return {
    name := "xs:schema"
    attributes := headAttributes {
      target := s.model.target?, importsXml := final.usesLanguageText
      imports := final.imports.entries, declarations := [] }
    head := importCalls final.usesLanguageText final.imports.entries
    body }

/-! ### What is written -/

/-- The calls that write content. -/
def contentScript (content : List Particle) : List Call := Element.scripts (particles content)

theorem contentScript_cons (p : Particle) (ps : List Particle) :
    contentScript (p :: ps) = p.toXml.script ++ contentScript ps := rfl

theorem contentScript_singleton (p : Particle) : contentScript [p] = p.toXml.script :=
  List.append_nil _

theorem script_sequence (content : List Particle) : (sequence content).script =
    .start "xs:sequence" [] :: (contentScript content ++ [.stop]) := rfl

theorem script_spliced (occurs : Occurs) (content : List Particle) :
    (Particle.sequence occurs content).toXml.script =
      .start "xs:sequence" occurs.attributes :: (contentScript content ++ [.stop]) := rfl

theorem script_nested (name : String) (occurs : Occurs) (content : List Particle) :
    (Particle.nested name occurs content).toXml.script =
      .start "xs:element" (("name", name) :: occurs.attributes) :: .start "xs:complexType" [] ::
        ((sequence content).script ++ [.stop, .stop]) := by
  simp [Particle.toXml, anonymousType, sequence]

theorem contentScript_append (ps qs : List Particle) :
    contentScript (ps ++ qs) = contentScript ps ++ contentScript qs := by
  induction ps with
  | nil => rfl
  | cons p ps ih => simp [contentScript_cons, ih]

theorem contentScript_flatten (parts : List (List Particle)) :
    contentScript parts.flatten = parts.flatMap contentScript := by
  induction parts with
  | nil => rfl
  | cons part parts ih => simp [contentScript_append, ih]

theorem writeTitle_eq (title : Labels) :
    writeTitle title = issue (Element.scripts (documentation title)) := by
  unfold writeTitle documentation
  split
  · exact issue_nil.symm
  · simp only [textElement, forM_issue]
    simp [Element.scripts_map]

variable {x : Plan} {path chain : List String} {c : Class} {p : Property}

theorem writePlain_eq (name : String) (occurs : Occurs) (vs : List Primitive) :
    x.writePlain name occurs vs =
      writing (x.plainParticle name occurs vs) fun particle => particle.toXml.script := by
  unfold Plan.writePlain Plan.plainParticle
  split <;> simp [writing, Particle.toXml]

/-- The content of a class where its properties are written as they are made. -/
theorem writeMembers_eq (each : ∀ p, x.writeMember path chain p =
      writing (x.member path chain p) contentScript) (withIdentity : Bool) :
    x.writeMembers path chain c withIdentity =
      writing (do x.particles path chain (← x.model.effectiveProperties c)) fun content =>
        contentScript (if withIdentity then .identity :: content else content) := by
  rw [Plan.writeMembers]
  simp only [each, forM_writing]
  cases withIdentity with
  | false => simp [writing, particles_eq, contentScript_flatten]
  | true =>
    simp [writing, particles_eq, contentScript_cons, contentScript_flatten, writeIdentity,
      Particle.toXml, identityParticle]

theorem writeSequence_eq (each : ∀ p, x.writeMember path chain p =
      writing (x.member path chain p) contentScript) :
    x.writeSequence path chain c =
      writing (do x.particles path chain (← x.model.effectiveProperties c)) fun content =>
        (sequence (.identity :: content)).script := by
  rw [Plan.writeSequence, writeMembers_eq each]
  simp [writing, script_sequence, contentScript_cons]

/-- The content of a property whose values are instances of one class. -/
def Plan.classMember (x : Plan) (path : List String) (p : Property) (target : Class) :
    Build (List Particle) := do
  let imported ← x.outlook.resolve x.model target
  if imported.isSome || (x.extractionOf target).namedType || path.contains target.iri then
    return [.element (toNCName p.label) (← x.typeOf target) (occursOf p)]
  else if (x.extractionOf target).group then
    return [.grouped (toNCName p.label) (occursOf p) (← x.requestGroup target)]
  else if x.model.canEnter path target.iri then
    let content ← x.particles (target.iri :: path) [target.iri]
      (← x.model.effectiveProperties target)
    return [.nested (toNCName p.label) (occursOf p) (.identity :: content)]
  else throw (.unknownClass target.iri p.iri)

theorem writeClassMember_eq {target : Class}
    (inner : ∀ iri, x.model.canEnter path iri → ∀ q, x.writeMember (iri :: path) [iri] q =
      writing (x.member (iri :: path) [iri] q) contentScript) :
    x.writeClassMember path p target = writing (x.classMember path p target) contentScript := by
  rw [Plan.writeClassMember]
  unfold Plan.classMember writing
  simp only [lift_lift, liftM_bind, bind_assoc]
  refine bind_congr fun imported => ?_
  split
  · simp [contentScript_singleton, Particle.toXml]
  split
  · simp [contentScript_singleton, Particle.toXml, anonymousType, groupReference]
  split
  next way =>
    rw [writeSequence_eq (inner _ way)]
    simp [writing, contentScript_singleton, script_nested]
  next => rfl

theorem writeMember_eq (x : Plan) (path : List String) : ∀ chain p, x.writeMember path chain p =
    writing (x.member path chain p) contentScript := by
  intro chain
  induction path, chain using content_induction x.model with
  | step path chain nested spliced =>
    intro p
    rw [Plan.writeMember]
    unfold Plan.member writing
    split
    · simp only [lift_lift, liftM_bind, bind_assoc]
      refine bind_congr fun d => ?_
      split
      next way =>
        rw [writeMembers_eq (spliced _ way)]
        split
        · simp [writing]
        · simp [writing, contentScript_singleton, script_spliced]
      next => rfl
    · simp only [lift_lift, liftM_bind, bind_assoc]
      refine bind_congr fun shape => ?_
      cases shape with
      | primitive vs =>
        dsimp only
        rw [writePlain_eq]
        split
        · rfl
        · simp [writing, contentScript_singleton]
      | single d => exact writeClassMember_eq nested
      | choice plan =>
        simp [contentScript_singleton, Particle.toXml]

theorem writeContent_eq (x : Plan) (c : Class) : x.writeSequence [c.iri] [c.iri] c =
    writing (x.content c) fun content => (sequence content).script := by
  rw [writeSequence_eq (writeMember_eq x [c.iri] [c.iri])]
  simp [writing, Plan.content]

theorem writeRoot_eq (x : Plan) (c : Class) :
    x.writeRoot c = writing (x.root c) fun d => d.toXml.script := by
  unfold Plan.writeRoot Plan.root writing
  simp only [lift_lift, liftM_bind, bind_assoc, writeTitle_eq, writeContent_eq]
  refine bind_congr fun imported => ?_
  split
  · by_cases untitled : c.title.entries = [] <;>
      simp [Declaration.toXml, untitled]
  split
  · simp [Declaration.toXml, anonymousType, groupReference]
  · simp [writing, Declaration.toXml, anonymousType]

/-- What the type of a class that extends its parent holds. -/
def Plan.extensionContent (x : Plan) (c : Class) : Build Element := do
  match ← x.model.parent? c with
  | none => return sequence (← x.content c)
  | some parent =>
    let base ← x.typeOf parent
    return .node "xs:complexContent" [] [
      .node "xs:extension" [("base", base.text)] [
        sequence (← x.particles [c.iri] [c.iri] c.properties)]]

theorem writeExtension_eq (x : Plan) (c : Class) :
    x.writeExtension c = writing (x.extensionContent c) Element.script := by
  have each : x.writeMember [c.iri] [c.iri] =
      fun p => writing (x.member [c.iri] [c.iri] p) contentScript :=
    funext (writeMember_eq x [c.iri] [c.iri])
  unfold Plan.writeExtension Plan.extensionContent writing
  simp only [lift_lift, liftM_bind, bind_assoc, writeContent_eq, each, forM_writing]
  refine bind_congr fun parent => ?_
  cases parent with
  | none => simp [writing]
  | some parent =>
    simp [writing, particles_eq, script_sequence, contentScript_flatten]

theorem writeDeclaration_eq (x : Plan) (p : Pending) :
    x.writeDeclaration p = writing (x.declare p) fun d => d.toXml.script := by
  cases p with
  | type c =>
    unfold Plan.writeDeclaration Plan.declare writing Plan.extensionBase
    simp only [liftM_bind, bind_assoc, writeTitle_eq, writeContent_eq, writeExtension_eq]
    refine bind_congr fun s => ?_
    split
    · simp only [Plan.extensionContent, writing, startTag, endTag, issue_issue_bind, issue_lift,
        liftM_bind, bind_assoc]
      refine bind_congr fun parent => ?_
      cases parent <;> simp [Declaration.toXml]
    · have own :
          (liftM (.ok none : Generated (Option Class)) : Build (Option Class)) = pure none := rfl
      simp [writing, own, Declaration.toXml]
  | group c =>
    unfold Plan.writeDeclaration Plan.declare writing
    simp only [liftM_bind, bind_assoc, writeContent_eq]
    refine bind_congr fun s => ?_
    simp [writing, Declaration.toXml]
  | placeholder name =>
    simp [Plan.writeDeclaration, Plan.declare, writing, writeIdentity, Declaration.toXml,
      identityParticle]

theorem writePending_eq (x : Plan) (fuel : Nat) : x.writePending fuel =
    writing (x.drain fuel) fun ds => ds.flatMap fun d => d.toXml.script := by
  induction fuel with
  | zero => simp [Plan.writePending, Plan.drain, writing, issue_nil]
  | succ fuel ih =>
    unfold Plan.writePending Plan.drain writing
    simp only [liftM_bind, bind_assoc, ih, writeDeclaration_eq]
    refine bind_congr fun s => ?_
    cases s.pending with
    | nil => simp [issue_nil]
    | cons next rest => simp [writing]

theorem writeLanguageText_eq : writeLanguageText = issue Declaration.languageText.toXml.script := by
  simp [writeLanguageText, Declaration.toXml]

theorem writeBody_eq (x : Plan) : x.writeBody =
    writing x.declarations fun ds => Element.scripts (ds.map Declaration.toXml) := by
  have each : x.writeRoot = fun c => writing (x.root c) fun d => d.toXml.script :=
    funext (writeRoot_eq x)
  unfold Plan.writeBody Plan.declarations
  simp only [each, forM_writing, writePending_eq, writeLanguageText_eq]
  simp only [writing, lift_lift, liftM_bind, liftM_pure, bind_assoc, pure_bind, issue_lift,
    issue_issue_bind]
  refine bind_congr fun cs => bind_congr fun roots => bind_congr fun others =>
    bind_congr fun s => ?_
  split <;> simp [Element.scripts_map]

/-! ### Drafts -/

/-- What stands before the declarations of a schema. -/
def importElements (importsXml : Bool) (imports : List Import.Entry) : List Element :=
  (if importsXml then [Element.leaf "xs:import" [("namespace", Vocabulary.xml),
    ("schemaLocation", Vocabulary.xmlSchemaLocation)]] else []) ++ imports.map importElement

theorem importCalls_eq (importsXml : Bool) (imports : List Import.Entry) :
    importCalls importsXml imports = Element.scripts (importElements importsXml imports) := by
  have each (e : Import.Entry) : (importElement e).script = [importCall e] := by
    cases uri : e.descriptor.uri <;> simp [importElement, importCall, uri]
  rw [importElements, Element.scripts_append, Element.scripts_map]
  simp only [each, ← List.map_eq_flatMap]
  cases importsXml <;> rfl

/-- The draft of a schema that has been made. -/
def draftOf (schema : Schema) : Draft :=
  .of "xs:schema" (headAttributes schema) (importElements schema.importsXml schema.imports)
    (schema.declarations.map Declaration.toXml)

theorem draftOf_text (schema : Schema) : (draftOf schema).text = render schema := Draft.of_text

/-- A schema is written as it would be if it were made first, and for no other sources. -/
theorem draft_eq (s : Source) : draft s = draftOf <$> generate s := by
  unfold draft generate unchecked
  simp only [writeBody_eq, map_bind]
  refine bind_congr fun _ => bind_congr fun extended => ?_
  change (writing (planOf s extended).declarations _ [] (initial s) >>= _) =
    ((planOf s extended).declarations (initial s) >>= _)
  rw [run_writing, bind_map_left]
  refine bind_congr fun r => ?_
  rw [importCalls_eq]
  rfl

end RdfXmlMapping.Schema
