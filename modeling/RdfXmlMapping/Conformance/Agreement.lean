import RdfXmlMapping.Artifact.Set
import RdfXmlMapping.Conformance.Report
import RdfXmlMapping.Text.Segments
import RdfXmlMapping.Xml.Node

/-!
The artifacts of one model are used together, so they must agree: on the roots, on the classes that
have templates, on the templates that are called, and on the names of the columns of a query result.
Artifacts that are no documents are left to other checks.
-/

namespace RdfXmlMapping.Conformance

open Xml (Node)

/-- The names of the instructions of a kind at the top level of a stylesheet. -/
def templateNames (sheet : Node) : List String :=
  Text.sorted ((sheet.childrenNamed Vocabulary.xslt "template").filterMap (·.attribute? "name"))

def rootName? (pattern : String) : Option String :=
  match pattern.toList with
  | '/' :: c :: cs => some (.ofList (((c :: cs).reverse.takeWhile (· ≠ ':')).reverse))
  | _ => none

/-- Checks that the rules of the lifting are those of the global elements. -/
def checkRules (schema lifting : Node) : Finding :=
  let check := "consistency/roots"
  let elements := Text.sorted
    ((schema.childrenNamed Vocabulary.xmlSchema "element").filterMap (·.attribute? "name"))
  let rules := Text.sorted
    ((lifting.childrenNamed Vocabulary.xslt "template").filterMap fun n =>
      (n.attribute? "match").bind rootName?)
  if elements = rules then
    .passed check (toString elements.length ++ " root elements have lifting rules")
  else
    .failed check "lifting rules and schema roots differ"
      ((Text.without elements rules).map (· ++ ": no lifting rule") ++
        (Text.without rules elements).map (· ++ ": no schema element"))

def classTemplates (sheet : Node) : List String :=
  (templateNames sheet).filter (·.toList.head? = some '_')

/-- Checks that both stylesheets have templates for the same classes. -/
def checkTemplates (lifting lowering : Node) : Finding :=
  let check := "consistency/templates"
  let lifted := classTemplates lifting
  let lowered := classTemplates lowering
  if lifted = lowered then
    .passed check (toString lifted.length ++ " class templates in both stylesheets")
  else
    .failed check "lifting and lowering cover different classes"
      ((Text.without lifted lowered).map (· ++ ": lifting only") ++
        (Text.without lowered lifted).map (· ++ ": lowering only"))

/-- Checks that the templates a stylesheet calls are its own, or may be imported ones. -/
def checkCalls (kind : ArtifactKind) (sheet : Node) : Finding :=
  let check := "consistency/calls/" ++ kind.name
  let defined := templateNames sheet
  let imports := (sheet.childrenNamed Vocabulary.xslt "import").length
  let called := (sheet.descendants.filter (·.isNamed Vocabulary.xslt "call-template")).filterMap
    (·.attribute? "name")
  match Text.sorted (Text.without called defined) with
  | [] => .passed check (toString defined.length ++ " templates, all calls resolve")
  | missing =>
    if imports > 0 then
      .warned check (toString missing.length ++ " calls resolve only through " ++
        toString imports ++ " imported stylesheets") missing
    else .failed check "calls to undefined templates" missing

/-- What is wrong with a parameter, if anything is. -/
def parameterProblem? (lowering : Node) (name expected : String) : Option String :=
  let quoted := "'" ++ expected ++ "'"
  let parameters := lowering.childrenNamed Vocabulary.xslt "param"
  match (parameters.find? (·.attribute? "name" = some name)).bind (·.attribute? "select") with
  | some select =>
    if select = quoted then none
    else some (name ++ ": defaults to " ++ select ++ ", expected " ++ quoted)
  | none => some (name ++ ": not declared")

/-- Checks that the parameters of the lowering are the names of the columns. -/
def checkParameters (lowering : Node) (b : Bindings) : Finding :=
  let check := "consistency/bindings"
  match [("subj", b.subject), ("pred", b.predicate), ("obj", b.object)].filterMap fun p =>
      parameterProblem? lowering p.1 p.2 with
  | [] => .passed check "lowering parameters match the bindings"
  | problems => .failed check "lowering parameters differ from the bindings" problems

/-- Checks artifacts against each other. -/
def checkAgreement (set : ArtifactSet) (b : Bindings) : Report :=
  let schema := set.schema.bind Node.parse?
  let lifting := set.lifting.bind Node.parse?
  let lowering := set.lowering.bind Node.parse?
  let rules := match schema, lifting with
    | some schema, some lifting => [checkRules schema lifting]
    | _, _ => []
  let templates := match lifting, lowering with
    | some lifting, some lowering => [checkTemplates lifting lowering]
    | _, _ => []
  rules ++ templates ++ (lifting.map (checkCalls .lifting)).toList ++
    (lowering.map (checkCalls .lowering)).toList ++
    (lowering.map (checkParameters · b)).toList

end RdfXmlMapping.Conformance
