import RdfXmlMapping.ClassNames
import RdfXmlMapping.Lowering.Basic
import RdfXmlMapping.Stylesheet.Basic

/-! Stylesheets from query results to documents, as XML documents. -/

namespace RdfXmlMapping.Lowering

/-! ### Literals -/

def quoteChar (c : Char) : List Char := if c = '\'' then ['\'', '\''] else [c]

def literal (s : String) : String := .ofList ('\'' :: s.toList.flatMap quoteChar ++ ['\''])

/-! ### Documents -/

open Stylesheet
open Xml (Attributes Element)

def functionNamespace : String := "urn:structura:lowering"

/-- The expression for the rows of a property: the instance is the subject of their triples, or the
object if the property is reverse. -/
def Rows.text (r : Rows) : String :=
  "f:rows(" ++ (if r.isReverse then "$obj" else "$subj") ++ ", $key, " ++ literal r.predicate ++ ")"

def Rows.member (r : Rows) : String :=
  "sp:binding[@name = " ++ (if r.isReverse then "$subj" else "$obj") ++ "]/*"

/-- A call of the template of a class for the instance that an expression selects. -/
def classCall (template id : String) (extra : List Element) : Element :=
  call template (argument "id" id :: extra)

def identityOf (selection : String) : Element := .node identityElement [] [valueOf selection]

def Branch.toXml (b : Branch) : Element :=
  .node "xsl:when" [("test", "$types = " ++ literal b.meaning)] [
    classCall b.template "$member"
      (b.type.elim [] fun type => [argument "type_name" (literal type.text)])]

def memberVariable (selection : String) : Element :=
  .leaf "xsl:variable" [("name", "member"), ("select", selection)]

/-- What an element holds for the value that an expression selects. -/
def Content.toXml (member : String) : Content → List Element
  | codelist => [valueOf member]
  | literal => [.leaf "xsl:apply-templates" [("select", member), ("mode", "value")]]
  | instanceOf template => [classCall template member []]
  | identity =>
    [memberVariable member, onlyIf "$member/self::sp:uri" [identityOf "$member"]]
  | choice branches otherwise =>
    [memberVariable member,
      .leaf "xsl:variable" [("name", "types"),
        ("select", "f:rows($subj, f:id-key($member), $type)/sp:binding[@name = $obj]/sp:uri")],
      .node "xsl:choose" [] (branches.map Branch.toXml ++ [
        .node "xsl:otherwise" [] [classCall otherwise "$member" []]])]

def Item.toXml : Item → Element
  | spliced rows template =>
    forEach rows.text [classCall template rows.member [argument "no_iri" "true()"]]
  | element rows name content =>
    forEach rows.text [.node name [] (content.toXml rows.member)]

def Template.toXml (t : Template) : Element :=
  template t.name (
    [.leaf "xsl:param" [("name", "id"), ("as", "element()")],
      .leaf "xsl:param" [("name", "type_name"), ("as", "xs:string?"), ("select", "()")],
      .leaf "xsl:param" [("name", "no_iri"), ("as", "xs:boolean"), ("select", "false()")],
      onlyIf "exists($type_name)" [attributeOf "xsi:type" "$type_name"],
      onlyIf "not($no_iri) and $id/self::sp:uri" [identityOf "$id"],
      .leaf "xsl:variable" [("name", "key"), ("select", "f:id-key($id)")]] ++
    t.items.map Item.toXml)

def RootRule.pattern (r : RootRule) : String :=
  "sp:result[sp:binding[@name = $pred]/sp:uri = $type and sp:binding[@name = $obj]/sp:uri = " ++
    literal r.meaning ++ "]"

def RootRule.toXml (r : RootRule) : Element :=
  .node "xsl:template" [("match", r.pattern), ("priority", toString r.priority)] [
    .node r.element.text [] [classCall r.template "sp:binding[@name = $subj]/*" []]]

/-- The names of the columns, as parameters. -/
def bindingParameters (b : Bindings) : List Element :=
  [("subj", b.subject), ("pred", b.predicate), ("obj", b.object)].map fun (name, column) =>
    .leaf "xsl:param" [("name", name), ("select", literal column), ("as", "xs:string")]

/-- The variables for the predicate that states a class and for the rows. -/
def globalVariables : List Element :=
  [.leaf "xsl:variable"
      [("name", "type"), ("select", literal Vocabulary.rdfType), ("as", "xs:string")],
    .leaf "xsl:variable" [("name", "results"), ("select", "/sp:sparql/sp:results/sp:result")]]

/-- The functions: the key of a term, and the rows with a key in a column and a predicate. -/
def functions : List Element :=
  [.node "xsl:function" [("name", "f:id-key"), ("as", "xs:string")] [
      .leaf "xsl:param" [("name", "term"), ("as", "element()?")],
      .leaf "xsl:sequence" [("select",
        "if (empty($term)) then '' else concat(local-name($term), '|', string($term))")]],
    .node "xsl:function" [("name", "f:rows"), ("as", "element()*")] [
      .leaf "xsl:param" [("name", "role"), ("as", "xs:string")],
      .leaf "xsl:param" [("name", "key"), ("as", "xs:string")],
      .leaf "xsl:param" [("name", "predicate"), ("as", "xs:string")],
      .leaf "xsl:sequence" [("select",
        "$results[sp:binding[@name = $role]/*/f:id-key(.) = $key " ++
          "and sp:binding[@name = $pred]/sp:uri = $predicate]")]]]

/-- The rules for the document and for rows that no rule of a root applies to. -/
def entryRules : List Element :=
  [rule "/" [.leaf "xsl:apply-templates" [("select", "$results")]],
    .leaf "xsl:template" [("match", "sp:result")]]

/-- The rules for values: a literal keeps its language, and the schema gives it its type. -/
def valueRules : List Element :=
  [.node "xsl:template" [("match", "sp:literal"), ("mode", "value")]
      [copyOf "@xml:lang", valueOf "."],
    .node "xsl:template" [("match", "sp:uri | sp:bnode"), ("mode", "value")] [valueOf "."]]

def typeBinding (e : Import.Entry) : Option (String × String) :=
  match e.bound, e.descriptor.uri with
  | some name, some uri => some ("xmlns:" ++ name, uri)
  | _, _ => none

def headAttributes (l : Lowering) : Attributes :=
  Stylesheet.headAttributes ++
  [("xmlns:xs", Vocabulary.xmlSchema), ("xmlns:sp", Vocabulary.sparqlResults),
    ("xmlns:f", functionNamespace), ("xmlns:xsi", Vocabulary.xmlSchemaInstance)] ++
  (match l.target with
    | some (name, uri) => [("xmlns:" ++ name, uri)]
    | none => []) ++
  l.types.filterMap typeBinding ++
  [("exclude-result-prefixes", "xs sp f")]

def toXml (l : Lowering) : Element :=
  .node "xsl:stylesheet" (headAttributes l)
    (l.imports.map importOf ++ [outputMethod] ++ bindingParameters l.bindings ++ globalVariables ++
      functions ++ entryRules ++ l.roots.map RootRule.toXml ++ l.templates.map Template.toXml ++
      valueRules)

def render (l : Lowering) : String := (toXml l).document

end RdfXmlMapping.Lowering
