import RdfXmlMapping.ClassNames
import RdfXmlMapping.Lifting.Basic
import RdfXmlMapping.Stylesheet.Basic

/-! Stylesheets from documents to RDF, as XML documents. -/

namespace RdfXmlMapping.Lifting

open Stylesheet
open Xml (Attributes Element)

/-- The template that writes the attribute by which RDF identifies an instance. -/
def nodeTemplateName : String := "lift-node"

def Suffix.text : Suffix → String
  | empty => "''"
  | own => "$suffix"
  | extended element => "concat($suffix, '/" ++ element ++ "')"

/-- The attribute that identifies an instance, or refers to it. -/
def nodeCall (isReference : Bool) (suffix : Suffix) : Element :=
  call nodeTemplateName
    ((if isReference then [argument "reference" "true()"] else []) ++
      [argument "suffix" suffix.text])

/-- Instructions for instances that are spliced in; one without elements is always present. -/
def whenPresent (present : List String) (body : List Element) : List Element :=
  if present.isEmpty then body else [onlyIf (" or ".intercalate present) body]

/-- The triples of a property inside the description of its subject. -/
def Forward.toXml : Forward → List Element
  | spliced present predicate element =>
    whenPresent present [.node predicate [] [nodeCall true (.extended element)]]
  | codelist element predicate =>
    [forEach element [.node predicate [] [attributeOf "rdf:resource" "."]]]
  | languageText element predicate =>
    [forEach element [.node predicate [] [copyOf "@xml:lang", valueOf "."]]]
  | literal element predicate datatype =>
    [forEach element [.node predicate [("rdf:datatype", datatype)] [valueOf "."]]]
  | link element predicate => [forEach element [.node predicate [] [nodeCall true .empty]]]

def Related.toXml : Related → List Element
  | spliced present element reverse template =>
    whenPresent present (
      (reverse.elim [] fun predicate =>
        [.node "rdf:Description" [] [
          nodeCall false (.extended element), .node predicate [] [nodeCall true .own]]]) ++
      [call template [argument "suffix" (Suffix.extended element).text]])
  | nested element reverse template =>
    [forEach element (
      (reverse.elim [] fun predicate =>
        [.node "rdf:Description" [] [
          nodeCall false .empty, .node predicate [] [forEach ".." [nodeCall true .own]]]]) ++
      template.elim [] fun name => [plainCall name])]

def Template.toXml (t : Template) : Element :=
  template t.name (
    [.leaf "xsl:param" [("name", "suffix"), ("select", "''")],
      .node "rdf:Description" [] (
        nodeCall false .own ::
        (t.meaning.elim [] fun iri => [.leaf "rdf:type" [("rdf:resource", iri)]]) ++
        t.forward.flatMap Forward.toXml)] ++
    t.related.flatMap Related.toXml)

def RootRule.toXml (r : RootRule) : Element :=
  rule ("/" ++ r.element.text) [.node "rdf:RDF" [] [plainCall r.template]]

/-- An instance without suffix is identified by its identity element, if it has one, and any other
by its element and its suffix. -/
def nodeTemplate : Element :=
  template nodeTemplateName [
    .leaf "xsl:param" [("name", "reference"), ("select", "false()")],
    .leaf "xsl:param" [("name", "suffix"), ("select", "''")],
    .node "xsl:choose" [] [
      .node "xsl:when" [("test", "$suffix = '' and " ++ identityElement)] [
        attributeOf "\x7bif ($reference) then 'rdf:resource' else 'rdf:about'\x7d"
          ("normalize-space(" ++ identityElement ++ ")")],
      .node "xsl:otherwise" [] [
        attributeOf "rdf:nodeID" "concat('n', generate-id(), translate($suffix, '/', '_'))"]]]

/-- What has no rule of its own is copied. -/
def identityRule : Element :=
  rule "@*|node()" [.node "xsl:copy" [] [.leaf "xsl:apply-templates" [("select", "@*|node()")]]]

def headAttributes (l : Lifting) : Attributes :=
  Stylesheet.headAttributes ++ [("xmlns:rdf", Vocabulary.rdf)] ++
  (match l.target with
    | some (name, uri) => [("xmlns:" ++ name, uri), ("exclude-result-prefixes", name)]
    | none => []) ++
  l.predicates.map fun (name, uri) => ("xmlns:" ++ name, uri)

def toXml (l : Lifting) : Element :=
  .node "xsl:stylesheet" (headAttributes l)
    (l.imports.map importOf ++ [outputMethod] ++ l.roots.map RootRule.toXml ++
      l.templates.map Template.toXml ++ [nodeTemplate, identityRule])

def render (l : Lifting) : String := (toXml l).document

end RdfXmlMapping.Lifting
