import RdfXmlMapping.ClassNames
import RdfXmlMapping.Schema.Basic
import RdfXmlMapping.Vocabulary
import RdfXmlMapping.Xml.Element

/-! Schemas as XML documents. -/

namespace RdfXmlMapping.Schema

open Xml (Attributes Element QName)

def Occurs.attributes (o : Occurs) : Attributes :=
  (if o.least = 1 then [] else [("minOccurs", toString o.least.toNat)]) ++
  (match o.most with
    | some n => if n = 1 then [] else [("maxOccurs", toString n.toNat)]
    | none => [("maxOccurs", "unbounded")])

def anonymousType (content : Element) : Element := .node "xs:complexType" [] [content]

def groupReference (group : QName) : Element := .leaf "xs:group" [("ref", group.text)]

def identityParticle : Element :=
  .leaf "xs:element" [("name", identityElement), ("type", "xs:anyURI"), ("minOccurs", "0")]

mutual

def Particle.toXml : Particle → Element
  | .identity => identityParticle
  | .element name type occurs =>
    .leaf "xs:element" ([("name", name), ("type", type.text)] ++ occurs.attributes)
  | .union name occurs members =>
    .node "xs:element" (("name", name) :: occurs.attributes) [
      .node "xs:simpleType" [] [
        .leaf "xs:union" [("memberTypes", " ".intercalate (members.map QName.text))]]]
  | .nested name occurs content =>
    .node "xs:element" (("name", name) :: occurs.attributes) [
      anonymousType (.node "xs:sequence" [] (particles content))]
  | .grouped name occurs group =>
    .node "xs:element" (("name", name) :: occurs.attributes) [anonymousType (groupReference group)]
  | .sequence occurs content => .node "xs:sequence" occurs.attributes (particles content)

def particles : List Particle → List Element
  | [] => []
  | p :: ps => p.toXml :: particles ps

end

def sequence (content : List Particle) : Element := .node "xs:sequence" [] (particles content)

def documentation (title : Labels) : List Element :=
  if title.entries.isEmpty then []
  else [.node "xs:annotation" [] (title.entries.map fun (language, text) =>
    .text "xs:documentation" [("xml:lang", language)] text)]

def Declaration.toXml : Declaration → Element
  | .root name title (.typed type) =>
    let attributes := [("name", name), ("type", type.text)]
    if title.entries.isEmpty then .leaf "xs:element" attributes
    else .node "xs:element" attributes (documentation title)
  | .root name title (.nested content) =>
    .node "xs:element" [("name", name)] (documentation title ++ [anonymousType (sequence content)])
  | .root name title (.grouped g) =>
    .node "xs:element" [("name", name)]
      (documentation title ++ [anonymousType (groupReference g)])
  | .complexType name title content =>
    .node "xs:complexType" [("name", name)] (documentation title ++ [sequence content])
  | .extension name title base content =>
    .node "xs:complexType" [("name", name)] (documentation title ++ [
      .node "xs:complexContent" [] [
        .node "xs:extension" [("base", base.text)] [sequence content]]])
  | .group name content => .node "xs:group" [("name", name)] [sequence content]
  | .placeholder name =>
    .node "xs:complexType" [("name", name)] [.node "xs:sequence" [] [identityParticle]]
  | .languageText =>
    .node "xs:complexType" [("name", languageTextType)] [
      .node "xs:simpleContent" [] [
        .node "xs:extension" [("base", "xs:string")] [
          .leaf "xs:attribute" [("ref", "xml:lang"), ("use", "required")]]]]

def importBinding (e : Import.Entry) : Option (String × String) :=
  match e.bound, e.descriptor.uri with
  | some name, some uri => some ("xmlns:" ++ name, uri)
  | _, _ => none

/-- The import of another schema; one without a namespace is included. -/
def importElement (e : Import.Entry) : Element :=
  match e.descriptor.uri with
  | some uri =>
    .leaf "xs:import" [("namespace", uri), ("schemaLocation", e.descriptor.reference)]
  | none => .leaf "xs:include" [("schemaLocation", e.descriptor.reference)]

def headAttributes (s : Schema) : Attributes :=
  [("xmlns:xs", Vocabulary.xmlSchema), ("xmlns:vc", Vocabulary.xmlSchemaVersioning),
    ("vc:minVersion", "1.1"), ("version", "1.1"), ("elementFormDefault", "unqualified")] ++
  (match s.target with
    | some (name, uri) => [("targetNamespace", uri), ("xmlns:" ++ name, uri)]
    | none => []) ++
  s.imports.filterMap importBinding

def toXml (s : Schema) : Element :=
  .node "xs:schema" (headAttributes s)
    ((if s.importsXml then [Element.leaf "xs:import" [("namespace", Vocabulary.xml),
        ("schemaLocation", Vocabulary.xmlSchemaLocation)]] else []) ++
      s.imports.map importElement ++ s.declarations.map Declaration.toXml)

def render (s : Schema) : String := (toXml s).document

end RdfXmlMapping.Schema
