import RdfXmlMapping.Import.Table
import RdfXmlMapping.Model.Basic
import RdfXmlMapping.Xml.Element

/-! Schemas of documents: what they declare and what elements may hold. -/

namespace RdfXmlMapping.Schema

open Xml (QName)

/-- How often something may occur; there may be no upper bound. -/
structure Occurs where
  least : UInt32
  most : Option UInt32
  deriving DecidableEq, Repr

/-- What may stand at a place in the content of an element. -/
inductive Particle where
  /-- The identity of the instance, which may be left out. -/
  | identity
  /-- An element of a named type. -/
  | element (name : String) (type : QName) (occurs : Occurs)
  /-- An element with a value of one of several simple types. -/
  | union (name : String) (occurs : Occurs) (members : List QName)
  /-- An element whose content stands here. -/
  | nested (name : String) (occurs : Occurs) (content : List Particle)
  /-- An element whose content is a named group. -/
  | grouped (name : String) (occurs : Occurs) (group : QName)
  /-- Spliced content that need not occur exactly once. -/
  | sequence (occurs : Occurs) (content : List Particle)
  deriving Repr

/-- What the document element may hold. -/
inductive RootContent where
  | typed (type : QName)
  | nested (content : List Particle)
  | grouped (group : QName)
  deriving Repr

/-- A top-level declaration. -/
inductive Declaration where
  /-- An element that may be the root of a document. -/
  | root (name : String) (title : Labels) (content : RootContent)
  | complexType (name : String) (title : Labels) (content : List Particle)
  /-- A type that goes on after the content of another. -/
  | extension (name : String) (title : Labels) (base : QName) (content : List Particle)
  | group (name : String) (content : List Particle)
  /-- A type with nothing but the identity. -/
  | placeholder (name : String)
  /-- The type of texts with a language. -/
  | languageText
  deriving Repr

end Schema

/-- A schema. The target is the namespace of what it declares, with the prefix bound to it. -/
structure Schema where
  target : Option (String × String)
  importsXml : Bool
  imports : List Import.Entry
  declarations : List Schema.Declaration
  deriving Repr

end RdfXmlMapping
