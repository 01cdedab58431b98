import RdfXmlMapping.NCName
import RdfXmlMapping.Text.Replace
import RdfXmlMapping.Vocabulary

/-! The types of literals in a schema. -/

namespace RdfXmlMapping

/-- A simple type of XML Schema, or the type of texts with a language. -/
inductive SchemaType where
  | builtin (name : String)
  | languageText
  deriving DecidableEq, Repr

/-- The type of the literals of a datatype. Points in time must have a time zone; a datatype that is
no name of XML Schema can be any simple type. -/
def SchemaType.ofDatatype (iri : String) : SchemaType :=
  if iri = Vocabulary.langString then .languageText
  else if iri = Vocabulary.xsd ++ "dateTime" then .builtin "dateTimeStamp"
  else match Text.after? Vocabulary.xsd.toList iri.toList with
    | some name =>
      if NCName.isNCNameChars name then .builtin (.ofList name) else .builtin "anySimpleType"
    | none => .builtin "anySimpleType"

end RdfXmlMapping
