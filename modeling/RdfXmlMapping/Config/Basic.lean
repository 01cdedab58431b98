import RdfXmlMapping.Artifact.Kind

/-! Settings for the generation of artifacts. -/

namespace RdfXmlMapping

/-- Which content of a class is declared by name instead of standing where it is used; a named type
takes precedence over a named group. -/
structure Extraction where
  group : Bool := false
  namedType : Bool := false
  deriving DecidableEq, Repr

/-- Extraction for the classes that may be roots, and for all others. -/
structure ExtractionRules where
  root : Extraction := {}
  other : Extraction := {}
  deriving DecidableEq, Repr

/-- Whether the query builds a graph or lists triples. -/
inductive QueryForm where
  | construct
  | select
  deriving DecidableEq, Repr

/-- The names of the three columns of a query result. -/
structure Bindings where
  subject : String := "s"
  predicate : String := "p"
  object : String := "o"
  deriving DecidableEq, Repr

/-- Where artifacts are published. -/
structure Output where
  baseAddress : String := ""
  schemaFile : String := "schema.xsd"
  queryFile : String := "query.sparql"
  liftingFile : String := "lifting.xslt"
  loweringFile : String := "lowering.xslt"
  deriving DecidableEq, Repr

/-- All settings. -/
structure Config where
  extraction : ExtractionRules := {}
  form : QueryForm := .construct
  bindings : Bindings := {}
  output : Output := {}
  deriving DecidableEq, Repr

namespace Output

def fileName (o : Output) : ArtifactKind → String
  | .schema => o.schemaFile
  | .query => o.queryFile
  | .lifting => o.liftingFile
  | .lowering => o.loweringFile

def address (o : Output) (kind : ArtifactKind) : String := o.baseAddress ++ o.fileName kind

end Output

end RdfXmlMapping
