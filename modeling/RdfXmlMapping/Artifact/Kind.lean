/-! The four kinds of artifacts. -/

namespace RdfXmlMapping

/-- What is generated from a model: the schema of its documents, the query that extracts their data
from RDF, the stylesheet from documents to RDF, and the one from query results to documents. -/
inductive ArtifactKind where
  | schema
  | query
  | lifting
  | lowering
  deriving DecidableEq, Repr

namespace ArtifactKind

def all : List ArtifactKind := [schema, query, lifting, lowering]

def name : ArtifactKind → String
  | schema => "xml-schema"
  | query => "sparql"
  | lifting => "xslt-lifting"
  | lowering => "xslt-lowering"

def ofName? (s : String) : Option ArtifactKind := all.find? (·.name == s)

end ArtifactKind

end RdfXmlMapping
