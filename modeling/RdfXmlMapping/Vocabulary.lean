/-! The vocabularies that models, queries and documents refer to. -/

namespace RdfXmlMapping.Vocabulary

def rdf : String := "http://www.w3.org/1999/02/22-rdf-syntax-ns#"

/-- The datatypes of XML Schema as IRIs: each is this followed by its name. -/
def xsd : String := "http://www.w3.org/2001/XMLSchema#"

def xmlSchema : String := "http://www.w3.org/2001/XMLSchema"

/-- The namespace of the attribute by which a document states the type of an element. -/
def xmlSchemaInstance : String := "http://www.w3.org/2001/XMLSchema-instance"

/-- The namespace of the attributes that state the version of XML Schema. -/
def xmlSchemaVersioning : String := "http://www.w3.org/2007/XMLSchema-versioning"

/-- The namespace that the prefix `xml` always stands for. -/
def xml : String := "http://www.w3.org/XML/1998/namespace"

/-- Where the schema of the namespace `xml` is published. -/
def xmlSchemaLocation : String := "http://www.w3.org/2001/xml.xsd"

/-- The namespace that the prefix `xmlns` always stands for. -/
def xmlns : String := "http://www.w3.org/2000/xmlns/"

def xslt : String := "http://www.w3.org/1999/XSL/Transform"

def sparqlResults : String := "http://www.w3.org/2005/sparql-results#"

def rdfType : String := rdf ++ "type"

def langString : String := rdf ++ "langString"

end RdfXmlMapping.Vocabulary
