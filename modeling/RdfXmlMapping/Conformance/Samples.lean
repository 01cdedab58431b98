import RdfXmlMapping.Artifact.Kind
import RdfXmlMapping.Model.Build
import RdfXmlMapping.Vocabulary

/-!
Models that between them use every construct, for checking generation as a whole: nested content and
codelists, choices of classes, spliced content and reverse properties, and recursion.
-/

namespace RdfXmlMapping.Conformance

/-- A model, and the artifacts that cannot be generated from it. -/
structure Sample where
  name : String
  model : Model
  refused : List ArtifactKind := []
  deriving DecidableEq, Repr

namespace Sample

def optional (p : Property) : Property := { p with least := 0 }

def repeated (p : Property) : Property := { p with most := none }

def xsd (name : String) : String := Vocabulary.xsd ++ name

def meaning (c : Class) (iri : String) : Class := { c with meaning := some iri }

/-- Literals, a codelist, and classes inside each other. -/
def catalog : Sample :=
  let base := "https://ex.org/psm/catalog"
  let dcterms := "http://purl.org/dc/terms/"
  let dcat := "http://www.w3.org/ns/dcat#"
  let dataset := (meaning (.make (base ++ "/Dataset") "Dataset") (dcat ++ "Dataset"))
    |>.declaring { repeated ((Property.make "title" (dcterms ++ "title")).primitive
        Vocabulary.langString) with title := .ofList [("en", "Title")] }
    |>.declaring (optional ((Property.make "issued" (dcterms ++ "issued")).primitive (xsd "date")))
    |>.declaring (optional (repeated ((Property.make "theme" (dcat ++ "theme")).association
        (base ++ "/Theme"))))
    |>.declaring (optional ((Property.make "publisher" (dcterms ++ "publisher")).association
        (base ++ "/Agent")))
    |>.declaring (optional (repeated ((Property.make "distribution"
        (dcat ++ "distribution")).association (base ++ "/Distribution"))))
  let theme := meaning (.make (base ++ "/Theme") "Theme")
    "http://www.w3.org/2004/02/skos/core#Concept"
  let agent := (meaning (.make (base ++ "/Agent") "Agent") "http://xmlns.com/foaf/0.1/Agent")
    |>.declaring ((Property.make "name" "http://xmlns.com/foaf/0.1/name").primitive (xsd "string"))
  let distribution := (meaning (.make (base ++ "/Distribution") "Distribution")
      (dcat ++ "Distribution"))
    |>.declaring (optional ((Property.make "downloadURL" (dcat ++ "downloadURL")).primitive
        (xsd "anyURI")))
    |>.declaring (optional ((Property.make "byteSize" (dcat ++ "byteSize")).primitive
        (xsd "nonNegativeInteger")))
  { name := "catalog"
    model :=
      { Model.make base "https://ex.org/spec/catalog" with
        title := .ofList [("en", "Catalog record")]
        uri := some "https://ex.org/schema/catalog"
        nsPrefix := some "cat"
        roots := [[base ++ "/Dataset"]]
        classes := [
          { dataset with title := .ofList [("en", "Dataset"), ("cs", "Datová sada")] },
          { theme with isCodelist := true }, agent, distribution] } }

/-- Two roots in one group, a choice with a root class, and one without. -/
def polymorphic : Sample :=
  let base := "https://ex.org/psm/works"
  let schema := "https://schema.org/"
  let name := (Property.make "name" (schema ++ "name")).primitive (xsd "string")
  let book := (meaning (.make (base ++ "/Book") "Book") (schema ++ "Book"))
    |>.declaring (repeated ((Property.make "creator" (schema ++ "creator"))
      |>.association (base ++ "/Agent") |>.association (base ++ "/Person")
      |>.association (base ++ "/Organization")))
    |>.declaring (optional ((Property.make "about" (schema ++ "about"))
      |>.association (base ++ "/Place") |>.association (base ++ "/Event")))
  let film := (meaning (.make (base ++ "/Film") "Film") (schema ++ "Movie")).declaring name
  let agent := (meaning (.make (base ++ "/Agent") "Agent") "https://ex.org/vocab/Agent").declaring
    name
  let person := ((meaning (.make (base ++ "/Person") "Person") (schema ++ "Person")).extending
      (base ++ "/Agent"))
    |>.declaring (optional ((Property.make "birthDate" (schema ++ "birthDate")).primitive
        (xsd "date")))
  let organization := (meaning (.make (base ++ "/Organization") "Organization")
    (schema ++ "Organization")).extending (base ++ "/Agent")
  { name := "polymorphic"
    model :=
      { Model.make base "https://ex.org/spec/works" with
        uri := some "https://ex.org/schema/works"
        nsPrefix := some "w"
        roots := [[base ++ "/Book", base ++ "/Film"]]
        classes := [book, film, agent, person, organization,
          meaning (.make (base ++ "/Place") "Place") (schema ++ "Place"),
          meaning (.make (base ++ "/Event") "Event") (schema ++ "Event")] } }

/-- Content in the place of a property, and a reverse property. -/
def dematerialized : Sample :=
  let base := "https://ex.org/psm/events"
  let vocabulary := "https://ex.org/vocab/"
  let period := (Property.make "period" (vocabulary ++ "period")).association (base ++ "/Period")
  let organizer := optional (repeated ((Property.make "organizer"
    (vocabulary ++ "organizes")).association (base ++ "/Organizer")))
  let event := (meaning (.make (base ++ "/Event") "Event") "https://schema.org/Event")
    |>.declaring { period with isSpliced := true }
    |>.declaring { organizer with isReverse := true }
  let span := (meaning (.make (base ++ "/Period") "Period") (vocabulary ++ "Period"))
    |>.declaring ((Property.make "start" (vocabulary ++ "start")).primitive (xsd "dateTime"))
    |>.declaring (optional ((Property.make "end" (vocabulary ++ "end")).primitive (xsd "dateTime")))
  let party := (meaning (.make (base ++ "/Organizer") "Organizer")
      "https://schema.org/Organization")
    |>.declaring ((Property.make "name" "https://schema.org/name").primitive Vocabulary.langString)
  { name := "dematerialized"
    model :=
      { Model.make base "https://ex.org/spec/events" with
        roots := [[base ++ "/Event"]]
        classes := [event, span, party] } }

/-- A class that refers to itself, which a query cannot follow. -/
def recursive : Sample :=
  let base := "https://ex.org/psm/people"
  let foaf := "http://xmlns.com/foaf/0.1/"
  let person := (meaning (.make (base ++ "/Person") "Person") (foaf ++ "Person"))
    |>.declaring ((Property.make "name" (foaf ++ "name")).primitive (xsd "string"))
    |>.declaring (optional (repeated ((Property.make "knows" (foaf ++ "knows")).association
        (base ++ "/Person"))))
  { name := "recursive"
    model :=
      { Model.make base "https://ex.org/spec/people" with
        uri := some "https://ex.org/schema/people"
        nsPrefix := some "pp"
        roots := [[base ++ "/Person"]]
        classes := [person] }
    refused := [.query] }

def all : List Sample := [catalog, polymorphic, dematerialized, recursive]

end Sample

end RdfXmlMapping.Conformance
