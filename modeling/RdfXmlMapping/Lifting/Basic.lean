import RdfXmlMapping.Xml.Element

/-!
Stylesheets from documents to RDF. The template of a class describes one instance: the triples of
its own description first, then the instances related to it.
-/

namespace RdfXmlMapping.Lifting

/-- What tells instances apart that are lifted from the same element: an instance with an element of
its own has nothing, and one spliced into another has the names of the properties that lead to it.
-/
inductive Suffix where
  | empty
  | own
  | extended (element : String)
  deriving DecidableEq, Repr

/-- The triples of a property inside the description of its subject. -/
inductive Forward where
  /-- A reference to the instance spliced in, if any of the elements is present. -/
  | spliced (present : List String) (predicate element : String)
  /-- A reference to an item of a codelist. -/
  | codelist (element predicate : String)
  /-- A text with its language. -/
  | languageText (element predicate : String)
  /-- A literal of a datatype. -/
  | literal (element predicate datatype : String)
  /-- A reference to the instance that an element describes. -/
  | link (element predicate : String)
  deriving DecidableEq, Repr

/-- What follows the description of an instance for a property. For a reverse property the related
instance states the triple, so its predicate is given. -/
inductive Related where
  /-- The description of the instance spliced in, if any of the elements is present. -/
  | spliced (present : List String) (element : String) (reverse : Option String) (template : String)
  /-- The description of the instances that elements describe; a member of a choice without a common
  class has none. -/
  | nested (element : String) (reverse : Option String) (template : Option String)
  deriving DecidableEq, Repr

/-- The template of a class. -/
structure Template where
  name : String
  meaning : Option String
  forward : List Forward
  related : List Related
  deriving DecidableEq, Repr

/-- The rule for a document element. -/
structure RootRule where
  element : Xml.QName
  template : String
  deriving DecidableEq, Repr

end Lifting

/-- A stylesheet from documents to RDF. -/
structure Lifting where
  target : Option (String × String)
  predicates : List (String × String)
  imports : List String
  roots : List Lifting.RootRule
  templates : List Lifting.Template
  deriving DecidableEq, Repr

end RdfXmlMapping
