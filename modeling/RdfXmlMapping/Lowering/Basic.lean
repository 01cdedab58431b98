import RdfXmlMapping.Config.Basic
import RdfXmlMapping.Import.Table
import RdfXmlMapping.Xml.Element

/-!
Stylesheets from query results to documents. The rows of a result are read as a table of triples,
and the template of a class writes the content of one instance.
-/

namespace RdfXmlMapping.Lowering

/-- The rows with the triples of a property of the current instance. -/
structure Rows where
  predicate : String
  isReverse : Bool
  deriving DecidableEq, Repr

/-- A candidate of a choice, chosen by the class of the member. A type is stated unless the
candidate is the root of the choice. -/
structure Branch where
  meaning : String
  template : String
  type : Option Xml.QName
  deriving DecidableEq, Repr

/-- What an element holds for a value. -/
inductive Content where
  /-- A reference to an item of a codelist. -/
  | codelist
  /-- A literal. -/
  | literal
  /-- The content of an instance. -/
  | instanceOf (template : String)
  /-- The identity of an instance. -/
  | identity
  /-- The content of an instance of one of several classes; the last template is for all others. -/
  | choice (branches : List Branch) (otherwise : String)
  deriving DecidableEq, Repr

/-- What is written for a property. -/
inductive Item where
  /-- The content of the value in the place of the property. -/
  | spliced (rows : Rows) (template : String)
  | element (rows : Rows) (name : String) (content : Content)
  deriving DecidableEq, Repr

/-- The template of a class. -/
structure Template where
  name : String
  items : List Item
  deriving DecidableEq, Repr

/-- The rule for an instance of a root class; of several rules that apply the one with the highest
priority counts. -/
structure RootRule where
  meaning : String
  priority : Nat
  element : Xml.QName
  template : String
  deriving DecidableEq, Repr

end Lowering

/-- A stylesheet from query results to documents. `types` are the imported schemas whose types are
stated. -/
structure Lowering where
  target : Option (String × String)
  bindings : Bindings
  types : List Import.Entry
  imports : List String
  roots : List Lowering.RootRule
  templates : List Lowering.Template
  deriving DecidableEq, Repr

end RdfXmlMapping
