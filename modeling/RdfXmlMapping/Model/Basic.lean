import RdfXmlMapping.Model.Labels

/-!
Structure models: the classes and properties of one data specification, from which all artifacts are
generated. Classes refer to each other by identity.
-/

namespace RdfXmlMapping

/-- One candidate for the values of a property: literals of a datatype, or instances of a class. -/
inductive DataType where
  | primitive (iri : String)
  | association (target : String)
  deriving DecidableEq, Repr

/-- A property of a class. -/
structure Property where
  /-- Identity. -/
  iri : String
  /-- The predicate that states the property in RDF. -/
  predicate : String
  /-- The label that names its element in XML. -/
  label : String
  title : Labels
  least : UInt32
  /-- The greatest number of values; there may be no bound. -/
  most : Option UInt32
  /-- The triple leads from the value to the instance. -/
  isReverse : Bool
  /-- The content of the value stands in the place of the property. -/
  isSpliced : Bool
  types : List DataType
  deriving DecidableEq, Repr

/-- A class. -/
structure Class where
  /-- Identity. -/
  iri : String
  /-- The class of the instances in RDF, if they have one. -/
  meaning : Option String
  title : Labels
  /-- The label that names its element and its type in XML. -/
  label : String
  /-- The items of a codelist are referred to and never described. -/
  isCodelist : Bool
  /-- The classes it extends; a valid class extends at most one. -/
  parents : List String
  /-- The specification it belongs to, if that is not the one of the model. -/
  specification : Option String
  /-- The schema it belongs to, if that is not the model itself. -/
  schema : Option String
  properties : List Property
  deriving DecidableEq, Repr

/-- A structure model. -/
structure Model where
  /-- Identity. -/
  iri : String
  title : Labels
  specification : String
  /-- The namespace of the elements, if they have one, and the prefix for it. -/
  uri : Option String
  nsPrefix : Option String
  /-- Groups of classes that may be the root of a document. -/
  roots : List (List String)
  classes : List Class
  deriving DecidableEq, Repr

/-- A property without values must be allowed. -/
def Property.isOptional (p : Property) : Bool := p.least = 0

/-- A property has exactly one value. -/
def Property.isSingle (p : Property) : Bool := p.least = 1 && p.most = some 1

namespace Model

/-- The class with an identity; the first one counts. -/
def find? (m : Model) (iri : String) : Option Class := m.classes.find? (·.iri == iri)

def propertyCount (m : Model) : Nat := (m.classes.flatMap (·.properties)).length

/-- The identities of the classes that may be the root of a document. -/
def rootCandidates (m : Model) : List String := m.roots.flatten

def isRoot (m : Model) (iri : String) : Bool := m.rootCandidates.contains iri

def specificationOf (m : Model) (c : Class) : String := c.specification.getD m.specification

def schemaOf (m : Model) (c : Class) : String := c.schema.getD m.iri

def isForeign (m : Model) (c : Class) : Bool := m.specificationOf c != m.specification

/-- The namespace of the elements with the prefix for it, if the model has one. -/
def target? (m : Model) : Option (String × String) :=
  m.uri.map fun uri => (m.nsPrefix.getD "tns", uri)

/-- The classes that artifacts of the model describe: those of its own specification without the
codelists. -/
def describedClasses (m : Model) : List Class :=
  m.classes.filter fun c => !m.isForeign c && !c.isCodelist

/-! ### Walks over classes -/

/-- The classes that a walk has not entered yet. -/
def unvisited (m : Model) (path : List String) : List Class :=
  m.classes.filter fun c => !path.contains c.iri

/-- Whether a walk can go on to a class: the model has it, and it is not on the path. -/
def canEnter (m : Model) (path : List String) (iri : String) : Bool :=
  m.classes.any (·.iri == iri) && !path.contains iri

/-- Every step of a walk leaves fewer classes to enter, so a walk ends. -/
theorem unvisited_lt {m : Model} {path : List String} {iri : String} (h : m.canEnter path iri) :
    (m.unvisited (iri :: path)).length < (m.unvisited path).length := by
  simp only [canEnter, Bool.and_eq_true, List.any_eq_true, beq_iff_eq] at h
  obtain ⟨⟨c, hc, rfl⟩, hp⟩ := h
  have hsub :
      m.unvisited (c.iri :: path) = (m.unvisited path).filter (fun d => d.iri != c.iri) := by
    simp only [unvisited, List.filter_filter]
    apply List.filter_congr
    intro d _
    by_cases hd : d.iri = c.iri <;> simp [hd]
  rw [hsub]
  exact List.length_filter_lt_length_iff_exists.mpr
    ⟨c, List.mem_filter.mpr ⟨hc, hp⟩, by simp⟩

end Model

end RdfXmlMapping
