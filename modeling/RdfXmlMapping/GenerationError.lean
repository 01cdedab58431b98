import RdfXmlMapping.Artifact.Kind

/-! Why an artifact cannot be generated. Every cause names the element of the model it lies in. -/

namespace RdfXmlMapping

/-- What a class without a meaning in RDF was needed for. -/
inductive Dispatch where
  | root
  | choice
  deriving DecidableEq, Repr

/-- A cause; classes and properties are named by their identities. -/
inductive GenerationError where
  /-- A property has no candidates for its values. -/
  | emptyDataTypes (property : String)
  /-- Classes and datatypes are mixed. -/
  | heterogeneousDataTypes (property : String)
  /-- A class has more than one parent. -/
  | multipleInheritance (cls : String)
  /-- The parents of a class lead in a circle. -/
  | inheritanceCycle (cls : String)
  /-- The parent of a candidate is no candidate. -/
  | parentOutsideChoice (property cls parent : String)
  /-- A reference leads to no class of the model. -/
  | unknownClass (cls referrer : String)
  /-- Two roots have the same element. -/
  | duplicateRootElement (cls other element : String)
  /-- A class without meaning stands where instances must be told apart by class. -/
  | missingInterpretation (cls : String) (purpose : Dispatch)
  /-- A stylesheet cannot tell several datatypes apart. -/
  | multiplePrimitiveTypes (property : String)
  /-- The content to splice is not that of exactly one class of the model's own specification. -/
  | dematerializedNonClass (property : String)
  /-- Content would be spliced into itself. -/
  | dematerializationCycle (property : String)
  /-- A literal cannot be the subject of a triple. -/
  | reversePrimitive (property : String)
  /-- A predicate has no local name and cannot be an element. -/
  | unserializablePredicate (property iri : String)
  /-- A query cannot follow a circle of classes. -/
  | recursiveModel (cls : String)
  /-- No published artifact covers a class of another specification. -/
  | unresolvedImport (cls specification : String) (kind : ArtifactKind)
  /-- The artifact could not be stored. -/
  | sinkFailed (reason : String)
  deriving DecidableEq, Repr

/-- A coarse division of the causes. -/
inductive ErrorFamily where
  | modelShape
  | unsupportedCombination
  | unresolvedImport
  | storage
  deriving DecidableEq, Repr

def ErrorFamily.name : ErrorFamily → String
  | modelShape => "ModelShape"
  | unsupportedCombination => "UnsupportedCombination"
  | unresolvedImport => "UnresolvedImport"
  | storage => "Io"

def Dispatch.describe : Dispatch → String
  | root => "root dispatch"
  | choice => "choice dispatch"

namespace GenerationError

def family : GenerationError → ErrorFamily
  | emptyDataTypes _ | heterogeneousDataTypes _ | multipleInheritance _ | inheritanceCycle _
  | parentOutsideChoice .. | unknownClass .. | duplicateRootElement .. | missingInterpretation .. =>
    .modelShape
  | multiplePrimitiveTypes _ | dematerializedNonClass _ | dematerializationCycle _
  | reversePrimitive _ | unserializablePredicate .. | recursiveModel _ => .unsupportedCombination
  | unresolvedImport .. => .unresolvedImport
  | sinkFailed _ => .storage

def element : GenerationError → Option String
  | emptyDataTypes property | heterogeneousDataTypes property
  | parentOutsideChoice property _ _ | multiplePrimitiveTypes property
  | dematerializedNonClass property | dematerializationCycle property
  | reversePrimitive property | unserializablePredicate property _ => some property
  | multipleInheritance cls | inheritanceCycle cls | unknownClass cls _
  | duplicateRootElement cls _ _ | missingInterpretation cls _ | recursiveModel cls
  | unresolvedImport cls _ _ => some cls
  | sinkFailed _ => none

def message : GenerationError → String
  | emptyDataTypes p => "property " ++ p ++ " has no data types"
  | heterogeneousDataTypes p =>
    "property " ++ p ++ " must use either only class types or only primitive types"
  | multipleInheritance c => "class " ++ c ++ " extends more than one class"
  | inheritanceCycle c => "class " ++ c ++ " is its own ancestor"
  | parentOutsideChoice p c parent =>
    "class " ++ c ++ " in the choice of property " ++ p ++ " extends " ++ parent ++
      ", which is not a candidate of the same choice"
  | unknownClass c referrer => "unknown class " ++ c ++ " referenced from " ++ referrer
  | duplicateRootElement c other element =>
    "root classes " ++ other ++ " and " ++ c ++ " would both declare the global element " ++ element
  | missingInterpretation c purpose =>
    "class " ++ c ++ " has no semantic interpretation, required for " ++ purpose.describe
  | multiplePrimitiveTypes p =>
    "multiple datatypes on a property are not supported (property " ++ p ++ ")"
  | dematerializedNonClass p =>
    "dematerialized property " ++ p ++ " must have exactly one local class type"
  | dematerializationCycle p => "dematerialization of property " ++ p ++ " is cyclic"
  | reversePrimitive p => "reverse property " ++ p ++ " must be class-valued"
  | unserializablePredicate p iri =>
    "predicate " ++ iri ++ " of property " ++ p ++ " cannot be written as an RDF/XML element"
  | recursiveModel c =>
    "the model is recursive through class " ++ c ++ "; the extraction query cannot be generated"
  | unresolvedImport c specification kind =>
    "no " ++ kind.name ++ " artifact of specification " ++ specification ++ " covers class " ++ c
  | sinkFailed reason => "cannot write artifact: " ++ reason

end GenerationError

/-- The outcome of a step of generation. -/
abbrev Generated (α : Type) := Except GenerationError α

end RdfXmlMapping
