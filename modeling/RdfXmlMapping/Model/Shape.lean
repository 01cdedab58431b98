import RdfXmlMapping.Model.Ancestry

/-! What the values of a property look like. -/

namespace RdfXmlMapping

/-- A candidate that is a plain value: a literal of a datatype, or a reference to an item of a
codelist. -/
inductive Primitive where
  | datatype (iri : String)
  | codelist (c : Class)
  deriving DecidableEq, Repr

/-- A candidate for the values of a property. -/
inductive Candidate where
  | plain (p : Primitive)
  | described (c : Class)
  deriving DecidableEq, Repr

/-- A candidate of a choice and its parent, which is one too. -/
structure Derivation where
  cls : Class
  parent : Class
  deriving DecidableEq, Repr

/-- What the candidates of a choice have in common: one of them, from which all others derive, or a
type made up for the choice. -/
inductive ChoiceBase where
  | rooted (root : Class) (derived : List Derivation)
  | placeholder (name : String)
  deriving DecidableEq, Repr

/-- A choice between the instances of several classes. -/
structure ChoicePlan where
  candidates : List Class
  base : ChoiceBase
  deriving DecidableEq, Repr

/-- The values of a property: plain values, instances of one class, or of one of several. -/
inductive Shape where
  | primitive (ps : List Primitive)
  | single (c : Class)
  | choice (plan : ChoicePlan)
  deriving DecidableEq, Repr

namespace ChoicePlan

def derived (plan : ChoicePlan) : List Derivation :=
  match plan.base with
  | .rooted _ derived => derived
  | .placeholder _ => []

def isPlaceholder (plan : ChoicePlan) : Bool :=
  match plan.base with
  | .rooted .. => false
  | .placeholder _ => true

def isDerived (plan : ChoicePlan) (c : Class) : Bool := plan.derived.any (·.cls.iri == c.iri)

end ChoicePlan

namespace Candidate

/-- The plain value, if it is one. -/
def plain? : Candidate → Option Primitive
  | plain p => some p
  | described _ => none

/-- The class, if it is one that is described. -/
def described? : Candidate → Option Class
  | plain _ => none
  | described c => some c

end Candidate

/-- The classes with different identities, each at its first occurrence. -/
def distinctClasses (cs : List Class) : List Class :=
  cs.foldl (fun kept c => if kept.any (·.iri == c.iri) then kept else kept ++ [c]) []

namespace Model

/-- The candidate that a datum of the model stands for; a codelist class is a plain reference. -/
def candidate (m : Model) (p : Property) : DataType → Generated Candidate
  | .primitive iri => .ok (.plain (.datatype iri))
  | .association target => do
    let c ← m.lookUp target p.iri
    return if c.isCodelist then .plain (.codelist c) else .described c

/-- The parent of a candidate among the candidates, if it has a parent. -/
def parentIn (m : Model) (p : Property) (candidates : List Class) (c : Class) :
    Generated (Class × Option Class) := do
  match ← m.parent? c with
  | none => return (c, none)
  | some parent =>
    match candidates.find? (·.iri == parent.iri) with
    | some parent => return (c, some parent)
    | none => throw (.parentOutsideChoice p.iri c.iri parent.iri)

/-- The choice between several classes. It is rooted if exactly one of them has no parent. -/
def planChoice (m : Model) (p : Property) (candidates : List Class) : Generated ChoicePlan := do
  let parents ← candidates.mapM (m.parentIn p candidates)
  let derived := parents.filterMap fun (c, parent) => parent.map (Derivation.mk c)
  match parents.filter (·.2.isNone) with
  | [(root, _)] => return { candidates, base := .rooted root derived }
  | _ => return { candidates, base := .placeholder (String.join (candidates.map (·.label))) }

def shapeOf (m : Model) (p : Property) : Generated Shape := do
  if p.types.isEmpty then throw (.emptyDataTypes p.iri)
  let candidates ← p.types.mapM (m.candidate p)
  match candidates.filterMap (·.plain?), distinctClasses (candidates.filterMap (·.described?)) with
  | [], [c] => return .single c
  | [], classes => .choice <$> m.planChoice p classes
  | primitives, [] => return .primitive primitives
  | _, _ => throw (.heterogeneousDataTypes p.iri)

end Model

/-- The one plain value that a stylesheet can handle. -/
def Primitive.only (p : Property) : List Primitive → Generated Primitive
  | [one] => .ok one
  | _ => .error (.multiplePrimitiveTypes p.iri)

end RdfXmlMapping
