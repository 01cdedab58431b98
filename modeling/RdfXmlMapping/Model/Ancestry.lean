import RdfXmlMapping.GenerationError
import RdfXmlMapping.Model.Basic
import RdfXmlMapping.NCName

/-! References between classes: parents, ancestors and roots. -/

namespace RdfXmlMapping.Model

/-- The class with an identity that `referrer` refers to. -/
def lookUp (m : Model) (iri referrer : String) : Generated Class :=
  match m.find? iri with
  | some c => .ok c
  | none => .error (.unknownClass iri referrer)

/-- The parent of a class, if it has one. -/
def parent? (m : Model) (c : Class) : Generated (Option Class) :=
  match c.parents with
  | [] => .ok none
  | [iri] => some <$> m.lookUp iri c.iri
  | _ => .error (.multipleInheritance c.iri)

/-- The ancestors of `start` from the parent of `c` on, nearest first; `seen` holds `start` and all
classes up to `c`. -/
def ancestorsAbove (m : Model) (start : String) (seen : List String) (c : Class) :
    Generated (List Class) := do
  match ← m.parent? c with
  | none => return []
  | some p =>
    if _ : m.canEnter seen p.iri then
      return p :: (← ancestorsAbove m start (p.iri :: seen) p)
    else throw (.inheritanceCycle start)
termination_by (m.unvisited seen).length
decreasing_by exact unvisited_lt ‹_›

/-- The ancestors of a class, nearest first. -/
def ancestors (m : Model) (c : Class) : Generated (List Class) :=
  m.ancestorsAbove c.iri [c.iri] c

/-- The properties of a class with those it inherits, farthest ancestor first. -/
def effectiveProperties (m : Model) (c : Class) : Generated (List Property) := do
  return ((← m.ancestors c).reverse ++ [c]).flatMap (·.properties)

def elementName (c : Class) : String := toNCName c.label

/-- Adds a root candidate to the roots before it, unless it is one of them; two roots must not have
the same element. -/
def addRoot (m : Model) (roots : List Class) (iri : String) : Generated (List Class) := do
  let c ← m.lookUp iri m.iri
  if roots.any (·.iri == c.iri) then return roots
  match roots.find? fun r => elementName r == elementName c with
  | some other => throw (.duplicateRootElement c.iri other.iri (elementName c))
  | none => return roots ++ [c]

/-- The classes that may be the root of a document, each once. -/
def rootClasses (m : Model) : Generated (List Class) := m.rootCandidates.foldlM m.addRoot []

end RdfXmlMapping.Model
