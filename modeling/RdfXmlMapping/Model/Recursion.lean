import RdfXmlMapping.Model.Shape

/-!
Walks through a model: whether the classes reachable from the roots lead in a circle, and properties
whose values are not nested, whose content stands in the place of the property.
-/

namespace RdfXmlMapping

/-! ### Circles -/

def Shape.targets : Shape → List Class
  | primitive _ => []
  | single c => [c]
  | choice plan => plan.candidates

namespace Model

/-- The classes that a class leads to: its parent and the targets of its own properties. -/
def successors (m : Model) (c : Class) : Generated (List Class) := do
  let parent ← m.parent? c
  let shapes ← c.properties.mapM m.shapeOf
  return parent.toList ++ shapes.flatMap Shape.targets

/-- Walks through all that a class leads to. `path` holds the classes on the way to it and `done`
those from which no circle can be reached; the result is `done` with the classes walked through. -/
def walk (m : Model) (path done : List String) (c : Class) : Generated (List String) := do
  if done.contains c.iri then return done
  if _ : m.canEnter path c.iri then
    let next ← m.successors c
    let done ← next.foldlM (walk m (c.iri :: path)) done
    return c.iri :: done
  else throw (.recursiveModel c.iri)
termination_by (m.unvisited path).length
decreasing_by exact unvisited_lt ‹_›

/-- Fails if a class reachable from the roots, over parents and properties, leads to itself. -/
def checkAcyclic (m : Model) : Generated Unit := do
  let _ ← m.rootCandidates.foldlM
    (fun done iri => do m.walk [] done (← m.lookUp iri m.iri)) []

/-! ### Splicing -/

def spliceTarget (m : Model) (p : Property) : Generated Class := do
  match ← m.shapeOf p with
  | .single c => if m.isForeign c then throw (.dematerializedNonClass p.iri) else return c
  | _ => throw (.dematerializedNonClass p.iri)

/-- Follows the spliced properties of a class. `path` holds the classes into which the class is
spliced and `done` those that are not spliced into themselves; the result is `done` with the classes
followed. -/
def followSplices (m : Model) (path done : List String) (c : Class) : Generated (List String) := do
  if done.contains c.iri then return done
  if _ : m.canEnter path c.iri then
    let properties ← m.effectiveProperties c
    let done ← (properties.filter (·.isSpliced)).foldlM (fun done p => do
      let target ← m.spliceTarget p
      if (c.iri :: path).contains target.iri then throw (.dematerializationCycle p.iri)
      followSplices m (c.iri :: path) done target) done
    return c.iri :: done
  else throw (.unknownClass c.iri c.iri)
termination_by (m.unvisited path).length
decreasing_by exact unvisited_lt ‹_›

/-- Fails if a spliced property has no single class of the model's own specification, or if the
content of a class is spliced into itself. -/
def checkSplicing (m : Model) : Generated Unit := do
  let _ ← m.classes.foldlM (m.followSplices []) []

end Model

end RdfXmlMapping
