import RdfXmlMapping.Artifact.Source
import RdfXmlMapping.Model.Recursion
import RdfXmlMapping.PrefixTable
import RdfXmlMapping.Query.Text
import RdfXmlMapping.Vocabulary

/-! The query that extracts the data of a model from a graph. -/

namespace RdfXmlMapping.Query

/-- What is known while a query grows: prefixes handed out, the number of variables, and the triples
in the order in which they are made. -/
structure Progress where
  prefixes : PrefixTable := { stem := "ns" }
  variableCount : Nat := 0
  template : List Triple := []

/-- A step of the generation of a query. -/
abbrev Build := StateT Progress (Except GenerationError)

def newVariable : Build Nat := fun s =>
  .ok (s.variableCount, { s with variableCount := s.variableCount + 1 })

def shorten (iri : String) : Build String := fun s =>
  match s.prefixes.qualify iri with
  | (some name, prefixes) => .ok (name, { s with prefixes })
  | (none, prefixes) => .ok ("<" ++ iri ++ ">", { s with prefixes })

/-- A new triple, which is a condition and is built when it holds. -/
def newTriple (subject predicate object : Term) : Build Pattern := fun s =>
  let t : Triple := ⟨subject, predicate, object⟩
  .ok (.triple t, { s with template := s.template ++ [t] })

/-- The triple that states the class of an instance, if the class has a meaning. -/
def typePatterns (subject : Nat) (isOptional : Bool) (c : Class) : Build (List Pattern) := do
  match c.meaning with
  | none => return []
  | some meaning =>
    let predicate ← shorten Vocabulary.rdfType
    let object ← shorten meaning
    let t ← newTriple (.var subject) (.type predicate) (.iri object)
    return [if isOptional then .optional [t] else t]

/-- The triple of a property, with a new variable for the value. -/
def propertyTriple (subject : Nat) (p : Property) : Build (Nat × Pattern) := do
  let value ← newVariable
  let predicate ← shorten p.predicate
  let t ←
    if p.isReverse then newTriple (.var value) (.iri predicate) (.var subject)
    else newTriple (.var subject) (.iri predicate) (.var value)
  return (value, t)

/-- A literal cannot be the subject of the triple of a reverse property. -/
def refuseReversePrimitive (p : Property) : Shape → Generated Unit
  | .primitive _ => if p.isReverse then .error (.reversePrimitive p.iri) else .ok ()
  | _ => .ok ()

/-- The condition that describes an instance of a class. `path` holds the classes whose instances
lead to it. -/
def classPatterns (m : Model) (path : List String) (subject : Nat) (typeIsOptional : Bool)
    (c : Class) : Build (List Pattern) := do
  if _ : m.canEnter path c.iri then
    let type ← typePatterns subject typeIsOptional c
    let properties ← (← m.effectiveProperties c).mapM fun p => do
      let shape ← m.shapeOf p
      refuseReversePrimitive p shape
      let (value, edge) ← propertyTriple subject p
      let described ← match shape with
        | .primitive _ => pure []
        | .single target => classPatterns m (c.iri :: path) value true target
        | .choice plan => do
          let branches ← plan.candidates.mapM
            (classPatterns m (c.iri :: path) value (plan.candidates.length = 1))
          pure [.union branches]
      let group := edge :: described
      return if p.isOptional then [.optional group] else group
    return type ++ properties.flatten
  else throw (.recursiveModel c.iri)
termination_by (m.unvisited path).length
decreasing_by all_goals exact Model.unvisited_lt ‹_›

/-- The condition that describes the root of a document. The class of an instance need not be stated
where it is one of several. -/
def rootPatterns (m : Model) (group : List String) : Build (List Pattern) := do
  let subject ← newVariable
  let candidates ← group.mapM fun iri => m.lookUp iri m.iri
  match candidates with
  | [c] => classPatterns m [] subject false c
  | candidates =>
    let branches ← candidates.mapM (classPatterns m [] subject (1 < candidates.length))
    return [.union branches]

def modelPatterns (m : Model) : Build (List Pattern) := do
  match ← m.roots.mapM (rootPatterns m) with
  | [patterns] => return patterns
  | branches => return [.union branches]

def ofModel (m : Model) : Generated Query := do
  m.checkAcyclic
  let (pattern, final) ← (modelPatterns m).run {}
  return {
    prefixes := final.prefixes.bindings, template := final.template, pattern,
    variableCount := final.variableCount }

def generate (s : Source) : Generated String := do
  return (← ofModel s.model).render s.config.form s.config.bindings

end RdfXmlMapping.Query
