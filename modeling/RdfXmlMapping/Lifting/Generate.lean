import RdfXmlMapping.Artifact.Source
import RdfXmlMapping.Lifting.Document
import RdfXmlMapping.Model.Recursion
import RdfXmlMapping.PrefixTable

/-! The stylesheet of a model from documents to RDF. -/

namespace RdfXmlMapping.Lifting

/-- What is known while a stylesheet grows: imports, and prefixes for predicates. -/
structure Progress where
  imports : Import.Table
  predicates : PrefixTable

/-- A step of the generation of a stylesheet. -/
abbrev Build := StateT Progress (Except GenerationError)

/-- The names of the elements of a class with those spliced into it. `chain` holds the classes that
the content is spliced into. -/
def splicedNames (m : Model) (chain : List String) (c : Class) : Generated (List String) := do
  let names ← (← m.effectiveProperties c).mapM fun p => do
    if p.isSpliced then
      let target ← m.spliceTarget p
      if _ : m.canEnter chain target.iri then splicedNames m (target.iri :: chain) target
      else throw (.dematerializationCycle p.iri)
    else return [toNCName p.label]
  return names.flatten
termination_by (m.unvisited chain).length
decreasing_by exact Model.unvisited_lt ‹_›

/-- The names of all elements that the content of a class may have. -/
def contentNames (m : Model) (c : Class) : Generated (List String) := splicedNames m [c.iri] c

/-- The name of the template of a class; the stylesheet with the template is imported if it is
another one. -/
def templateOf (m : Model) (o : Import.Outlook) (c : Class) : Build String := do
  match ← o.resolve m c with
  | some d => modify fun s => { s with imports := (s.imports.register d).2 }
  | none => pure ()
  return templateName c.iri

def predicateOf (p : Property) : Build String := fun s =>
  match s.predicates.qualify p.predicate with
  | (some name, predicates) => .ok (name, { s with predicates })
  | (none, _) => .error (.unserializablePredicate p.iri p.predicate)

/-- The predicate of a property that the related instance states. -/
def reversePredicateOf (p : Property) : Build (Option String) :=
  if p.isReverse then some <$> predicateOf p else pure none

/-- The triples of a property whose value is not spliced in. -/
def plainForward (p : Property) : Shape → Build (List Forward)
  | .primitive primitives => do
    if p.isReverse then throw (.reversePrimitive p.iri)
    let predicate ← predicateOf p
    let element := toNCName p.label
    match ← Primitive.only p primitives with
    | .codelist _ => return [.codelist element predicate]
    | .datatype iri =>
      if iri = Vocabulary.langString then return [.languageText element predicate]
      else return [.literal element predicate iri]
  | _ => do
    if p.isReverse then return []
    else return [.link (toNCName p.label) (← predicateOf p)]

/-- The triples of a property inside the description of its subject; those of a reverse property
stand elsewhere. -/
def forward (m : Model) (p : Property) : Build (List Forward) := do
  if p.isSpliced then
    if p.isReverse then return []
    let predicate ← predicateOf p
    let target ← m.spliceTarget p
    return [.spliced (← contentNames m target) predicate (toNCName p.label)]
  else plainForward p (← m.shapeOf p)

/-- The class whose template describes the values of a property. The members of a choice are all
described as instances of its root. -/
def describedBy : Shape → Option Class
  | .primitive _ => none
  | .single c => some c
  | .choice plan => match plan.base with
    | .rooted root _ => some root
    | .placeholder _ => none

/-- What follows the description for a property whose value is not spliced in. -/
def plainRelated (m : Model) (o : Import.Outlook) (p : Property) (shape : Shape) :
    Build (List Related) := do
  match shape, describedBy shape with
  | .primitive _, _ => return []
  | _, none => do
    if p.isReverse then return [.nested (toNCName p.label) (← reversePredicateOf p) none]
    else return []
  | _, some c => do
    let reverse ← reversePredicateOf p
    return [.nested (toNCName p.label) reverse (some (← templateOf m o c))]

def related (m : Model) (o : Import.Outlook) (p : Property) : Build (List Related) := do
  if p.isSpliced then
    let target ← m.spliceTarget p
    let present ← contentNames m target
    let reverse ← reversePredicateOf p
    return [.spliced present (toNCName p.label) reverse (← templateOf m o target)]
  else plainRelated m o p (← m.shapeOf p)

def classTemplate (m : Model) (o : Import.Outlook) (c : Class) : Build Template := do
  let properties ← m.effectiveProperties c
  let forward ← properties.mapM (forward m)
  let related ← properties.mapM (related m o)
  return {
    name := templateName c.iri, meaning := c.meaning, forward := forward.flatten,
    related := related.flatten }

def rootRule (m : Model) (o : Import.Outlook) (c : Class) : Build RootRule := do
  return {
    element := Stylesheet.targetName m.target? (Model.elementName c)
    template := ← templateOf m o c }

def rules (m : Model) (o : Import.Outlook) : Build (List RootRule × List Template) := do
  let roots ← (← m.rootClasses).mapM (rootRule m o)
  let templates ← m.describedClasses.mapM (classTemplate m o)
  return (roots, templates)

/-- What the stylesheet of a model begins with. -/
def begun (m : Model) : Progress where
  imports := { reserved := ["xsl", "rdf"] ++ (m.target?.map (·.1)).toList }
  predicates := { stem := "ns", reserved := (m.target?.map (·.1)).toList }

/-- The stylesheet of a source, provided that its spliced properties have been checked. -/
def unchecked (s : Source) : Generated Lifting := do
  let ((roots, templates), final) ← (rules s.model (s.outlook .lifting)).run (begun s.model)
  return {
    target := s.model.target?, predicates := final.predicates.bindings
    imports := final.imports.entries.map (·.descriptor.reference), roots, templates }

def generate (s : Source) : Generated Lifting := do
  s.model.checkSplicing
  unchecked s

end RdfXmlMapping.Lifting
