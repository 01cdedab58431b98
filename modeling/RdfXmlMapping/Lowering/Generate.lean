import RdfXmlMapping.Artifact.Source
import RdfXmlMapping.Lowering.Document
import RdfXmlMapping.Model.Recursion

/-! The stylesheet of a model from query results to documents. -/

namespace RdfXmlMapping.Lowering

open Xml (QName)

/-- What is known while a stylesheet grows: imported stylesheets, and schemas whose types are
stated. -/
structure Progress where
  imports : Import.Table
  types : Import.Table

/-- A step of the generation of a stylesheet. -/
abbrev Build := StateT Progress (Except GenerationError)

/-- What stays the same while a stylesheet grows. The type of a class of another specification is
declared by a schema and not by a stylesheet, so there are two outlooks. -/
structure Plan where
  model : Model
  names : ClassNames
  outlook : Import.Outlook
  schemaOutlook : Import.Outlook

namespace Plan

/-- The name of the template of a class; the stylesheet with the template is imported if it is
another one. -/
def templateOf (x : Plan) (c : Class) : Build String := do
  match ← x.outlook.resolve x.model c with
  | some d => modify fun s => { s with imports := (s.imports.register d).2 }
  | none => pure ()
  return templateName c.iri

def typeName (x : Plan) (c : Class) : Build QName := do
  match ← x.schemaOutlook.resolve x.model c with
  | some d =>
    let s ← get
    let (entry, types) := s.types.register d
    set { s with types }
    return ⟨entry.bound, toNCName c.label⟩
  | none => return Stylesheet.targetName x.model.target? (x.names.get c)

/-- A candidate of a choice. Members are told apart by class, so it must have a meaning. -/
def branch (x : Plan) (root c : Class) : Build Branch := do
  match c.meaning with
  | none => throw (.missingInterpretation c.iri .choice)
  | some meaning =>
    let type ← if c.iri = root.iri then pure none else some <$> x.typeName c
    return { meaning, template := ← x.templateOf c, type }

def contentOf (x : Plan) (p : Property) : Shape → Build Content
  | .primitive primitives => do
    if p.isReverse then throw (.reversePrimitive p.iri)
    match ← Primitive.only p primitives with
    | .codelist _ => return .codelist
    | .datatype _ => return .literal
  | .single c => .instanceOf <$> x.templateOf c
  | .choice plan => do
    match plan.base with
    | .placeholder _ => return .identity
    | .rooted root _ =>
      let branches ← plan.candidates.mapM (x.branch root)
      return .choice branches (← x.templateOf root)

def item (x : Plan) (p : Property) : Build Item := do
  let rows : Rows := ⟨p.predicate, p.isReverse⟩
  if p.isSpliced then return .spliced rows (← x.templateOf (← x.model.spliceTarget p))
  else return .element rows (toNCName p.label) (← x.contentOf p (← x.model.shapeOf p))

def classTemplate (x : Plan) (c : Class) : Build Template := do
  return { name := templateName c.iri, items := ← (← x.model.effectiveProperties c).mapM x.item }

/-- The rule for the instances of a root class. Instances are told apart by class, so it must have a
meaning. -/
def rootRule (x : Plan) (c : Class) (priority : Nat) : Build RootRule := do
  match c.meaning with
  | none => throw (.missingInterpretation c.iri .root)
  | some meaning =>
    return {
      meaning, priority, element := Stylesheet.targetName x.model.target? (Model.elementName c)
      template := ← x.templateOf c }

/-- The rules of the roots; the priorities fall from their number to one. -/
def rootRules (x : Plan) : List Class → Build (List RootRule)
  | [] => return []
  | c :: cs => do
    let rule ← x.rootRule c (cs.length + 1)
    return rule :: (← x.rootRules cs)

def rules (x : Plan) : Build (List RootRule × List Template) := do
  let roots ← x.rootRules (← x.model.rootClasses)
  let templates ← x.model.describedClasses.mapM x.classTemplate
  return (roots, templates)

end Plan

/-- What stays the same while the stylesheet of a source grows. -/
def Plan.ofSource (s : Source) : Plan where
  model := s.model
  names := .ofModel s.model
  outlook := s.outlook .lowering
  schemaOutlook := s.outlook .schema

/-- The table of imports that the stylesheet of a model begins with. -/
def firstImports (m : Model) : Import.Table where
  reserved := ["xsl", "xs", "sp", "f", "xsi"] ++ (m.target?.map (·.1)).toList

/-- The stylesheet of a source, provided that its spliced properties have been checked. -/
def unchecked (s : Source) : Generated Lowering := do
  let ((roots, templates), final) ← (Plan.ofSource s).rules.run
    { imports := firstImports s.model, types := firstImports s.model }
  return {
    target := s.model.target?, bindings := s.config.bindings, types := final.types.entries
    imports := final.imports.entries.map (·.descriptor.reference), roots, templates }

def generate (s : Source) : Generated Lowering := do
  s.model.checkSplicing
  unchecked s

end RdfXmlMapping.Lowering
