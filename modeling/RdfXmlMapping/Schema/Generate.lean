import RdfXmlMapping.Artifact.Source
import RdfXmlMapping.ClassNames
import RdfXmlMapping.Model.Recursion
import RdfXmlMapping.Schema.Document
import RdfXmlMapping.SchemaType

/-!
The schema of a model. The content of a class stands where it is used unless it is extracted, is a
candidate of a choice, or would stand inside itself; what is declared by name instead is declared
after the roots, in the order of the first reference.
-/

namespace RdfXmlMapping.Schema

open Xml (QName)

/-- A declaration that has been referred to. -/
inductive Pending where
  | type (c : Class)
  | group (c : Class)
  | placeholder (name : String)
  deriving DecidableEq, Repr

/-- What is known while a schema grows: imports and names handed out, types and groups referred to,
made-up types by their candidates, declarations still to be made, and whether texts with a language
occur. -/
structure Progress where
  imports : Import.Table
  names : ClassNames
  types : List String := []
  groups : List String := []
  placeholders : List (String × String) := []
  pending : List Pending := []
  usesLanguageText : Bool := false

/-- A step of the generation of a schema. -/
abbrev Build := StateT Progress (Except GenerationError)

/-- What stays the same while a schema grows. `extended` holds the classes declared as extensions of
their parent. -/
structure Plan where
  model : Model
  extraction : ExtractionRules
  outlook : Import.Outlook
  target : Option (String × String)
  extended : List String

/-- The derived candidates that the choice of a property has in the model's own specification. -/
def derivedIn (m : Model) (p : Property) : Generated (List String) := do
  match ← m.shapeOf p with
  | .choice plan => return (plan.derived.filter (!m.isForeign ·.cls)).map (·.cls.iri)
  | _ => return []

/-- The classes that are derived candidates of some choice; they are declared as extensions wherever
their type is used. -/
def extendedClasses (m : Model) : Generated (List String) := do
  return (← (m.describedClasses.flatMap (·.properties)).mapM (derivedIn m)).flatten

def occursOf (p : Property) : Occurs := ⟨p.least, p.most⟩

def builtin (name : String) : QName := ⟨some "xs", name⟩

namespace Plan

def qualified (x : Plan) (name : String) : QName := ⟨x.target.map (·.1), name⟩

def extractionOf (x : Plan) (c : Class) : Extraction :=
  if x.model.isRoot c.iri then x.extraction.root else x.extraction.other

/-- The type of a class, to be declared here. -/
def requestType (x : Plan) (c : Class) : Build QName := do
  modify fun s =>
    if s.types.contains c.iri then s
    else { s with types := c.iri :: s.types, pending := s.pending ++ [.type c] }
  return x.qualified ((← get).names.get c)

/-- The group of a class, to be declared here. -/
def requestGroup (x : Plan) (c : Class) : Build QName := do
  modify fun s =>
    if s.groups.contains c.iri then s
    else { s with groups := c.iri :: s.groups, pending := s.pending ++ [.group c] }
  return x.qualified ((← get).names.get c)

/-- The type of a class in an imported schema. One without a namespace is included, and what it
declares falls into the target namespace. -/
def importedType (x : Plan) (d : Import.Descriptor) (c : Class) : Build QName := do
  let s ← get
  let (entry, imports) := s.imports.register d
  set { s with imports }
  return match entry.bound with
    | some name => ⟨some name, s.names.get c⟩
    | none => x.qualified (s.names.get c)

def typeOf (x : Plan) (c : Class) : Build QName := do
  match ← x.outlook.resolve x.model c with
  | some d => x.importedType d c
  | none => x.requestType c

def plainType (x : Plan) : Primitive → Build QName
  | .codelist _ => return builtin "anyURI"
  | .datatype iri => do
    match SchemaType.ofDatatype iri with
    | .builtin name => return builtin name
    | .languageText =>
      modify ({ · with usesLanguageText := true })
      return x.qualified languageTextType

/-- A type in a choice of simple types; a text with a language becomes a plain text. -/
def memberType : Primitive → QName
  | .codelist _ => builtin "anyURI"
  | .datatype iri => match SchemaType.ofDatatype iri with
    | .builtin name => builtin name
    | .languageText => builtin "string"

def plainParticle (x : Plan) (name : String) (occurs : Occurs) : List Primitive → Build Particle
  | [one] => return .element name (← x.plainType one) occurs
  | several => return .union name occurs (several.map memberType).eraseDups

def choiceType (x : Plan) (plan : ChoicePlan) : Build QName := do
  match plan.base with
  | .rooted root derived =>
    let base ← x.typeOf root
    let _ ← derived.mapM fun d => x.typeOf d.cls
    return base
  | .placeholder label =>
    let key := " ".intercalate (plan.candidates.map (·.iri))
    let s ← get
    match s.placeholders.find? (·.1 == key) with
    | some (_, name) => return x.qualified name
    | none =>
      let (name, names) := s.names.reserve (toNCName label)
      set { s with
        names, placeholders := s.placeholders ++ [(key, name)],
        pending := s.pending ++ [Pending.placeholder name] }
      return x.qualified name

/-- The content of properties. `path` holds the classes whose content this stands in, and `chain`
those whose content is spliced into the innermost of them. -/
def particles (x : Plan) (path chain : List String) (ps : List Property) :
    Build (List Particle) := do
  let parts ← ps.mapM fun p => do
    if p.isSpliced then
      let target ← x.model.spliceTarget p
      if _ : x.model.canEnter chain target.iri then
        let content ← particles x path (target.iri :: chain) (← x.model.effectiveProperties target)
        return if p.isSingle then content else [.sequence (occursOf p) content]
      else throw (.dematerializationCycle p.iri)
    else
      let name := toNCName p.label
      match ← x.model.shapeOf p with
      | .primitive primitives =>
        if p.isReverse then throw (.reversePrimitive p.iri)
        return [← x.plainParticle name (occursOf p) primitives]
      | .single target =>
        let imported ← x.outlook.resolve x.model target
        if imported.isSome || (x.extractionOf target).namedType || path.contains target.iri then
          return [.element name (← x.typeOf target) (occursOf p)]
        else if (x.extractionOf target).group then
          return [.grouped name (occursOf p) (← x.requestGroup target)]
        else if _ : x.model.canEnter path target.iri then
          let content ← particles x (target.iri :: path) [target.iri]
            (← x.model.effectiveProperties target)
          return [.nested name (occursOf p) (.identity :: content)]
        else throw (.unknownClass target.iri p.iri)
      | .choice plan => return [.element name (← x.choiceType plan) (occursOf p)]
  return parts.flatten
termination_by ((x.model.unvisited path).length, (x.model.unvisited chain).length)
decreasing_by
  · exact Prod.Lex.right _ (Model.unvisited_lt ‹_›)
  · exact Prod.Lex.left _ _ (Model.unvisited_lt ‹_›)

def content (x : Plan) (c : Class) : Build (List Particle) := do
  return .identity :: (← x.particles [c.iri] [c.iri] (← x.model.effectiveProperties c))

def root (x : Plan) (c : Class) : Build Declaration := do
  let imported ← x.outlook.resolve x.model c
  let content ←
    if imported.isSome || (x.extractionOf c).namedType then .typed <$> x.typeOf c
    else if (x.extractionOf c).group then .grouped <$> x.requestGroup c
    else .nested <$> x.content c
  return .root (Model.elementName c) c.title content

def extensionBase (x : Plan) (c : Class) : Generated (Option Class) :=
  if x.extended.contains c.iri then x.model.parent? c else .ok none

def declare (x : Plan) : Pending → Build Declaration
  | .type c => do
    let name := (← get).names.get c
    match ← x.extensionBase c with
    | some parent =>
      let base ← x.typeOf parent
      return .extension name c.title base (← x.particles [c.iri] [c.iri] c.properties)
    | none => return .complexType name c.title (← x.content c)
  | .group c => do
    let name := (← get).names.get c
    return .group name (← x.content c)
  | .placeholder name => return .placeholder name

/-- Makes the declarations that are pending, and those that they refer to in turn. -/
def drain (x : Plan) : (fuel : Nat) → Build (List Declaration)
  | 0 => return []
  | fuel + 1 => do
    match (← get).pending with
    | [] => return []
    | next :: rest =>
      modify ({ · with pending := rest })
      let d ← x.declare next
      return d :: (← drain x fuel)

/-- At most one type and one group for each class, and one made-up type for each property. -/
def declarationLimit (m : Model) : Nat := 2 * m.classes.length + m.propertyCount + 1

def declarations (x : Plan) : Build (List Declaration) := do
  let roots ← (← x.model.rootClasses).mapM x.root
  let others ← x.drain (declarationLimit x.model)
  let languageText := if (← get).usesLanguageText then [.languageText] else []
  return roots ++ others ++ languageText

end Plan

def reservedPrefixes (target : Option (String × String)) : List String :=
  ["xs", "vc", "xml"] ++ (target.map (·.1)).toList

/-- What stays the same while the schema of a source grows. -/
def planOf (s : Source) (extended : List String) : Plan :=
  { model := s.model, extraction := s.config.extraction, outlook := s.outlook .schema
    target := s.model.target?, extended }

/-- What the schema of a source begins with. -/
def initial (s : Source) : Progress :=
  { imports := { reserved := reservedPrefixes s.model.target? }, names := .ofModel s.model }

/-- The schema of a source, provided that its spliced properties have been checked. -/
def unchecked (s : Source) : Generated Schema := do
  let extended ← extendedClasses s.model
  let (declarations, final) ← (planOf s extended).declarations.run (initial s)
  return {
    target := s.model.target?, importsXml := final.usesLanguageText
    imports := final.imports.entries, declarations }

def generate (s : Source) : Generated Schema := do
  s.model.checkSplicing
  unchecked s

end RdfXmlMapping.Schema
