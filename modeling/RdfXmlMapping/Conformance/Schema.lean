import RdfXmlMapping.Conformance.Report
import RdfXmlMapping.Model.Basic
import RdfXmlMapping.NCName
import RdfXmlMapping.Text.Segments
import RdfXmlMapping.Unicode.Ranges
import RdfXmlMapping.Xml.Node

/-!
A schema is checked against itself and against the model: every name it refers to is declared
somewhere, and it has one global element for each root and no others.
-/

namespace RdfXmlMapping.Conformance

open Xml (Node Scope)

/-- What a schema declares at its top level, and which other schemas it draws on. -/
structure Declarations where
  target : Option String
  imported : List String
  hasInclude : Bool
  types : List String
  groups : List String
  elements : List String

def declaredNames (root : Node) (kinds : List String) : List String :=
  (root.children.filter fun n => n.name?.any fun name => kinds.contains name.localName).filterMap
    (·.attribute? "name")

def itemsOf (root : Node) (kind : String) : List Node :=
  root.children.filter fun n => n.name?.any (·.localName == kind)

def Declarations.ofRoot (root : Node) : Declarations :=
  { target := root.attribute? "targetNamespace"
    imported := (itemsOf root "import").filterMap (·.attribute? "namespace")
    hasInclude := !(itemsOf root "include").isEmpty
    types := declaredNames root ["complexType", "simpleType"]
    groups := declaredNames root ["group"]
    elements := declaredNames root ["element"] }

/-- What kind of thing a reference names. -/
inductive Space where
  | type
  | group
  | element
  | attributes
  deriving DecidableEq, Repr

/-- A reference: the name as it is written and what it names. -/
structure Reference where
  name : String
  space : Space
  deriving DecidableEq, Repr

def words (s : String) : List String :=
  (s.toList.splitBy fun a b => Unicode.isBlank a = Unicode.isBlank b).filterMap fun run =>
    if run.any Unicode.isBlank then none else some (.ofList run)

def referencesOf (n : Node) : List Reference :=
  let types (key : String) : List Reference := (n.attribute? key).toList.map (⟨·, .type⟩)
  let space : Space := match n.name?.map (·.localName) with
    | some "group" => .group
    | some "attribute" => .attributes
    | _ => .element
  types "type" ++ types "base" ++
    (n.attribute? "memberTypes").toList.flatMap (fun names => (words names).map (⟨·, .type⟩)) ++
    (n.attribute? "ref").toList.map (⟨·, space⟩)

/-- A name cut at its first colon. -/
def splitName (name : String) : Option String × String :=
  match name.toList.span (· ≠ ':') with
  | (nsPrefix, _ :: localName) => (some (.ofList nsPrefix), .ofList localName)
  | (_, []) => (none, name)

/-- The namespace of a prefix. Without a prefix there may be none; an undeclared prefix has no
answer. -/
def namespaceOf (scope : Scope) : Option String → Option (Option String)
  | some "xml" => some (some Vocabulary.xml)
  | some nsPrefix => (scope.get? (some nsPrefix)).map some
  | none => some (scope.get? none)

def Declarations.declares (d : Declarations) (localName : String) : Space → Bool
  | .type => d.types.contains localName
  | .group => d.groups.contains localName
  | .element => d.elements.contains localName
  | .attributes => false

/-- How a reference comes out. -/
inductive Resolution where
  | resolved
  /-- Only an included schema can tell. -/
  | deferred (name : String)
  | unresolved (detail : String)
  deriving DecidableEq, Repr

/-- Looks a reference up. What lies in the namespaces of the language, or in an imported one, is
taken for granted. -/
def Declarations.resolve (d : Declarations) (scope : Scope) (r : Reference) : Resolution :=
  let (nsPrefix, localName) := splitName r.name
  match namespaceOf scope nsPrefix with
  | none => .unresolved (r.name ++ ": undeclared prefix")
  | some uri =>
    if uri = some Vocabulary.xmlSchema ∨ uri = some Vocabulary.xml then .resolved
    else if uri.any d.imported.contains then .resolved
    else if uri = d.target ∧ d.declares localName r.space then .resolved
    else if uri = none ∧ d.hasInclude then .deferred r.name
    else .unresolved r.name

def resolutions (root : Node) (d : Declarations) : List Resolution :=
  (root.descendants.filter fun n => n.name?.any (·.uri = some Vocabulary.xmlSchema)).flatMap
    fun n => (referencesOf n).map (d.resolve n.scope)

def checkReferences (root : Node) (d : Declarations) : Finding :=
  let check := "schema/references"
  let all := resolutions root d
  let unresolved := all.filterMap fun
    | .unresolved detail => some detail
    | _ => none
  let unchecked := all.filterMap fun
    | .deferred name => some name
    | _ => none
  if !unresolved.isEmpty then
    .failed check (toString unresolved.length ++ " of " ++ toString all.length ++
      " references do not resolve") unresolved
  else if !unchecked.isEmpty then
    .warned check (toString unchecked.length ++ " references may come from included schemas")
      unchecked
  else .passed check ("all " ++ toString all.length ++ " references resolve")

/-- The names of the elements that a model's roots need, each once. -/
def expectedElements (m : Model) : List String :=
  (m.rootCandidates.filterMap fun iri => (m.find? iri).map fun c => toNCName c.label).eraseDups

def checkRoots (d : Declarations) (m : Model) : Finding :=
  let check := "schema/roots"
  let expected := expectedElements m
  let dangling := (m.rootCandidates.filter fun iri => (m.find? iri).isNone).map
    (· ++ ": root candidate is not a class of the model")
  let miscounted := expected.filterMap fun name =>
    match d.elements.count name with
    | 0 => some (name ++ ": no global element")
    | 1 => none
    | n => some (name ++ ": " ++ toString n ++ " global elements")
  let surplus := (d.elements.filter (!expected.contains ·)).map
    (· ++ ": global element is not a root")
  match dangling ++ miscounted ++ surplus with
  | [] => .passed check (toString expected.length ++ " root elements declared once each")
  | problems => .failed check "global elements do not match the roots" problems

def checkSchema (text : String) (m : Model) : Report :=
  match Xml.Node.parse? text with
  | none => [.failed "schema/structure" "schema does not parse" []]
  | some root =>
    if !root.isNamed Vocabulary.xmlSchema "schema" then
      [.failed "schema/structure" "document element is not xs:schema" []]
    else
      let d := Declarations.ofRoot root
      [checkReferences root d, checkRoots d m]

end RdfXmlMapping.Conformance
