import RdfXmlMapping.Vocabulary
import RdfXmlMapping.Xml.Token

/-!
Documents as trees, with every name in its namespace. `Node.parse?` reads a document with exactly
one element outside all others.
-/

namespace RdfXmlMapping.Xml

/-- A name in its namespace. -/
structure ExpandedName where
  uri : Option String
  localName : String
  deriving DecidableEq, Repr

/-- The namespaces that prefixes stand for; no prefix stands for the default namespace. -/
abbrev Scope := List (Option String × String)

/-- An element or a text. The scope of an element holds all prefixes that can be used in it. -/
inductive Node where
  | element (name : ExpandedName) (attributes : List (ExpandedName × String)) (scope : Scope)
      (children : List Node)
  | text (content : String)
  deriving Repr

namespace Scope

def get? (scope : Scope) (nsPrefix : Option String) : Option String :=
  (scope.find? (·.1 == nsPrefix)).map (·.2)

/-- The scope with what outer elements declare and inner ones do not declare again. -/
def within (inner outer : Scope) : Scope :=
  inner ++ outer.filter fun d => !inner.any (·.1 == d.1)

/-- Takes in an attribute that declares a namespace. The namespaces of `xml` and `xmlns` belong to
these prefixes alone. -/
def declare (scope : Scope) (name : RawName) (uri : String) : Option Scope :=
  if name.nsPrefix = "xmlns" then
    if uri = Vocabulary.xmlns ∨ ¬ (name.localName = "xml" ↔ uri = Vocabulary.xml)
        ∨ scope.any (·.1 == some name.localName) then none
    else if uri = Vocabulary.xml then some scope
    else some (scope ++ [(some name.localName, uri)])
  else if uri = Vocabulary.xml ∨ uri = Vocabulary.xmlns then none
  else some (scope ++ [(none, uri)])

def elementName (scope : Scope) (name : RawName) : Option ExpandedName :=
  if name.nsPrefix.isEmpty then some ⟨scope.get? none, name.localName⟩
  else do return ⟨some (← scope.get? (some name.nsPrefix)), name.localName⟩

/-- The name of an attribute in its namespace; without a prefix it has none. -/
def attributeName (scope : Scope) (name : RawName) : Option ExpandedName :=
  if name.nsPrefix.isEmpty then some ⟨none, name.localName⟩
  else if name.nsPrefix = "xml" then some ⟨some Vocabulary.xml, name.localName⟩
  else do return ⟨some (← scope.get? (some name.nsPrefix)), name.localName⟩

end Scope

def RawName.isDeclaration (name : RawName) : Bool :=
  name.nsPrefix = "xmlns" || name.localName = "xmlns"

/-- A start tag with its names in their namespaces. -/
structure StartTag where
  name : ExpandedName
  attributes : List (ExpandedName × String)
  scope : Scope

/-- Puts the names of a start tag into their namespaces. No attribute occurs twice. -/
def StartTag.of? (outer : Scope) (name : RawName) (attributes : List (RawName × String)) :
    Option StartTag := do
  let declared ← (attributes.filter (·.1.isDeclaration)).foldlM
    (fun scope a => Scope.declare scope a.1 a.2) []
  let scope := Scope.within declared outer
  let attributes ← (attributes.filter (!·.1.isDeclaration)).mapM fun a =>
    (scope.attributeName a.1).map fun name => (name, a.2)
  let names : List ExpandedName := attributes.map (·.1)
  if name.nsPrefix = "xmlns" ∨ ¬ names.Nodup then none
  else return { name := ← scope.elementName name, attributes, scope }

/-- An element that has not ended: its name as it is written, and its content so far, the last item
first. -/
structure OpenElement where
  rawName : RawName
  tag : StartTag
  content : List Node

/-- What has been read of a document: the elements that have not ended, the innermost first, and the
document element once it has ended. -/
structure Reading where
  stack : List OpenElement := []
  root : Option Node := none

namespace Reading

/-- Adds an item to the innermost element, or takes it as the document element. -/
def add (r : Reading) (node : Node) : Option Reading :=
  match r.stack with
  | e :: outer => some { r with stack := { e with content := node :: e.content } :: outer }
  | [] => if r.root.isSome then none else some { r with root := some node }

def scope (r : Reading) : Scope :=
  match r.stack with
  | e :: _ => e.tag.scope
  | [] => []

/-- Takes in a tag or a text. Outside the document element there are only spaces. -/
def step (r : Reading) : Token → Option Reading
  | .start name attributes closed => do
    if r.stack.isEmpty && r.root.isSome then none
    else
      let tag ← StartTag.of? r.scope name attributes
      if closed then r.add (.element tag.name tag.attributes tag.scope [])
      else return { r with stack := ⟨name, tag, []⟩ :: r.stack }
  | .stop name =>
    match r.stack with
    | e :: outer =>
      if e.rawName = name then
        { r with stack := outer }.add
          (.element e.tag.name e.tag.attributes e.tag.scope e.content.reverse)
      else none
    | [] => none
  | .text raw =>
    if r.stack.isEmpty then if raw.all isSpace then some r else none
    else do r.add (.text (.ofList (← textContent raw)))
  | .verbatim raw =>
    if r.stack.isEmpty then none else r.add (.text (.ofList (normaliseLineEnds raw)))

end Reading

namespace Node

/-- The document element of a text; nothing if the text is no document. -/
def parse? (text : String) : Option Node := do
  let r ← (← tokens? text).foldlM Reading.step {}
  if r.stack.isEmpty then r.root else none

def name? : Node → Option ExpandedName
  | element name _ _ _ => some name
  | text _ => none

def isNamed (n : Node) (uri localName : String) : Bool := n.name? = some ⟨some uri, localName⟩

def attribute? (n : Node) (localName : String) : Option String :=
  match n with
  | element _ attributes _ _ =>
    (attributes.find? (·.1 == ⟨none, localName⟩)).map (·.2)
  | text _ => none

def children : Node → List Node
  | element _ _ _ children => children
  | text _ => []

def scope : Node → Scope
  | element _ _ scope _ => scope
  | text _ => []

mutual

/-- The node and all within it, in the order of the document. -/
def descendants : Node → List Node
  | element name attributes scope children =>
    element name attributes scope children :: descendantsOf children
  | text content => [text content]

def descendantsOf : List Node → List Node
  | [] => []
  | n :: ns => descendants n ++ descendantsOf ns

end

def isElement (n : Node) : Bool := n.name?.isSome

/-- The elements of a namespace right inside an element that have a name. -/
def childrenNamed (n : Node) (uri localName : String) : List Node :=
  n.children.filter (·.isNamed uri localName)

end Node

end RdfXmlMapping.Xml
