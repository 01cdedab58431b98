import RdfXmlMapping.Xml.Writer

/-! Names with a prefix, elements as trees, and how a writer puts these on lines. -/

namespace RdfXmlMapping.Xml

/-- A local name, and a prefix if the name is in a namespace. -/
structure QName where
  nsPrefix : Option String
  localName : String
  deriving DecidableEq, Repr

def QName.text (q : QName) : String :=
  match q.nsPrefix with
  | some p => p ++ ":" ++ q.localName
  | none => q.localName

/-- An element that holds elements on lines of their own, one without content, or one with text on
its line. -/
inductive Element where
  | node (name : String) (attributes : Attributes) (children : List Element)
  | leaf (name : String) (attributes : Attributes)
  | text (name : String) (attributes : Attributes) (content : String)
  deriving Repr

namespace Element

def name : Element → String
  | node name _ _ | leaf name _ | text name _ _ => name

def attributes : Element → Attributes
  | node _ attributes _ | leaf _ attributes | text _ attributes _ => attributes

def children : Element → List Element
  | node _ _ children => children
  | _ => []

mutual

def write (w : Writer) : Element → Writer
  | node name attributes children => (writeAll (w.startTag name attributes) children).endTag
  | leaf name attributes => w.emptyTag name attributes
  | text name attributes content => w.textElement name attributes content

def writeAll (w : Writer) : List Element → Writer
  | [] => w
  | e :: es => writeAll (write w e) es

end

/-- The text of a document with the element as its document element. -/
def document (e : Element) : String := (write ({} : Writer).declaration e).finish

end Element

end RdfXmlMapping.Xml
