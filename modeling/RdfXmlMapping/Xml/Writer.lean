/-!
XML written line by line, each tag on a line of its own and indented by its depth. The writer keeps
the names of the elements that are still open, so that `finish` can close them.
-/

namespace RdfXmlMapping.Xml

/-- How a character is written in character data and in double quotes. -/
def escapeChar (c : Char) : List Char :=
  match c with
  | '&' => ['&', 'a', 'm', 'p', ';']
  | '<' => ['&', 'l', 't', ';']
  | '>' => ['&', 'g', 't', ';']
  | '"' => ['&', 'q', 'u', 'o', 't', ';']
  | c => [c]

/-- The text with markup characters written as entities; an apostrophe needs none. -/
def escape (s : String) : String := .ofList (s.toList.flatMap escapeChar)

/-- The attributes of an element in the order in which they are written. -/
abbrev Attributes := List (String × String)

/-- What is written so far, the open elements from the innermost outwards, and the depth at which
the whole text is to stand. -/
structure Writer where
  text : String := ""
  stack : List String := []
  base : Nat := 0
  deriving DecidableEq, Repr

def indent (depth : Nat) : String := .ofList (List.replicate (2 * depth) ' ')

def attributeText (a : String × String) : String := " " ++ a.1 ++ "=\"" ++ escape a.2 ++ "\""

def tag (name : String) (attributes : Attributes) : String :=
  attributes.foldl (fun t a => t ++ attributeText a) ("<" ++ name)

def endLine (depth : Nat) (name : String) : String := indent depth ++ "</" ++ name ++ ">\n"

namespace Writer

def depth (w : Writer) : Nat := w.base + w.stack.length

def raw (w : Writer) (text : String) : Writer := { w with text := w.text ++ text }

def declaration (w : Writer) : Writer := w.raw "<?xml version=\"1.0\" encoding=\"utf-8\"?>\n"

def startTag (w : Writer) (name : String) (attributes : Attributes) : Writer :=
  { w.raw (indent w.depth ++ tag name attributes ++ ">\n") with stack := name :: w.stack }

def emptyTag (w : Writer) (name : String) (attributes : Attributes) : Writer :=
  w.raw (indent w.depth ++ tag name attributes ++ "/>\n")

/-- Writes an element with text in it, on one line. -/
def textElement (w : Writer) (name : String) (attributes : Attributes) (text : String) : Writer :=
  w.raw (indent w.depth ++ tag name attributes ++ ">" ++ escape text ++ "</" ++ name ++ ">\n")

/-- Closes the innermost open element, if there is one. -/
def endTag (w : Writer) : Writer :=
  match w.stack with
  | [] => w
  | name :: outer => { w.raw (endLine (w.base + outer.length) name) with stack := outer }

def endLines (base : Nat) : List String → String
  | [] => ""
  | name :: outer => endLine (base + outer.length) name ++ endLines base outer

def finish (w : Writer) : String := w.text ++ endLines w.base w.stack

end Writer

end RdfXmlMapping.Xml
