import RdfXmlMapping.Json.Text
import RdfXmlMapping.Text.Replace
import RdfXmlMapping.Text.Segments
import RdfXmlMapping.Unicode.Ranges

/-!
The characters of XML documents and of the names in them, character data and the values of
attributes, in which references stand for single characters.
-/

namespace RdfXmlMapping.Xml

def isChar (c : Char) : Bool :=
  if c.toNat < 0x20 then c = '\t' || c = '\n' || c = '\r'
  else c.toNat ≠ 0xFFFE && c.toNat ≠ 0xFFFF

def isSpace (c : Char) : Bool := c = ' ' || c = '\t' || c = '\n' || c = '\r'

/-- Ranges of the code points that may begin a name, in order. -/
def nameStartRanges : List (Nat × Nat) :=
  [(0x3A, 0x3A), (0x41, 0x5A), (0x5F, 0x5F), (0x61, 0x7A), (0xC0, 0xD6), (0xD8, 0xF6),
    (0xF8, 0x2FF), (0x370, 0x37D), (0x37F, 0x1FFF), (0x200C, 0x200D), (0x2070, 0x218F),
    (0x2C00, 0x2FEF), (0x3001, 0xD7FF), (0xF900, 0xFDCF), (0xFDF0, 0xFFFD), (0x10000, 0xEFFFF)]

/-- Ranges of the code points that may stand in a name but not begin one, in order. -/
def namePartRanges : List (Nat × Nat) :=
  [(0x2D, 0x2E), (0x30, 0x39), (0xB7, 0xB7), (0x300, 0x36F), (0x203F, 0x2040)]

def isNameStart (c : Char) : Bool := Unicode.inRanges nameStartRanges c.toNat

def isNamePart (c : Char) : Bool := isNameStart c || Unicode.inRanges namePartRanges c.toNat

/-! ### References -/

def namedChars : List (List Char × Char) :=
  [(['q', 'u', 'o', 't'], '"'), (['a', 'm', 'p'], '&'), (['a', 'p', 'o', 's'], '\''),
    (['l', 't'], '<'), (['g', 't'], '>')]

/-- The character with a number; numbers that no character has stand for the replacement
character. -/
def numberedChar? (base : Nat) (digits : List Char) : Option Char :=
  let n := digits.foldl (fun n d => base * n + (Json.hexValue? d).getD 0) 0
  if digits.isEmpty ∨ n ≥ UInt32.size then none
  else
    let c := if n.isValidChar then Char.ofNat n else '\ufffd'
    if isChar c then some c else none

/-- The character of a numeric reference, after its mark. -/
def scanNumbered (base : Nat) (isDigit : Char → Bool) (cs : List Char) :
    Option (Char × List Char) :=
  match cs.span isDigit with
  | (digits, ';' :: rest) => (numberedChar? base digits).map fun c => (c, rest)
  | _ => none

/-- The character that a reference stands for, after its ampersand, and what follows. -/
def scanReference (cs : List Char) : Option (Char × List Char) :=
  match cs with
  | '#' :: 'x' :: r => scanNumbered 16 (fun c => (Json.hexValue? c).isSome) r
  | '#' :: r => scanNumbered 10 Char.isDigit r
  | r => namedChars.findSome? fun (name, c) =>
    (Text.after? (name ++ [';']) r).map fun rest => (c, rest)

/-- Replaces the references in a text; `plain` is applied to what stands between them. -/
def expand (plain : List Char → List Char) (cs : List Char) : Option (List Char) :=
  match Text.segments '&' cs with
  | [] => some []
  | first :: others => do
    let others ← others.mapM fun segment => do
      let (c, rest) ← scanReference segment
      return c :: plain rest
    return plain first ++ others.flatten

def normaliseLineEnds : List Char → List Char
  | '\r' :: '\n' :: cs => '\n' :: normaliseLineEnds cs
  | '\r' :: cs => '\n' :: normaliseLineEnds cs
  | c :: cs => c :: normaliseLineEnds cs
  | [] => []

def textContent (cs : List Char) : Option (List Char) := expand normaliseLineEnds cs

/-- The value of an attribute: blanks and line ends become spaces. -/
def attributeValue (cs : List Char) : Option (List Char) :=
  expand (fun cs => (normaliseLineEnds cs).map fun c => if isSpace c then ' ' else c) cs

end RdfXmlMapping.Xml
