import RdfXmlMapping.Toml.Number
import RdfXmlMapping.Toml.Table
import RdfXmlMapping.Toml.Text

/-! Reading TOML documents. -/

namespace RdfXmlMapping.Toml

/-- How many arrays and tables in braces may be nested in one another, and how many names a dotted
key may have. -/
def nestingLimit : Nat := 79

def isBare (c : Char) : Bool := c.isAlphanum || c = '-' || c = '_'

def scanName : List Char → Option (String × List Char)
  | '"' :: r => scanBasic r
  | '\'' :: r => scanLiteral r
  | cs =>
    match cs.span isBare with
    | ([], _) => none
    | (name, rest) => some (.ofList name, rest)

/-- A key of at most `room` names with dots between them: all but the last, the last, and what
follows. Blanks may stand around each name. -/
def scanKey : (room : Nat) → List Char → Option (List String × String × List Char)
  | 0, _ => none
  | room + 1, cs => do
    let (name, rest) ← scanName (skipBlanks cs)
    match skipBlanks rest with
    | '.' :: r =>
      let (path, key, rest) ← scanKey room r
      return (name :: path, key, rest)
    | rest => return ([], name, rest)

mutual

/-- The value at the beginning of a text. `fuel` bounds the number of steps and is never short when
it exceeds the length of the text. -/
def scanValue (fuel room : Nat) (cs : List Char) : Option (Value × List Char) :=
  match fuel with
  | 0 => none
  | fuel + 1 =>
    match cs with
    | '[' :: r =>
      match room with
      | 0 => none
      | room + 1 => do
        let (items, rest) ← scanItems fuel room r
        return (.array items, rest)
    | '\x7b' :: r =>
      match room with
      | 0 => none
      | room + 1 => do
        let (pairs, rest) ← match skipBlanks r with
          | '\x7d' :: r => some ([], r)
          | r => scanPairs fuel room r
        return (.table .braces (← addPairs [] pairs), rest)
    | 't' :: 'r' :: 'u' :: 'e' :: r => some (.boolean true, r)
    | 'f' :: 'a' :: 'l' :: 's' :: 'e' :: r => some (.boolean false, r)
    | '"' :: _ | '\'' :: _ => (scanText cs).map fun (s, rest) => (.string s, rest)
    | cs => scanNumberOrMoment cs

/-- The items of an array up to its end; a comma may follow the last one. -/
def scanItems (fuel room : Nat) (cs : List Char) : Option (List Value × List Char) :=
  match fuel with
  | 0 => none
  | fuel + 1 => do
    match ← skipFiller false cs with
    | ']' :: r => return ([], r)
    | cs =>
      let (item, rest) ← scanValue fuel room cs
      match ← skipFiller false rest with
      | ']' :: r => return ([item], r)
      | ',' :: r =>
        let (items, rest) ← scanItems fuel room r
        return (item :: items, rest)
      | _ => none

def scanPair (fuel room : Nat) (cs : List Char) : Option (Pair × List Char) :=
  match fuel with
  | 0 => none
  | fuel + 1 => do
    match ← scanKey nestingLimit cs with
    | (path, key, '=' :: r) =>
      let (value, rest) ← scanValue fuel room (skipBlanks r)
      return (⟨path, key, value⟩, skipBlanks rest)
    | _ => none

/-- The pairs of a table in braces up to its end; there is at least one, and no comma follows the
last. -/
def scanPairs (fuel room : Nat) (cs : List Char) : Option (List Pair × List Char) :=
  match fuel with
  | 0 => none
  | fuel + 1 => do
    let (pair, rest) ← scanPair fuel room cs
    match rest with
    | '\x7d' :: r => return ([pair], r)
    | ',' :: r =>
      let (pairs, rest) ← scanPairs fuel room r
      return (pair :: pairs, rest)
    | _ => none

end

/-- A header, after its brackets have been opened. -/
def scanHeader (repeated : Bool) (cs : List Char) : Option (Section × List Char) := do
  let (path, key, rest) ← scanKey nestingLimit cs
  match repeated, rest with
  | false, ']' :: r => return (⟨false, path, key, []⟩, r)
  | true, ']' :: ']' :: r => return (⟨true, path, key, []⟩, r)
  | _, _ => none

/-- Drops blanks after a statement; only a comment or a line end may follow. -/
def endLine? (cs : List Char) : Option (List Char) :=
  match skipBlanks cs with
  | [] => some []
  | '\n' :: r => some r
  | '#' :: r => some ('#' :: r)
  | _ => none

/-- The pairs before the first header, and the sections. -/
def scanSections : (fuel : Nat) → List Char → Option (List Pair × List Section)
  | 0, _ => none
  | fuel + 1, cs => do
    match ← skipFiller false cs with
    | [] => return ([], [])
    | '[' :: '[' :: r =>
      let (header, rest) ← scanHeader true r
      let (pairs, sections) ← scanSections fuel (← endLine? rest)
      return ([], { header with pairs } :: sections)
    | '[' :: r =>
      let (header, rest) ← scanHeader false r
      let (pairs, sections) ← scanSections fuel (← endLine? rest)
      return ([], { header with pairs } :: sections)
    | cs =>
      let (pair, rest) ← scanPair (4 * cs.length + 4) nestingLimit cs
      let (pairs, sections) ← scanSections fuel (← endLine? rest)
      return (pair :: pairs, sections)

/-- The table of a document; nothing if the text is no document. A mark of the byte order may come
first. -/
def parse? (text : String) : Option Value := do
  let cs := match text.toList with
    | '\ufeff' :: r => r
    | r => r
  let cs := normaliseLineEnds cs
  let (pairs, sections) ← scanSections (cs.length + 1) cs
  let root ← addPairs [] pairs
  return .table .header (← sections.foldlM addSection root)

end RdfXmlMapping.Toml
