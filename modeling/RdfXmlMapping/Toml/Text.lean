import RdfXmlMapping.Json.Text
import RdfXmlMapping.Text.Replace

/-!
Texts in TOML, and what may stand between values. Line ends are line feeds here; a carriage return
before a line feed is dropped beforehand, and any other one is refused like all control characters.
-/

namespace RdfXmlMapping.Toml

def isBlank (c : Char) : Bool := c = ' ' || c = '\t'

def isPlain (c : Char) : Bool := c = '\t' || (0x20 ≤ c.toNat && c.toNat ≠ 0x7f)

def normaliseLineEnds : List Char → List Char
  | '\r' :: '\n' :: cs => '\n' :: normaliseLineEnds cs
  | c :: cs => c :: normaliseLineEnds cs
  | [] => []

def skipBlanks (cs : List Char) : List Char := cs.dropWhile isBlank

/-- Drops blanks, line ends and comments; refuses a comment with a control character. -/
def skipFiller (inComment : Bool) : List Char → Option (List Char)
  | [] => some []
  | c :: cs =>
    if inComment then
      if c = '\n' then skipFiller false cs else if isPlain c then skipFiller true cs else none
    else if isBlank c || c = '\n' then skipFiller false cs
    else if c = '#' then skipFiller true cs
    else some (c :: cs)

/-- The text before the first occurrence of a delimiter and the text after it. With `escapes` a
backslash hides the next character; `hidden` says that this is the case for the first one. -/
def spanUntil (delimiter : List Char) (escapes hidden : Bool) :
    List Char → Option (List Char × List Char)
  | [] => none
  | c :: cs =>
    match if hidden then none else Text.after? delimiter (c :: cs) with
    | some rest => some ([], rest)
    | none =>
      (spanUntil delimiter escapes (escapes && !hidden && c = '\\') cs).map fun (body, rest) =>
        (c :: body, rest)

/-- Where a reader of escapes stands. -/
inductive EscapeState where
  | plain
  /-- After a backslash. -/
  | escape
  /-- Before further hexadecimal digits of a number. -/
  | hex (missing value : Nat)
  /-- After a backslash at the end of a line; blanks and line ends are dropped once `ended`. -/
  | joining (ended : Bool)
  deriving DecidableEq, Repr

def simpleEscape? : Char → Option Char
  | 'b' => some '\x08'
  | 't' => some '\t'
  | 'n' => some '\n'
  | 'f' => some '\x0c'
  | 'r' => some '\r'
  | '"' => some '"'
  | '\\' => some '\\'
  | _ => none

namespace EscapeState

def stepPlain (multiline : Bool) (c : Char) : Option (EscapeState × List Char) :=
  if c = '\\' then some (escape, [])
  else if isPlain c || (multiline && c = '\n') then some (plain, [c])
  else none

/-- The state after a character, and what the character contributes. -/
def step (multiline : Bool) (c : Char) : EscapeState → Option (EscapeState × List Char)
  | plain => stepPlain multiline c
  | escape =>
    match simpleEscape? c with
    | some d => some (plain, [d])
    | none =>
      if c = 'u' then some (hex 4 0, [])
      else if c = 'U' then some (hex 8 0, [])
      else if multiline && (isBlank c || c = '\n') then some (joining (c = '\n'), [])
      else none
  | hex missing value => do
    let value := 16 * value + (← Json.hexValue? c)
    if missing > 1 then return (hex (missing - 1) value, [])
    else if value.isValidChar then return (plain, [Char.ofNat value])
    else none
  | joining ended =>
    if isBlank c then some (joining ended, [])
    else if c = '\n' then some (joining true, [])
    else if ended then stepPlain multiline c
    else none

end EscapeState

def unescape (multiline : Bool) : EscapeState → List Char → Option (List Char)
  | .plain, [] | .joining true, [] => some []
  | _, [] => none
  | state, c :: cs => do
    let (state, out) ← state.step multiline c
    return out ++ (← unescape multiline state cs)

/-- A text in double quotes, after the first one. -/
def scanBasic (cs : List Char) : Option (String × List Char) := do
  let (body, rest) ← spanUntil ['"'] true false cs
  return (.ofList (← unescape false .plain body), rest)

/-- A text in single quotes, after the first one. -/
def scanLiteral (cs : List Char) : Option (String × List Char) := do
  let (body, rest) ← spanUntil ['\''] false false cs
  if body.all isPlain then return (.ofList body, rest) else none

/-- A text between triple quotes, after the first three. A line end right after them is dropped, and
of the quotes before the last three up to two belong to the text. -/
def spanMultiline (quote : Char) (escapes : Bool) (cs : List Char) :
    Option (List Char × List Char) := do
  let cs := match cs with
    | '\n' :: r => r
    | r => r
  let (body, rest) ← spanUntil [quote, quote, quote] escapes false cs
  let further := min 2 (rest.takeWhile (· = quote)).length
  return (body ++ List.replicate further quote, rest.drop further)

/-- A text, from its first quote on. -/
def scanText : List Char → Option (String × List Char)
  | '"' :: '"' :: '"' :: r => do
    let (body, rest) ← spanMultiline '"' true r
    return (.ofList (← unescape true .plain body), rest)
  | '\'' :: '\'' :: '\'' :: r => do
    let (body, rest) ← spanMultiline '\'' false r
    if body.all fun c => isPlain c || c = '\n' then return (.ofList body, rest) else none
  | '"' :: r => scanBasic r
  | '\'' :: r => scanLiteral r
  | _ => none

end RdfXmlMapping.Toml
