import RdfXmlMapping.Json.Doc

/-! Texts in JSON: quoting, and reading what is quoted. -/

namespace RdfXmlMapping.Json

def hexValue? (c : Char) : Option Nat :=
  if '0' ≤ c ∧ c ≤ '9' then some (c.toNat - '0'.toNat)
  else if 'a' ≤ c ∧ c ≤ 'f' then some (c.toNat - 'a'.toNat + 10)
  else if 'A' ≤ c ∧ c ≤ 'F' then some (c.toNat - 'A'.toNat + 10)
  else none

def hexDigit (n : Nat) : Char := Nat.digitChar n

/-- How a character is written in quotes: a quote, a backslash and a control character as an
escape, all else as it is. -/
def escapeChar (c : Char) : List Char :=
  match c with
  | '"' => ['\\', '"']
  | '\\' => ['\\', '\\']
  | '\x08' => ['\\', 'b']
  | '\x0c' => ['\\', 'f']
  | '\n' => ['\\', 'n']
  | '\r' => ['\\', 'r']
  | '\t' => ['\\', 't']
  | c =>
    if c.toNat < 0x20 then
      ['\\', 'u', '0', '0', hexDigit (c.toNat / 16), hexDigit (c.toNat % 16)]
    else [c]

def quote (s : String) : List Char := '"' :: s.toList.flatMap escapeChar ++ ['"']

/-- A character of a quoted text, or a unit of sixteen bits written as an escape. -/
inductive Piece where
  | char (c : Char)
  | unit (n : Nat)
  deriving DecidableEq, Repr

def simpleEscape? : Char → Option Char
  | '"' => some '"'
  | '\\' => some '\\'
  | '/' => some '/'
  | 'b' => some '\x08'
  | 'f' => some '\x0c'
  | 'n' => some '\n'
  | 'r' => some '\r'
  | 't' => some '\t'
  | _ => none

def hexUnit? (a b c d : Char) : Option Nat := do
  return ((← hexValue? a) * 16 + (← hexValue? b)) * 256 + (← hexValue? c) * 16 + (← hexValue? d)

/-- Four digits must follow; a text with fewer than four bytes left ends too early. -/
def unitFault (cs : List Char) : Fault :=
  if cs.foldl (fun size c => size + c.utf8Size) 0 < 4 then .truncated else .malformed

/-- The pieces of a quoted text after its first quote, and what follows its last quote. -/
def scanPieces : List Char → List Piece × Except Fault (List Char)
  | [] => ([], .error .truncated)
  | '"' :: rest => ([], .ok rest)
  | '\\' :: [] => ([], .error .truncated)
  | '\\' :: 'u' :: a :: b :: c :: d :: rest =>
    match hexUnit? a b c d with
    | some n =>
      let (pieces, after) := scanPieces rest
      (.unit n :: pieces, after)
    | none => ([], .error (unitFault [a, b, c, d]))
  | '\\' :: e :: rest =>
    match simpleEscape? e with
    | some c =>
      let (pieces, after) := scanPieces rest
      (.char c :: pieces, after)
    | none => ([], .error (if e = 'u' then unitFault rest else .malformed))
  | c :: rest =>
    if c.toNat < 0x20 then ([], .error .malformed)
    else
      let (pieces, after) := scanPieces rest
      (.char c :: pieces, after)

/-- Whether a unit is the first one of a pair. -/
def isLeading (n : Nat) : Bool := 0xD800 ≤ n && n ≤ 0xDBFF

def isTrailing (n : Nat) : Bool := 0xDC00 ≤ n && n ≤ 0xDFFF

/-- The characters that pieces stand for; a leading unit needs a trailing one right after it.
`stop` is the fault after the last piece. -/
def decodePieces (stop : Option Fault) : List Piece → Except Fault (List Char)
  | [] => match stop with
    | some fault => .error fault
    | none => .ok []
  | .char c :: rest => (c :: ·) <$> decodePieces stop rest
  | .unit n :: rest =>
    if isTrailing n then .error .malformed
    else if isLeading n then
      match rest with
      | .unit k :: rest =>
        if isTrailing k then
          (Char.ofNat (0x10000 + (n - 0xD800) * 0x400 + (k - 0xDC00)) :: ·) <$>
            decodePieces stop rest
        else .error .malformed
      | .char _ :: _ => .error .malformed
      | [] => .error (stop.getD .malformed)
    else (Char.ofNat n :: ·) <$> decodePieces stop rest

/-- Reads a quoted text after its first quote: its content, the fault that also stops a reader who
passes over it, and what follows. -/
def scanText (cs : List Char) : Except Fault String × Except Fault (List Char) :=
  let (pieces, after) := scanPieces cs
  let stop := match after with
    | .ok _ => none
    | .error fault => some fault
  ((decodePieces stop pieces).map String.ofList, after)

end RdfXmlMapping.Json
