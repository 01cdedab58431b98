import RdfXmlMapping.Json.Numeral
import RdfXmlMapping.Json.Text

/-! Reading JSON text into a document. -/

namespace RdfXmlMapping.Json

def isSpace (c : Char) : Bool := c = ' ' || c = '\n' || c = '\t' || c = '\r'

def trimStart (cs : List Char) : List Char := cs.dropWhile isSpace

/-- A value and what follows it; nothing follows a value that cannot be read to its end. -/
abbrev Scan := Doc × Option (List Char)

def scanWord (value : Doc) : List Char → List Char → Scan
  | [], cs => (value, some cs)
  | _ :: _, [] => (.broken .truncated, none)
  | p :: ps, c :: cs => if p = c then scanWord value ps cs else (.broken .malformed, none)

def scanNumber (negative : Bool) (cs : List Char) : Scan :=
  let n := scanUnsigned negative cs
  (.number n.read n.skip, if n.skip.isSome then none else some n.rest)

def scanString (cs : List Char) : Scan :=
  match scanText cs with
  | (read, .ok rest) => (.string read none, some rest)
  | (read, .error fault) => (.string read (some fault), none)

mutual

/-- The value at the beginning of a text. `fuel` bounds the number of values and is never short when
it exceeds the length of the text. -/
def scanValue (fuel : Nat) (cs : List Char) : Scan :=
  match fuel with
  | 0 => (.broken .malformed, none)
  | fuel + 1 =>
    match trimStart cs with
    | [] => (.broken .truncated, none)
    | 'n' :: r => scanWord .null ['u', 'l', 'l'] r
    | 't' :: r => scanWord (.bool true) ['r', 'u', 'e'] r
    | 'f' :: r => scanWord (.bool false) ['a', 'l', 's', 'e'] r
    | '-' :: r => scanNumber true r
    | '"' :: r => scanString r
    | '[' :: r =>
      match trimStart r with
      | ']' :: r => (.array [] none, some r)
      | [] => (.array [] (some .truncated), none)
      | r =>
        let (items, tail, rest) := scanItems fuel r
        (.array items tail, rest)
    | '\x7b' :: r =>
      match trimStart r with
      | '\x7d' :: r => (.object [] none, some r)
      | [] => (.object [] (some .truncated), none)
      | r =>
        let (members, tail, rest) := scanMembers fuel r
        (.object members tail, rest)
    | c :: r => if c.isDigit then scanNumber false (c :: r) else (.broken .malformed, none)

def scanItems (fuel : Nat) (cs : List Char) : List Doc × Option Fault × Option (List Char) :=
  match fuel with
  | 0 => ([], some .malformed, none)
  | fuel + 1 =>
    match scanValue fuel cs with
    | (item, none) => ([item], none, none)
    | (item, some r) =>
      match trimStart r with
      | ']' :: r => ([item], none, some r)
      | ',' :: r =>
        let (items, tail, rest) := scanItems fuel r
        (item :: items, tail, rest)
      | [] => ([item], some .truncated, none)
      | _ => ([item], some .malformed, none)

def scanMembers (fuel : Nat) (cs : List Char) :
    List (Except Fault String × Doc) × Option Fault × Option (List Char) :=
  match fuel with
  | 0 => ([], some .malformed, none)
  | fuel + 1 =>
    match trimStart cs with
    | '"' :: r =>
      match scanText r with
      | (key, .error fault) => ([(key, .broken fault)], none, none)
      | (key, .ok r) =>
        match trimStart r with
        | ':' :: r =>
          match scanValue fuel r with
          | (value, none) => ([(key, value)], none, none)
          | (value, some r) =>
            match trimStart r with
            | '\x7d' :: r => ([(key, value)], none, some r)
            | ',' :: r =>
              let (members, tail, rest) := scanMembers fuel r
              ((key, value) :: members, tail, rest)
            | [] => ([(key, value)], some .truncated, none)
            | _ => ([(key, value)], some .malformed, none)
        | [] => ([(key, .broken .truncated)], none, none)
        | _ => ([(key, .broken .malformed)], none, none)
    | [] => ([], some .truncated, none)
    | _ => ([], some .malformed, none)

end

/-- A whole text: its value, and the fault after the value. -/
def scan (cs : List Char) : Doc × Option Fault :=
  match scanValue (2 * cs.length + 2) cs with
  | (doc, none) => (doc, none)
  | (doc, some rest) => (doc, if (trimStart rest).isEmpty then none else some .malformed)

end RdfXmlMapping.Json
