import RdfXmlMapping.Json.Text

/-! JSON values as text, with one item to a line or all on one line. -/

namespace RdfXmlMapping.Json

def newline (depth : Nat) : List Char := '\n' :: List.replicate (2 * depth) ' '

mutual

def render (depth : Nat) : Value → List Char
  | .null => ['n', 'u', 'l', 'l']
  | .bool true => ['t', 'r', 'u', 'e']
  | .bool false => ['f', 'a', 'l', 's', 'e']
  | .number n => n.text.toList
  | .string s => quote s
  | .array [] => ['[', ']']
  | .array (v :: vs) =>
    '[' :: newline (depth + 1) ++ render (depth + 1) v ++ renderItems (depth + 1) vs ++
      newline depth ++ [']']
  | .object [] => ['\x7b', '\x7d']
  | .object ((k, v) :: ms) =>
    '\x7b' :: newline (depth + 1) ++ quote k ++ [':', ' '] ++ render (depth + 1) v ++
      renderMembers (depth + 1) ms ++ newline depth ++ ['\x7d']

/-- The items after the first one. -/
def renderItems (depth : Nat) : List Value → List Char
  | [] => []
  | v :: vs => ',' :: newline depth ++ render depth v ++ renderItems depth vs

/-- The members after the first one. -/
def renderMembers (depth : Nat) : List (String × Value) → List Char
  | [] => []
  | (k, v) :: ms =>
    ',' :: newline depth ++ quote k ++ [':', ' '] ++ render depth v ++ renderMembers depth ms

end

def Value.pretty (v : Value) : String := .ofList (render 0 v)

mutual

def renderCompact : Value → List Char
  | .null => ['n', 'u', 'l', 'l']
  | .bool true => ['t', 'r', 'u', 'e']
  | .bool false => ['f', 'a', 'l', 's', 'e']
  | .number n => n.text.toList
  | .string s => quote s
  | .array [] => ['[', ']']
  | .array (v :: vs) => '[' :: renderCompact v ++ compactItems vs ++ [']']
  | .object [] => ['\x7b', '\x7d']
  | .object ((k, v) :: ms) =>
    '\x7b' :: quote k ++ ':' :: renderCompact v ++ compactMembers ms ++ ['\x7d']

/-- The items after the first one. -/
def compactItems : List Value → List Char
  | [] => []
  | v :: vs => ',' :: renderCompact v ++ compactItems vs

/-- The members after the first one. -/
def compactMembers : List (String × Value) → List Char
  | [] => []
  | (k, v) :: ms => ',' :: quote k ++ ':' :: renderCompact v ++ compactMembers ms

end

def Value.compact (v : Value) : String := .ofList (renderCompact v)

end RdfXmlMapping.Json
