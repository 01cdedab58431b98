import RdfXmlMapping.Unicode.Printable

/-!
Texts in messages: names among which there is a choice, and quoted texts, in which what cannot be
seen is shown by its number.
-/

namespace RdfXmlMapping.Text

def oneOf (names : List String) : String :=
  match names.map fun n => "`" ++ n ++ "`" with
  | [] => "there are none"
  | [a] => "expected " ++ a
  | [a, b] => "expected " ++ a ++ " or " ++ b
  | names => "expected one of " ++ ", ".intercalate names

/-- The hexadecimal digits of a number, without zeros in front. -/
def hexDigits (n : Nat) : List Char := Nat.toDigits 16 n

def numbered (c : Char) : List Char := ['\\', 'u', '\x7b'] ++ hexDigits c.toNat ++ ['\x7d']

def quoteChar (c : Char) : List Char :=
  match c with
  | '"' => ['\\', '"']
  | '\\' => ['\\', '\\']
  | '\n' => ['\\', 'n']
  | '\r' => ['\\', 'r']
  | '\t' => ['\\', 't']
  | '\x00' => ['\\', '0']
  | c => if Unicode.isExtending c || Unicode.isUnprintable c then numbered c else [c]

def quoted (s : String) : String := .ofList ('"' :: s.toList.flatMap quoteChar ++ ['"'])

end RdfXmlMapping.Text
