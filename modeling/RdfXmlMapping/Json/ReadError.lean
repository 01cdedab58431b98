import RdfXmlMapping.Json.Doc
import RdfXmlMapping.Text.Messages

/-! What can be wrong with a document that should describe a value of a certain shape. -/

namespace RdfXmlMapping.Json

/-- What stands where something else is expected. -/
inductive Found where
  | null
  | bool (b : Bool)
  | number (n : Number)
  | string (s : String)
  | array
  | object
  deriving DecidableEq, Repr

def Found.describe : Found → String
  | null => "null"
  | bool true => "boolean `true`"
  | bool false => "boolean `false`"
  | number (.integer n) => "integer `" ++ toString n ++ "`"
  | number (.fraction s m) => "floating point `" ++ (Number.fraction s m).text ++ "`"
  | string s => "string " ++ Text.quoted s
  | array => "sequence"
  | object => "map"

/-- A document whose content does not have the expected shape. -/
inductive Mismatch where
  | wrongType (found : Found) (expected : String)
  | wrongValue (found : Found) (expected : String)
  | missingField (name : String)
  | duplicateField (name : String)
  | unknownVariant (found : String) (variants : List String)
  | unknownField (found : String) (fields : List String)
  | wrongLength (found : Nat) (expected : String)
  deriving DecidableEq, Repr

def Mismatch.message : Mismatch → String
  | wrongType found expected => "invalid type: " ++ found.describe ++ ", expected " ++ expected
  | wrongValue found expected => "invalid value: " ++ found.describe ++ ", expected " ++ expected
  | missingField name => "missing field `" ++ name ++ "`"
  | duplicateField name => "duplicate field `" ++ name ++ "`"
  | unknownVariant found variants => "unknown variant `" ++ found ++ "`, " ++ Text.oneOf variants
  | unknownField found fields => "unknown field `" ++ found ++ "`, " ++ Text.oneOf fields
  | wrongLength found expected => "invalid length " ++ toString found ++ ", expected " ++ expected

/-- Why a text is not read: a fault of form, or a mismatch of content that stands before any. -/
inductive ReadError where
  | fault (f : Fault)
  | mismatch (m : Mismatch)
  deriving DecidableEq, Repr

/-- The result of reading something from a document. -/
abbrev Decoded (α : Type) := Except ReadError α

/-- The fault, if there is one. -/
def raise : Option Fault → Decoded Unit
  | none => .ok ()
  | some f => .error (.fault f)

def sound {α : Type} : Except Fault α → Decoded α
  | .ok a => .ok a
  | .error f => .error (.fault f)

/-- Refuses a document where something else is expected. What the document is must be readable;
arrays and objects are recognised by their first character. -/
def refuse {α : Type} (expected : String) : Doc → Decoded α
  | .broken f => .error (.fault f)
  | .null => .error (.mismatch (.wrongType .null expected))
  | .bool b => .error (.mismatch (.wrongType (.bool b) expected))
  | .number read _ => do throw (.mismatch (.wrongType (.number (← sound read)) expected))
  | .string read _ => do throw (.mismatch (.wrongType (.string (← sound read)) expected))
  | .array _ _ => .error (.mismatch (.wrongType .array expected))
  | .object _ _ => .error (.mismatch (.wrongType .object expected))

end RdfXmlMapping.Json
