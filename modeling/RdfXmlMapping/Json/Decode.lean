import RdfXmlMapping.Json.Reader
import RdfXmlMapping.Json.ReadError

/-!
Taking values out of a document, from left to right. Structures are read from an object, whose
unknown members are passed over, or from an array of their fields.
-/

namespace RdfXmlMapping.Json

/-- How many containers may be nested in one another. -/
def nestingLimit : Nat := 127

def decodeString : Doc → Decoded String
  | .string read _ => sound read
  | d => refuse "a string" d

def decodeBool : Doc → Decoded Bool
  | .bool b => .ok b
  | d => refuse "a boolean" d

def decodeUInt32 : Doc → Decoded UInt32
  | .number read _ => do
    match ← sound read with
    | .integer n =>
      if 0 ≤ n ∧ n < UInt32.size then return .ofNat n.toNat
      else throw (.mismatch (.wrongValue (.number (.integer n)) "u32"))
    | n => throw (.mismatch (.wrongType (.number n) "u32"))
  | d => refuse "u32" d

def decodeOption {α : Type} (decode : Doc → Decoded α) : Doc → Decoded (Option α)
  | .null => .ok none
  | d => some <$> decode d

def decodeList {α : Type} (decode : Doc → Decoded α) : Doc → Decoded (List α)
  | .array items tail => do
    let values ← items.mapM decode
    raise tail
    return values
  | d => refuse "a sequence" d

def decodeMembers {α : Type} (decode : Doc → Decoded α) : Doc → Decoded (List (String × α))
  | .object members tail => do
    let values ← members.mapM fun (key, d) => do return (← sound key, ← decode d)
    raise tail
    return values
  | d => refuse "a map" d

mutual

/-- Any value; `room` is how deep containers may still be nested. -/
def decodeAny (room : Nat) : Doc → Decoded Value
  | .broken f => .error (.fault f)
  | .null => .ok .null
  | .bool b => .ok (.bool b)
  | .number read _ => .number <$> sound read
  | .string read _ => .string <$> sound read
  | .array items tail =>
    match room with
    | 0 => .error (.fault .malformed)
    | room + 1 => do
      let values ← decodeItems room items
      raise tail
      return .array values
  | .object members tail =>
    match room with
    | 0 => .error (.fault .malformed)
    | room + 1 => do
      let values ← decodeEntries room members
      raise tail
      return .object values

/-- Any values, one after the other. -/
def decodeItems (room : Nat) : List Doc → Decoded (List Value)
  | [] => .ok []
  | d :: ds => do return (← decodeAny room d) :: (← decodeItems room ds)

/-- Any members, one after the other. -/
def decodeEntries (room : Nat) :
    List (Except Fault String × Doc) → Decoded (List (String × Value))
  | [] => .ok []
  | (key, d) :: ds => do
    let key ← sound key
    let value ← decodeAny room d
    return (key, value) :: (← decodeEntries room ds)

end

/-- A field of a structure that is read into a draft `δ`. -/
structure FieldReader (δ : Type) where
  name : String
  /-- Without it the structure is incomplete. -/
  required : Bool
  /-- Whether the draft holds the field already. -/
  present : δ → Bool
  read : Doc → δ → Decoded δ

def readMembers {δ : Type} (fields : List (FieldReader δ)) :
    List (Except Fault String × Doc) → δ → Decoded δ
  | [], draft => .ok draft
  | (key, d) :: rest, draft => do
    let key ← sound key
    match fields.find? (·.name == key) with
    | some field =>
      if field.present draft then throw (.mismatch (.duplicateField field.name))
      else readMembers fields rest (← field.read d draft)
    | none =>
      raise d.skip
      readMembers fields rest draft

/-- Reads the items of an array as the fields in their order, the first with the number `index`.
Fields that are not required may be left out at the end; nothing may follow the last one. -/
def readItems {δ : Type} (expected : String) (tail : Option Fault) :
    List (FieldReader δ) → (index : Nat) → List Doc → δ → Decoded δ
  | [], _, [], draft => do
    raise tail
    return draft
  | [], _, _ :: _, _ => throw (.fault .malformed)
  | field :: fields, index, [], draft => do
    raise tail
    match (field :: fields).findIdx? (·.required) with
    | some k => throw (.mismatch (.wrongLength (index + k) expected))
    | none => return draft
  | field :: fields, index, d :: ds, draft => do
    readItems expected tail fields (index + 1) ds (← field.read d draft)

def elementCount (n : Nat) : String := toString n ++ (if n = 1 then " element" else " elements")

def readStruct {δ : Type} (title : String) (fields : List (FieldReader δ)) (draft : δ) :
    Doc → Decoded δ
  | .object members tail => do
    let draft ← readMembers fields members draft
    raise tail
    return draft
  | .array items tail =>
    readItems (title ++ " with " ++ elementCount fields.length) tail fields 0 items draft
  | d => refuse title d

/-- A field that must not be missing. -/
def require {α : Type} (name : String) : Option α → Decoded α
  | some a => .ok a
  | none => .error (.mismatch (.missingField name))

/-- Reads a whole text. A fault after the value counts only when the value is sound. -/
def decodeText {α : Type} (decode : Doc → Decoded α) (text : String) : Decoded α := do
  let (doc, trailing) := scan text.toList
  let value ← decode doc
  raise trailing
  return value

end RdfXmlMapping.Json
