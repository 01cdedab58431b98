import RdfXmlMapping.Decimal.Shortest

/-!
JSON values, and JSON text as far as it can be read. A document keeps the place where reading has to
stop, so that whoever takes it apart from left to right meets problems of form and of content in the
order of the text.
-/

namespace RdfXmlMapping.Json

/-! ### Values -/

/-- A number as it was written: an integer of at most 64 bits, or a binary fraction with its
sign. -/
inductive Number where
  | integer (n : Int)
  | fraction (negative : Bool) (magnitude : Decimal.Binary)
  deriving DecidableEq, Repr

/-- A JSON value; the members of an object keep their order. -/
inductive Value where
  | null
  | bool (b : Bool)
  | number (n : Number)
  | string (s : String)
  | array (items : List Value)
  | object (members : List (String × Value))
  deriving Repr

/-- Fractions are positional from `10 ^ -5` to below `10 ^ 16`. -/
def fractionLayout : Decimal.Layout := ⟨-5, 15, 2⟩

def Number.text : Number → String
  | integer n => toString n
  | fraction negative magnitude =>
    (if negative then "-" else "") ++ magnitude.shortest.layOut fractionLayout

/-! ### Documents -/

/-- Why a text cannot be read further: it ends too early, or it is no JSON. -/
inductive Fault where
  | truncated
  | malformed
  deriving DecidableEq, Repr

/-- What is read where a value should be. Texts and numbers have two outcomes: `read` for a reader
that needs the content, and `skip` for one that only passes over it and checks less. Arrays and
objects hold what comes before `tail`, the fault in a place where no value stands. -/
inductive Doc where
  | broken (fault : Fault)
  | null
  | bool (b : Bool)
  | number (read : Except Fault Number) (skip : Option Fault)
  | string (read : Except Fault String) (skip : Option Fault)
  | array (items : List Doc) (tail : Option Fault)
  | object (members : List (Except Fault String × Doc)) (tail : Option Fault)

mutual

/-- The first fault that a reader meets who only passes over the value. -/
def Doc.skip : Doc → Option Fault
  | .broken fault => some fault
  | .null | .bool _ => none
  | .number _ skip => skip
  | .string _ skip => skip
  | .array items tail => (skipItems items).or tail
  | .object members tail => (skipMembers members).or tail

/-- The first fault in the items of an array. -/
def Doc.skipItems : List Doc → Option Fault
  | [] => none
  | d :: ds => d.skip.or (skipItems ds)

/-- The first fault in the values of an object. -/
def Doc.skipMembers : List (Except Fault String × Doc) → Option Fault
  | [] => none
  | (_, d) :: ds => d.skip.or (skipMembers ds)

end

end RdfXmlMapping.Json
