import RdfXmlMapping.Json.Numeral
import RdfXmlMapping.Json.Text
import RdfXmlMapping.Toml.Value

/-! Numbers, dates and times in TOML. -/

namespace RdfXmlMapping.Toml

open Decimal

/-- Digits after a first one. An underscore stands between two digits only. -/
def moreDigits (isDigit : Char → Bool) : List Char → Option (List Char × List Char)
  | [] => some ([], [])
  | ['_'] => none
  | '_' :: d :: cs =>
    if isDigit d then (moreDigits isDigit cs).map fun (ds, rest) => (d :: ds, rest) else none
  | d :: cs =>
    if isDigit d then (moreDigits isDigit cs).map fun (ds, rest) => (d :: ds, rest)
    else some ([], d :: cs)

/-- At least one digit. -/
def scanDigits (isDigit : Char → Bool) : List Char → Option (List Char × List Char)
  | [] => none
  | d :: cs =>
    if isDigit d then (moreDigits isDigit cs).map fun (ds, rest) => (d :: ds, rest) else none

def ofDigits (base : Nat) (ds : List Char) : Nat :=
  ds.foldl (fun n d => base * n + (Json.hexValue? d).getD 0) 0

/-- The binary fraction nearest to `digits * 10 ^ exponent`; nothing if it is too large. -/
def roundDecimal? (digits : Nat) (exponent : Int) : Option Binary :=
  let magnitude := exponent + digitCount digits
  if digits = 0 ∨ magnitude < -400 then some ⟨0, Binary.minExponent⟩
  else if magnitude > 400 then none
  else if exponent ≥ 0 then Binary.round? (digits * Nat.pow 10 exponent.toNat) 1
  else Binary.round? digits (Nat.pow 10 (-exponent).toNat)

/-- A real from the digits that write it. One that is too large is refused, unless it is
negative. -/
def realOf? (negative : Bool) (whole fraction : List Char) (exponent : Int) : Option Real :=
  match roundDecimal? (ofDigits 10 (whole ++ fraction)) (exponent - fraction.length) with
  | some magnitude => some (.finite negative magnitude)
  | none => if negative then some (.infinite true) else none

/-- An integer of at most 64 bits. -/
def integerOf? (negative : Bool) (magnitude : Nat) : Option Value :=
  if negative then if magnitude ≤ Nat.pow 2 63 then some (.integer (-(magnitude : Int))) else none
  else if magnitude < Nat.pow 2 63 then some (.integer magnitude) else none

/-- The digits of an integer part; a zero stands alone. -/
def scanWhole : List Char → Option (List Char × List Char)
  | '0' :: cs => some (['0'], cs)
  | cs => scanDigits Char.isDigit cs

/-- An exponent, after its letter. -/
def scanExponent (cs : List Char) : Option (Int × List Char) :=
  match cs with
  | '-' :: r => (scanDigits Char.isDigit r).map fun (ds, rest) => (-(ofDigits 10 ds : Int), rest)
  | '+' :: r => (scanDigits Char.isDigit r).map fun (ds, rest) => ((ofDigits 10 ds : Int), rest)
  | r => (scanDigits Char.isDigit r).map fun (ds, rest) => ((ofDigits 10 ds : Int), rest)

def scanReal (negative : Bool) (whole fraction cs : List Char) : Option (Value × List Char) := do
  match cs with
  | 'e' :: r | 'E' :: r =>
    let (exponent, rest) ← scanExponent r
    return (.real (← realOf? negative whole fraction exponent), rest)
  | rest => return (.real (← realOf? negative whole fraction 0), rest)

def scanUnsigned (negative : Bool) (cs : List Char) : Option (Value × List Char) :=
  match cs with
  | 'i' :: 'n' :: 'f' :: r => some (.real (.infinite negative), r)
  | 'n' :: 'a' :: 'n' :: r => some (.real .notANumber, r)
  | cs => do
    let (whole, rest) ← scanWhole cs
    match rest with
    | '.' :: r =>
      let (fraction, rest) ← scanDigits Char.isDigit r
      scanReal negative whole fraction rest
    | 'e' :: _ | 'E' :: _ => scanReal negative whole [] rest
    | _ => return (← integerOf? negative (ofDigits 10 whole), rest)

def scanBased (base : Nat) (isDigit : Char → Bool) (cs : List Char) :
    Option (Value × List Char) := do
  let (ds, rest) ← scanDigits isDigit cs
  return (← integerOf? false (ofDigits base ds), rest)

def scanNumber : List Char → Option (Value × List Char)
  | '+' :: r => scanUnsigned false r
  | '-' :: r => scanUnsigned true r
  | '0' :: 'x' :: r => scanBased 16 (fun c => (Json.hexValue? c).isSome) r
  | '0' :: 'o' :: r => scanBased 8 (fun c => '0' ≤ c && c ≤ '7') r
  | '0' :: 'b' :: r => scanBased 2 (fun c => c = '0' || c = '1') r
  | r => scanUnsigned false r

/-! ### Dates and times -/

/-- The number that two digits write, if it lies within bounds. -/
def twoDigits? (low high : Nat) (a b : Char) : Option Nat :=
  let n := ofDigits 10 [a, b]
  if a.isDigit && b.isDigit && low ≤ n && n ≤ high then some n else none

def daysOf (year month : Nat) : Nat :=
  if month = 2 then if year % 4 = 0 ∧ (year % 100 ≠ 0 ∨ year % 400 = 0) then 29 else 28
  else if month = 4 ∨ month = 6 ∨ month = 9 ∨ month = 11 then 30
  else 31

def skipDate? : List Char → Option (List Char)
  | a :: b :: c :: d :: '-' :: m :: n :: '-' :: x :: y :: rest => do
    if [a, b, c, d].all Char.isDigit then
      let month ← twoDigits? 1 12 m n
      let _ ← twoDigits? 1 (daysOf (ofDigits 10 [a, b, c, d]) month) x y
      return rest
    else none
  | _ => none

/-- Drops a time of the day; there may be a leap second. -/
def skipTime? : List Char → Option (List Char)
  | a :: b :: ':' :: c :: d :: ':' :: e :: f :: rest => do
    let _ ← twoDigits? 0 23 a b
    let _ ← twoDigits? 0 59 c d
    let _ ← twoDigits? 0 60 e f
    match rest with
    | '.' :: r => if (r.head?.any Char.isDigit) then return r.dropWhile Char.isDigit else none
    | r => return r
  | _ => none

/-- Drops the offset of a time, if there is one. -/
def skipOffset : List Char → List Char
  | 'Z' :: r | 'z' :: r => r
  | sign :: a :: b :: ':' :: c :: d :: r =>
    if (sign = '+' || sign = '-') && (twoDigits? 0 23 a b).isSome && (twoDigits? 0 59 c d).isSome
    then r
    else sign :: a :: b :: ':' :: c :: d :: r
  | r => r

/-- Drops a date, a time, or both; a blank may stand between them. -/
def skipMoment? (cs : List Char) : Option (List Char) :=
  match skipDate? cs with
  | none => skipTime? cs
  | some [] => some []
  | some (c :: r) =>
    match if c = 'T' || c = 't' || c = ' ' then skipTime? r else none with
    | some rest => some (skipOffset rest)
    | none => some (c :: r)

/-- A number, a date or a time. -/
def scanNumberOrMoment (cs : List Char) : Option (Value × List Char) :=
  match skipMoment? cs with
  | some rest => some (.moment, rest)
  | none => scanNumber cs

end RdfXmlMapping.Toml
