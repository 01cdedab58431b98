import RdfXmlMapping.Json.Doc

/-! Numbers in JSON. -/

namespace RdfXmlMapping.Json

open Decimal

/-- The greatest integer that is kept digit by digit. -/
def maxSignificand : Nat := UInt64.size - 1

def digitValue (c : Char) : Nat := c.toNat - '0'.toNat

/-- A number taken in digit by digit: a significand, a power of ten, and whether digits have been
dropped. -/
structure Scaled where
  significand : Nat := 0
  exponent : Int := 0
  full : Bool := false
  deriving DecidableEq, Repr

/-- A further digit before the point; once the significand is full, digits only raise the power. -/
def Scaled.pushInteger (s : Scaled) (c : Char) : Scaled :=
  if s.full then { s with exponent := s.exponent + 1 }
  else if s.significand * 10 + digitValue c > maxSignificand then
    { s with full := true, exponent := s.exponent + 1 }
  else { s with significand := s.significand * 10 + digitValue c }

/-- A further digit after the point; once the significand is full, digits are dropped. -/
def Scaled.pushFraction (s : Scaled) (c : Char) : Scaled :=
  if s.full then s
  else if s.significand * 10 + digitValue c > maxSignificand then { s with full := true }
  else
    { s with significand := s.significand * 10 + digitValue c, exponent := s.exponent - 1 }

/-- The rounded value of a significand times a power of ten, one factor of at most `10 ^ 308` at a
time; nothing if it is too large. -/
def scaleBy? (b : Binary) (exponent : Int) : Nat → Option Binary
  | 0 => some b
  | fuel + 1 =>
    if exponent.natAbs ≤ 308 then
      if exponent ≥ 0 then b.timesTenPow? exponent.toNat else b.overTenPow? exponent.natAbs
    else if b.significand = 0 then some b
    else if exponent ≥ 0 then none
    else match b.overTenPow? 308 with
      | some b => scaleBy? b (exponent + 308) fuel
      | none => none

def Scaled.value? (s : Scaled) : Option Binary := do
  scaleBy? (← Binary.round? s.significand 1) s.exponent 8

def fractionOf (negative : Bool) (s : Scaled) : Except Fault Number :=
  match s.value? with
  | some b => .ok (.fraction negative b)
  | none => .error .malformed

/-- A number without point and exponent: an integer if it is at most 64 bits wide and not minus
zero. -/
def integerOf (negative : Bool) (s : Scaled) : Except Fault Number :=
  if s.full then fractionOf negative s
  else if !negative then .ok (.integer s.significand)
  else if s.significand = 0 ∨ s.significand > Nat.pow 2 63 then fractionOf true s
  else .ok (.integer (-(s.significand : Int)))

/-- The digits at the beginning of a text, and the rest. -/
def spanDigits (cs : List Char) : List Char × List Char := cs.span Char.isDigit

/-- What a scan of a number yields: content, fault for a reader who passes over it, and rest. -/
structure Numeral where
  read : Except Fault Number
  skip : Option Fault
  rest : List Char

/-- A numeral that stops at a fault. -/
def Numeral.stop (read skip : Fault) : Numeral := ⟨.error read, some skip, []⟩

/-- The exponent of a number, from the letter on. Where the text ends too early, a reader who passes
over it takes it for malformed. -/
def scanExponent (negative : Bool) (s : Scaled) (cs : List Char) : Numeral :=
  let (minus, cs) := match cs with
    | '+' :: r => (false, r)
    | '-' :: r => (true, r)
    | r => (false, r)
  match spanDigits cs with
  | ([], []) => .stop .truncated .malformed
  | ([], _) => .stop .malformed .malformed
  | (ds, rest) =>
    let e : Int := (ds.foldl (fun n c => n * 10 + digitValue c) 0 : Nat)
    if e ≥ Nat.pow 2 31 then
      if s.significand = 0 ∨ minus then
        ⟨.ok (.fraction negative ⟨0, Binary.minExponent⟩), none, rest⟩
      else ⟨.error .malformed, none, rest⟩
    else
      ⟨fractionOf negative { s with exponent := if minus then s.exponent - e else s.exponent + e },
        none, rest⟩

def scanFraction (negative : Bool) (s : Scaled) (cs : List Char) : Numeral :=
  match spanDigits cs with
  | ([], []) => .stop .truncated .malformed
  | ([], _) => .stop .malformed .malformed
  | (ds, rest) =>
    let s := ds.foldl Scaled.pushFraction { s with full := false }
    match rest with
    | 'e' :: r | 'E' :: r => scanExponent negative s r
    | _ => ⟨fractionOf negative s, none, rest⟩

/-- The number at the beginning of a text, after its sign. A zero ends the integer part. -/
def scanUnsigned (negative : Bool) (cs : List Char) : Numeral :=
  match spanDigits cs with
  | ([], []) => .stop .truncated .malformed
  | ([], _) => .stop .malformed .malformed
  | ('0' :: _ :: _, _) => .stop .malformed .malformed
  | (ds, rest) =>
    let s := ds.foldl Scaled.pushInteger {}
    match rest with
    | '.' :: r => scanFraction negative s r
    | 'e' :: r | 'E' :: r => scanExponent negative s r
    | _ => ⟨integerOf negative s, none, rest⟩

end RdfXmlMapping.Json
