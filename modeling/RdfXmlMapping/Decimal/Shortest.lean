/-!
Binary fractions of 53 significant bits: rounding of an exact quotient to the nearest of them, and
the decimal with the fewest digits that rounds to one.
-/

namespace RdfXmlMapping.Decimal

/-- The number `significand * 2 ^ exponent`, with a significand below `2 ^ 53` and an exponent of at
least `-1074`. A significand below `2 ^ 52` occurs with the least exponent only. -/
structure Binary where
  significand : Nat
  exponent : Int
  deriving DecidableEq, Repr

namespace Binary

/-- The least exponent. -/
def minExponent : Int := -1074

def maxExponent : Int := 971

/-- Numerator and denominator of `(num / den) / 2 ^ exponent`. -/
def unscale (num den : Nat) (exponent : Int) : Nat × Nat :=
  if exponent ≥ 0 then (num, den * Nat.pow 2 exponent.toNat)
  else (num * Nat.pow 2 (-exponent).toNat, den)

/-- The quotient rounded to the nearest integer; halfway between two, the even one is taken. -/
def roundDiv (num den : Nat) : Nat :=
  let q := num / den
  let twice := 2 * (num % den)
  if twice > den ∨ (twice = den ∧ q % 2 = 1) then q + 1 else q

/-- The exponent that gives `num / den` a significand of 53 bits, but not below the least one. -/
def exponentOf (num den : Nat) : Int :=
  let guess : Int := (num.log2 : Int) - (den.log2 : Int) - 52
  let (n, d) := unscale num den guess
  max minExponent (if n < Nat.pow 2 52 * d then guess - 1 else guess)

/-- The binary fraction nearest to `num / den`, or nothing if it is too large. -/
def round? (num den : Nat) : Option Binary :=
  if num = 0 then some ⟨0, minExponent⟩
  else
    let e := exponentOf num den
    let (n, d) := unscale num den e
    let m := roundDiv n d
    let (m, e) := if m = Nat.pow 2 53 then (Nat.pow 2 52, e + 1) else (m, e)
    if e > maxExponent then none else some ⟨m, e⟩

def ratio (b : Binary) : Nat × Nat :=
  if b.exponent ≥ 0 then (b.significand * Nat.pow 2 b.exponent.toNat, 1)
  else (b.significand, Nat.pow 2 (-b.exponent).toNat)

def timesTenPow? (b : Binary) (power : Nat) : Option Binary :=
  match round? (Nat.pow 10 power) 1 with
  | none => none
  | some ten =>
    let (n, d) := b.ratio
    let (n', d') := ten.ratio
    round? (n * n') (d * d')

def overTenPow? (b : Binary) (power : Nat) : Option Binary :=
  match round? (Nat.pow 10 power) 1 with
  | none => none
  | some ten =>
    let (n, d) := b.ratio
    let (n', d') := ten.ratio
    round? (n * d') (d * n')

end Binary

/-! ### Shortest decimals -/

/-- The decimal `digits * 10 ^ exponent`. -/
structure Digits where
  digits : Nat
  exponent : Int
  deriving DecidableEq, Repr

/-- The reals that round to a binary fraction, as numerators over a common denominator. Both ends
belong to it exactly if the significand is even. -/
structure Interval where
  low : Nat
  value : Nat
  high : Nat
  den : Nat
  closed : Bool

/-- The interval reaches halfway to the two neighbours; the lower one is nearer at a power of two.
-/
def Binary.interval (b : Binary) : Interval :=
  let quarter := b.exponent - 2
  let scale (n : Nat) : Nat := if quarter ≥ 0 then n * Nat.pow 2 quarter.toNat else n
  { low := scale (4 * b.significand -
      (if b.significand = Nat.pow 2 52 ∧ b.exponent > Binary.minExponent then 1 else 2))
    value := scale (4 * b.significand)
    high := scale (4 * b.significand + 2)
    den := if quarter ≥ 0 then 1 else Nat.pow 2 (-quarter).toNat
    closed := b.significand % 2 = 0 }

/-- Whether `num / den` rounds to the number of the interval. -/
def Interval.holds (i : Interval) (num den : Nat) : Bool :=
  let n := num * i.den
  if i.closed then i.low * den ≤ n && n ≤ i.high * den else i.low * den < n && n < i.high * den

def Digits.ratio (d : Digits) : Nat × Nat :=
  if d.exponent ≥ 0 then (d.digits * Nat.pow 10 d.exponent.toNat, 1)
  else (d.digits, Nat.pow 10 (-d.exponent).toNat)

/-- Of the multiples of `10 ^ exponent` next to the value, the nearest one that rounds to it. -/
def Interval.onGrid? (i : Interval) (exponent : Int) : Option Digits :=
  let (num, den) :=
    if exponent ≥ 0 then (i.value, i.den * Nat.pow 10 exponent.toNat)
    else (i.value * Nat.pow 10 (-exponent).toNat, i.den)
  let below : Digits := ⟨num / den, exponent⟩
  let above : Digits := ⟨num / den + 1, exponent⟩
  let fits (d : Digits) : Bool := i.holds d.ratio.1 d.ratio.2
  match fits below, fits above with
  | true, true =>
    let twice := 2 * (num % den)
    if twice < den ∨ (twice = den ∧ below.digits % 2 = 0) then some below else some above
  | true, false => some below
  | false, true => some above
  | false, false => none

def digitCount (n : Nat) : Nat := (toString n).length

/-- The first hit on ever finer grids; seventeen digits always suffice. -/
def Interval.search (i : Interval) (exponent : Int) : Nat → Digits
  | 0 => (i.onGrid? exponent).getD ⟨i.value / i.den, 0⟩
  | tries + 1 => match i.onGrid? exponent with
    | some d => d
    | none => i.search (exponent - 1) tries

/-- The shortest decimal of a positive binary fraction, without zeros at the end. -/
def Binary.shortest (b : Binary) : Digits :=
  let i := b.interval
  let magnitude : Int := (digitCount i.value : Int) - (digitCount i.den : Int)
  trim (i.search (magnitude + 1) 40) 20
where
  trim (d : Digits) : Nat → Digits
    | 0 => d
    | fuel + 1 => if d.digits ≠ 0 ∧ d.digits % 10 = 0
        then trim ⟨d.digits / 10, d.exponent + 1⟩ fuel else d

/-- How a decimal is written: in positional notation while the exponent of its first digit lies
within bounds, else with an exponent of at least so many digits. -/
structure Layout where
  leastPositional : Int
  mostPositional : Int
  exponentDigits : Nat

/-- A number as text, with at least one digit after the point in positional notation. -/
def Digits.layOut (d : Digits) (l : Layout) : String :=
  let digits := (toString d.digits).toList
  let first : Int := d.exponent + digits.length - 1
  if d.digits = 0 then "0.0"
  else if l.leastPositional ≤ first ∧ first ≤ l.mostPositional then
    if d.exponent ≥ 0 then
      .ofList (digits ++ List.replicate d.exponent.toNat '0' ++ ['.', '0'])
    else if first < 0 then
      .ofList (['0', '.'] ++ List.replicate (-first - 1).toNat '0' ++ digits)
    else
      .ofList (digits.take (first.toNat + 1) ++ '.' :: digits.drop (first.toNat + 1))
  else
    let mantissa := match digits with
      | [] => []
      | [c] => [c]
      | c :: cs => c :: '.' :: cs
    let power := (toString first.natAbs).toList
    .ofList (mantissa ++ ['e', if first < 0 then '-' else '+'] ++
      List.replicate (l.exponentDigits - power.length) '0' ++ power)

end RdfXmlMapping.Decimal
