/-! Sets of code points written as increasing, disjoint ranges, and the property White_Space. -/

namespace RdfXmlMapping.Unicode

/-- Whether `n` lies in one of the ranges; both ends belong to a range, and a range that starts
above `n` ends the search. -/
def inRanges : List (Nat × Nat) → Nat → Bool
  | [], _ => false
  | (first, last) :: rest, n =>
    if n < first then false else if n ≤ last then true else inRanges rest n

/-- Ranges of code points with the property White_Space, in order. -/
def blankRanges : List (Nat × Nat) :=
  [(0x9, 0xD), (0x20, 0x20), (0x85, 0x85), (0xA0, 0xA0), (0x1680, 0x1680), (0x2000, 0x200A),
    (0x2028, 0x2029), (0x202F, 0x202F), (0x205F, 0x205F), (0x3000, 0x3000)]

/-- A character with the property White_Space. -/
def isBlank (c : Char) : Bool :=
  inRanges blankRanges c.toNat

end RdfXmlMapping.Unicode
