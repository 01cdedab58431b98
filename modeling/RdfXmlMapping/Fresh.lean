/-! The first free name in a numbered family. -/

namespace RdfXmlMapping

/-- Tries `start`, `start + 1`, … until the name of the number is not taken, at most `tries` times
further on. -/
def freshFrom (name : Nat → String) (taken : List String) : (tries start : Nat) → Nat
  | 0, start => start
  | tries + 1, start =>
    if taken.contains (name start) then freshFrom name taken tries (start + 1) else start

/-- The first number from `start` on whose name is not taken. If the names of different numbers
differ, one of the first `taken.length + 1` is free. -/
def fresh (name : Nat → String) (taken : List String) (start : Nat) : Nat :=
  freshFrom name taken taken.length start

end RdfXmlMapping
