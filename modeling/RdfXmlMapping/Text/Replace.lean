/-! Finding and replacing a piece of text. -/

namespace RdfXmlMapping.Text

/-- What follows `start` in a text that begins with it. -/
def after? : List Char → List Char → Option (List Char)
  | [], cs => some cs
  | _ :: _, [] => none
  | p :: ps, c :: cs => if p = c then after? ps cs else none

/-- The text before the first occurrence of `piece` and the text after it. -/
def cut? (piece : List Char) : List Char → Option (List Char × List Char)
  | [] => if piece.isEmpty then some ([], []) else none
  | c :: cs =>
    match after? piece (c :: cs) with
    | some rest => some ([], rest)
    | none => (cut? piece cs).map fun (l, r) => (c :: l, r)

/-- Whether `piece` occurs in a text. -/
def occurs (piece cs : List Char) : Bool := (cut? piece cs).isSome

/-- Replaces the occurrences of a non-empty `piece` from left to right, after dropping `skip`
characters. -/
def replaceFrom (piece replacement : List Char) : Nat → List Char → List Char
  | _, [] => []
  | skip + 1, _ :: cs => replaceFrom piece replacement skip cs
  | 0, c :: cs =>
    if piece.isPrefixOf (c :: cs) then
      replacement ++ replaceFrom piece replacement (piece.length - 1) cs
    else c :: replaceFrom piece replacement 0 cs

/-- Replaces every occurrence of `piece`; an empty piece occurs before each character and at the
end. -/
def replaceAll (piece replacement cs : List Char) : List Char :=
  if piece.isEmpty then replacement ++ cs.flatMap (fun c => c :: replacement)
  else replaceFrom piece replacement 0 cs

/-- Replaces the first occurrence of `piece`. -/
def replaceFirst (piece replacement cs : List Char) : List Char :=
  match cut? piece cs with
  | some (l, r) => l ++ replacement ++ r
  | none => cs

end RdfXmlMapping.Text
