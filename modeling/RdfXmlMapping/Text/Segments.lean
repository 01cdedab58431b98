/-!
Texts cut into segments at a separator, and texts as sets, listed in order. `joinSegments_segments`
says that joining the segments gives the text back.
-/

namespace RdfXmlMapping.Text

/-- The pieces of a text between the occurrences of `sep`; there is always at least one. -/
def segments (sep : Char) : List Char → List (List Char)
  | [] => [[]]
  | c :: cs =>
    if c = sep then [] :: segments sep cs
    else match segments sep cs with
      | [] => [[c]]
      | s :: ss => (c :: s) :: ss

/-- The pieces with `sep` between each two. -/
def joinSegments (sep : Char) : List (List Char) → List Char
  | [] => []
  | [s] => s
  | s :: ss => s ++ sep :: joinSegments sep ss

/-- The lines of a text: a line feed ends a line, a carriage return before it belongs to the line
end, and a text that ends in a line feed has no empty line after it. -/
def lines (cs : List Char) : List (List Char) :=
  let pieces := segments '\n' cs
  let pieces := if pieces.getLast? = some [] then pieces.dropLast else pieces
  let ended := if cs.getLast? = some '\n' then pieces.length else pieces.length - 1
  pieces.mapIdx fun i l => if i < ended && l.getLast? = some '\r' then l.dropLast else l

theorem segments_ne_nil (sep : Char) (cs : List Char) : segments sep cs ≠ [] := by
  cases cs with
  | nil => simp [segments]
  | cons c cs =>
    rw [segments]
    split
    · simp
    · split <;> simp

theorem joinSegments_cons (sep : Char) (s : List Char) {ss : List (List Char)} (h : ss ≠ []) :
    joinSegments sep (s :: ss) = s ++ sep :: joinSegments sep ss := by
  cases ss with
  | nil => exact absurd rfl h
  | cons => rfl

theorem joinSegments_segments (sep : Char) (cs : List Char) :
    joinSegments sep (segments sep cs) = cs := by
  induction cs with
  | nil => rfl
  | cons c cs ih =>
    have hne := segments_ne_nil sep cs
    by_cases h : c = sep
    · simp [segments, h, joinSegments_cons sep [] hne, ih]
    · match hs : segments sep cs, hne with
      | [s], _ =>
        rw [hs] at ih
        simp_all [segments, joinSegments]
      | s :: t :: ss, _ =>
        rw [hs] at ih
        simp_all [segments, joinSegments]

/-! ### Texts as sets -/

/-- The texts in the order of their characters, each once. -/
def sorted (texts : List String) : List String := texts.eraseDups.mergeSort

/-- Whether texts stand before others in the order of dictionaries, or are the same. -/
def notAfter (texts others : List String) : Bool := !others.lex texts

/-- The texts that are not among others. -/
def without (texts others : List String) : List String := texts.filter (!others.contains ·)

end RdfXmlMapping.Text
