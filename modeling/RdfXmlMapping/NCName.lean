import RdfXmlMapping.Unicode.Word

/-!
Names without a colon, as elements, types and predicates need them, and the cut of an IRI into a
namespace and such a name. `toNCName_of_isNCName`: a text that is a name already stays as it is.
-/

namespace RdfXmlMapping.NCName

def isStart (c : Char) : Bool := Unicode.isAlphabetic c || c = '_'

def isAlphanumeric (c : Char) : Bool := Unicode.isAlphabetic c || Unicode.isNumeric c

def isPart (c : Char) : Bool := isAlphanumeric c || c = '_' || c = '-' || c = '.'

/-- A non-empty text that begins with a start character and goes on with name characters. -/
def isNCNameChars : List Char → Bool
  | [] => false
  | c :: cs => isStart c && cs.all isPart

/-- The character itself if it may stand in a name, else an underscore. -/
def replaceInvalid (c : Char) : Char := if isPart c then c else '_'

/-- An underscore in front unless the text begins like a name. -/
def withStart : List Char → List Char
  | [] => ['_']
  | c :: cs => if isStart c then c :: cs else '_' :: c :: cs

end RdfXmlMapping.NCName

namespace RdfXmlMapping

open NCName

def isNCName (s : String) : Bool := isNCNameChars s.toList

/-- The name made from a label: what may not stand in a name becomes an underscore. -/
def toNCName (label : String) : String :=
  .ofList (withStart (label.toList.map replaceInvalid))

/-- The name of the template of a class, made from the identity of the class so that stylesheets of
different specifications can call each other's templates. -/
def templateName (iri : String) : String :=
  .ofList ('_' :: iri.toList.map fun c => if c.isAlphanum then c else '_')

theorem NCName.isPart_of_isStart {c : Char} (h : isStart c) : isPart c := by
  simp only [isStart, isPart, isAlphanumeric, Bool.or_eq_true, decide_eq_true_eq] at *
  grind

theorem toNCName_of_isNCName {s : String} (h : isNCName s) : toNCName s = s := by
  rw [isNCName] at h
  rw [toNCName]
  cases hs : s.toList with
  | nil => simp [hs, isNCNameChars] at h
  | cons c cs =>
    rw [hs, isNCNameChars, Bool.and_eq_true, List.all_eq_true] at h
    have hmap : (c :: cs).map replaceInvalid = c :: cs := by
      refine (List.map_congr_left ?_).trans (List.map_id _)
      intro d hd
      rcases List.mem_cons.mp hd with rfl | hd
      · simp [replaceInvalid, isPart_of_isStart h.1, id]
      · simp [replaceInvalid, h.2 d hd, id]
    rw [hmap, withStart, if_pos h.1, ← hs, String.ofList_toList]

/-! ### Local names of IRIs -/

namespace Iri

def isDelimiter (c : Char) : Bool := c = '#' || c = '/'

/-- The text up to and with the last delimiter and the text after it. -/
def splitChars? (cs : List Char) : Option (List Char × List Char) :=
  match cs.reverse.dropWhile (!isDelimiter ·) with
  | [] => none
  | before => some (before.reverse, (cs.reverse.takeWhile (!isDelimiter ·)).reverse)

/-- A local name is a name without a colon; a query would read a final point as the end of a
triple. -/
def isLocalName (cs : List Char) : Bool :=
  NCName.isNCNameChars cs && cs.getLast? != some '.'

/-- Namespace and local name of an IRI, if what follows the last delimiter is a local name. -/
def split? (iri : String) : Option (String × String) :=
  match splitChars? iri.toList with
  | some (namespaceChars, localChars) =>
    if isLocalName localChars then some (.ofList namespaceChars, .ofList localChars) else none
  | none => none

end Iri

end RdfXmlMapping
