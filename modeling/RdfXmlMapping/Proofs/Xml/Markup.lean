import RdfXmlMapping.Proofs.Text.Lines
import RdfXmlMapping.Proofs.Xml.Scanning

/-!
Texts taken for tags, attribute values in double quotes and character data, with nothing known of
how they were written (`read?`). Values and texts are read back from how a writer escapes them, and
so are tags.
-/

namespace RdfXmlMapping.Xml

/-! ### Trees -/

/-- An element or a text. -/
inductive Tree where
  | element (name : String) (attributes : Attributes) (content : List Tree)
  | text (content : String)
  deriving Repr

namespace Tree

def isBlank : Tree → Bool
  | element _ _ _ => false
  | text content => content.toList.all isSpace

mutual

/-- The tree without the blank texts in it. -/
def solid : Tree → Tree
  | element name attributes content => element name attributes (solids content)
  | text content => text content

def solids : List Tree → List Tree
  | [] => []
  | t :: ts => if t.isBlank then solids ts else solid t :: solids ts

end

@[simp]
theorem solids_append (ts us : List Tree) : solids (ts ++ us) = solids ts ++ solids us := by
  induction ts with
  | nil => rfl
  | cons t ts ih =>
    rw [List.cons_append, solids, solids, ih]
    split <;> rfl

end Tree

/-- An element that has not ended, and what stands before it. -/
structure Opened where
  name : String
  attributes : Attributes
  before : List Tree

/-- The elements that have not ended, the innermost first, and what is in the innermost one; where
there is none, what stands outside all elements. -/
structure Forest where
  stack : List Opened := []
  content : List Tree := []

namespace Forest

def add (f : Forest) (t : Tree) : Forest := { f with content := f.content ++ [t] }

def enter (f : Forest) (name : String) (attributes : Attributes) : Forest where
  stack := ⟨name, attributes, f.content⟩ :: f.stack
  content := []

/-- Ends the innermost element, if there is one. -/
def leave (f : Forest) : Forest :=
  match f.stack with
  | [] => f
  | e :: outer => ⟨outer, e.before ++ [.element e.name e.attributes f.content]⟩

def closed : List Opened → List Tree → List Tree
  | [], content => content
  | e :: outer, content => closed outer (e.before ++ [.element e.name e.attributes content])

/-- The trees once all elements have ended. -/
def trees (f : Forest) : List Tree := closed f.stack f.content

def solid (f : Forest) : Forest where
  stack := f.stack.map fun e => { e with before := Tree.solids e.before }
  content := Tree.solids f.content

variable {f g : Forest} {name : String} {attributes : Attributes} {t : Tree}

theorem solid_add : (f.add t).solid = if t.isBlank then f.solid else f.solid.add t.solid := by
  by_cases blank : t.isBlank <;> simp [add, solid, Tree.solids, blank]

theorem solid_enter : (f.enter name attributes).solid = f.solid.enter name attributes := by
  simp [enter, solid, Tree.solids]

theorem solid_leave : f.leave.solid = f.solid.leave := by
  obtain ⟨_ | ⟨e, outer⟩, content⟩ := f <;>
    simp [leave, solid, Tree.solids, Tree.solid, Tree.isBlank]

theorem names_of_solid (same : f.solid = g.solid) :
    f.stack.map (·.name) = g.stack.map (·.name) := by
  have names (f : Forest) : f.stack.map (·.name) = f.solid.stack.map (·.name) := by
    simp [solid]
  rw [names f, names g, same]

end Forest

/-! ### Reading -/

/-- A character of names, which neither ends a name nor is markup. -/
def inName (c : Char) : Bool := !isSpace c && c ∉ ['<', '>', '&', '"', '\'', '/', '=']

/-- Characters with the four entities replaced; every other reference is refused. -/
def unescape? : List Char → Option (List Char)
  | [] => some []
  | '&' :: 'a' :: 'm' :: 'p' :: ';' :: cs => (unescape? cs).map ('&' :: ·)
  | '&' :: 'l' :: 't' :: ';' :: cs => (unescape? cs).map ('<' :: ·)
  | '&' :: 'g' :: 't' :: ';' :: cs => (unescape? cs).map ('>' :: ·)
  | '&' :: 'q' :: 'u' :: 'o' :: 't' :: ';' :: cs => (unescape? cs).map ('"' :: ·)
  | '&' :: _ => none
  | c :: cs => (unescape? cs).map (c :: ·)

/-- Takes in character data. -/
def Forest.data? (f : Forest) (raw : List Char) : Option Forest := do
  let cs ← unescape? raw
  return if cs.isEmpty then f else f.add (.text (.ofList cs))

/-- An attribute, with the space in front of it, and what follows. -/
def attribute? (cs : List Char) : Option ((String × String) × List Char) :=
  let (key, rest) := (skipSpaces cs).span inName
  match skipSpaces rest with
  | '=' :: rest =>
    match skipSpaces rest with
    | '"' :: rest =>
      let (value, rest) := rest.span (· ≠ '"')
      if cs.head?.any isSpace && !key.isEmpty && !rest.isEmpty then
        (unescape? value).map fun value => ((.ofList key, .ofList value), rest.drop 1)
      else none
    | _ => none
  | _ => none

theorem skipSpaces_length (cs : List Char) : (skipSpaces cs).length ≤ cs.length :=
  List.length_dropWhile_le _ _

theorem attribute?_length {cs rest : List Char} {a : String × String}
    (h : attribute? cs = some (a, rest)) : rest.length < cs.length := by
  rw [attribute?, List.span_eq_takeWhile_dropWhile] at h
  dsimp only at h
  split at h
  next r equals =>
    split at h
    next r' quote =>
      rw [List.span_eq_takeWhile_dropWhile] at h
      dsimp only at h
      split at h
      · obtain ⟨_, _, same⟩ := Option.map_eq_some_iff.mp h
        obtain rfl := (Prod.mk.inj same).2
        have first := skipSpaces_length cs
        have key := List.length_dropWhile_le inName (skipSpaces cs)
        have second := skipSpaces_length ((skipSpaces cs).dropWhile inName)
        have third := skipSpaces_length r
        have value := List.length_dropWhile_le (· ≠ '"') r'
        rw [equals, List.length_cons] at second
        rw [quote, List.length_cons] at third
        rw [List.length_drop]
        omega
      · cases h
    next => cases h
  next => cases h

/-- The attributes of a tag, whether it has no content, and what follows the tag. -/
def tagRest? (cs : List Char) : Option (Attributes × Bool × List Char) :=
  match skipSpaces cs with
  | '>' :: rest => some ([], false, rest)
  | '/' :: '>' :: rest => some ([], true, rest)
  | _ =>
    match _ : attribute? cs with
    | none => none
    | some (a, rest) => (tagRest? rest).map fun (attributes, found) => (a :: attributes, found)
termination_by cs.length
decreasing_by exact attribute?_length ‹_›

/-- Takes in a tag and the character data behind it; `cs` is what stands between two occurrences of
the character that begins tags. -/
def Forest.piece? (f : Forest) (cs : List Char) : Option Forest :=
  match cs with
  | '/' :: cs =>
    let (name, rest) := cs.span inName
    match skipSpaces rest, f.stack with
    | '>' :: raw, e :: _ => if e.name = .ofList name then f.leave.data? raw else none
    | _, _ => none
  | cs => do
    let (name, rest) := cs.span inName
    let (attributes, empty, raw) ← tagRest? rest
    if name.isEmpty then none
    else if empty then (f.add (.element (.ofList name) attributes [])).data? raw
    else (f.enter (.ofList name) attributes).data? raw

def reading? (cs : List Char) : Option Forest :=
  match Text.segments '<' cs with
  | [] => none
  | raw :: pieces => do pieces.foldlM Forest.piece? (← Forest.data? {} raw)

/-- The trees of a text; nothing if an element does not end. -/
def read? (text : String) : Option (List Tree) := do
  let f ← reading? text.toList
  if f.stack.isEmpty then some f.content else none

/-! ### Data -/

variable {cs raw rest : List Char} {f : Forest} {name : String} {attributes : Attributes}

theorem unescape?_escapeChar (c : Char) (cs : List Char) :
    unescape? (escapeChar c ++ cs) = (unescape? cs).map (c :: ·) := by
  unfold escapeChar
  split <;> simp_all [unescape?]

theorem unescape?_escape (cs : List Char) : unescape? (cs.flatMap escapeChar) = some cs := by
  induction cs with
  | nil => rfl
  | cons c cs ih => rw [List.flatMap_cons, unescape?_escapeChar, ih, Option.map_some]

theorem unescape?_plain (free : '&' ∉ cs) : unescape? cs = some cs := by
  induction cs with
  | nil => rfl
  | cons c cs ih =>
    have other := List.ne_of_not_mem_cons free
    simp [unescape?, Ne.symm other, ih (List.not_mem_of_not_mem_cons free)]

namespace Forest

theorem data?_of (read : unescape? raw = some cs) :
    f.data? raw = some (if cs.isEmpty then f else f.add (.text (.ofList cs))) := by
  rw [data?, read]
  rfl

theorem data?_escape (content : String) : f.data? (escape content).toList =
    some (if content.toList.isEmpty then f else f.add (.text content)) := by
  rw [escape_toList, data?_of (unescape?_escape _), String.ofList_toList]

/-- The content of an element with a text, and the element once it has ended. -/
theorem data?_element (f : Forest) (name : String) (attributes : Attributes) (content : String) :
    ∃ g, (f.enter name attributes).data? (escape content).toList = some g ∧
    g.stack.head?.map (·.name) = some name ∧
    ∃ inside, g.leave = f.add (.element name attributes inside) ∧
      Tree.solids inside = Tree.solids [.text content] := by
  refine ⟨_, data?_escape content, ?_⟩
  by_cases empty : content.toList.isEmpty
  · rw [if_pos empty]
    refine ⟨rfl, [], rfl, ?_⟩
    simp_all [Tree.solids, Tree.isBlank]
  · rw [if_neg empty]
    exact ⟨rfl, [.text content], rfl, rfl⟩

/-- Blanks add nothing but a blank text. -/
theorem data?_blank (blank : raw.all isSpace) : ∃ g, f.data? raw = some g ∧ g.solid = f.solid := by
  have free : '&' ∉ raw := fun member => absurd (List.all_eq_true.mp blank _ member) (by decide)
  refine ⟨_, data?_of (unescape?_plain free), ?_⟩
  split
  · rfl
  · rw [solid_add, if_pos]
    simpa [Tree.isBlank] using blank

end Forest

/-! ### Tags -/

/-- A name that can be told from what stands around it. -/
def isPlainName (name : String) : Bool := !name.isEmpty && name.toList.all inName

theorem isPlainName_all (plain : isPlainName name) : ∀ c ∈ name.toList, inName c :=
  List.all_eq_true.mp ((Bool.and_eq_true _ _).mp plain).2

theorem isPlainName_start (plain : isPlainName name) :
    ∃ c cs, name.toList = c :: cs ∧ inName c := by
  cases written : name.toList with
  | nil => simp_all [isPlainName]
  | cons c cs => exact ⟨c, cs, rfl, isPlainName_all plain c (by simp [written])⟩

theorem inName_space {c : Char} (plain : inName c) : isSpace c = false := by
  simp_all [inName]

theorem inName_other {c d : Char} (plain : inName c) (other : inName d = false) : c ≠ d := by
  rintro rfl
  simp_all

theorem span_name (plain : isPlainName name) (stop : ∀ c ∈ rest.head?, inName c = false) :
    (name.toList ++ rest).span inName = (name.toList, rest) :=
  Text.span_append (isPlainName_all plain) stop

/-- An attribute as it is written, without the space in front of it. -/
def quoted (a : String × String) : List Char :=
  a.1.toList ++ '=' :: '"' :: ((escape a.2).toList ++ ['"'])

theorem skipSpaces_attribute {a : String × String} (plain : isPlainName a.1) :
    skipSpaces (attributeChars a ++ rest) = quoted a ++ rest := by
  obtain ⟨c, cs, written, start⟩ := isPlainName_start plain
  have shape : attributeChars a ++ rest = ' ' :: (quoted a ++ rest) := by
    simp [attributeChars, quoted]
  rw [shape, skipSpaces, List.dropWhile_cons_of_pos (by decide), quoted, written]
  exact skipSpaces_start (inName_space start)

theorem attribute?_written {a : String × String} (plain : isPlainName a.1) :
    attribute? (attributeChars a ++ rest) = some (a, rest) := by
  obtain ⟨c, cs, written, start⟩ := isPlainName_start plain
  have filled : a.1.toList.isEmpty = false := by simp [written]
  have key : (quoted a ++ rest).span inName =
      (a.1.toList, '=' :: '"' :: ((escape a.2).toList ++ '"' :: rest)) := by
    rw [← span_name plain (by simp [inName])]
    simp [quoted]
  have equals (cs : List Char) : skipSpaces ('=' :: cs) = '=' :: cs := skipSpaces_start rfl
  have quote (cs : List Char) : skipSpaces ('"' :: cs) = '"' :: cs := skipSpaces_start rfl
  have value : ((escape a.2).toList ++ '"' :: rest).span (· ≠ '"') =
      ((escape a.2).toList, '"' :: rest) := by
    refine Text.span_append (fun d member => ?_) (by simp)
    have free := escape_free a.2 d member
    simp_all
  have read : unescape? (escape a.2).toList = some a.2.toList := by
    rw [escape_toList, unescape?_escape]
  have space : (attributeChars a ++ rest).head?.any isSpace := rfl
  rw [attribute?, skipSpaces_attribute plain, key]
  simp only [equals, quote, value]
  rw [if_pos (by rw [space, filled]; rfl), read]
  simp

theorem tagRest?_end (empty : Bool) :
    tagRest? (tagEnd empty ++ rest) = some ([], empty, rest) := by
  cases empty with
  | true =>
    have start : skipSpaces (tagEnd true ++ rest) = '/' :: '>' :: rest := skipSpaces_start rfl
    rw [tagRest?, start]
    rfl
  | false =>
    have start : skipSpaces (tagEnd false ++ rest) = '>' :: rest := skipSpaces_start rfl
    rw [tagRest?, start]
    rfl

theorem tagRest?_written {empty : Bool} (plain : ∀ a ∈ attributes, isPlainName a.1) :
    tagRest? (attributes.flatMap attributeChars ++ (tagEnd empty ++ rest)) =
      some (attributes, empty, rest) := by
  induction attributes with
  | nil => exact tagRest?_end empty
  | cons a as ih =>
    obtain ⟨first, others⟩ := List.forall_mem_cons.mp plain
    obtain ⟨c, cs, written, start⟩ := isPlainName_start first
    rw [List.flatMap_cons, List.append_assoc, tagRest?, skipSpaces_attribute first, quoted, written]
    split
    -- A key begins the attribute, so that the tag does not end here.
    next same => exact absurd (List.cons.inj same).1 (inName_other start rfl)
    next same => exact absurd (List.cons.inj same).1 (inName_other start rfl)
    next =>
      split
      next none => simp [attribute?_written first] at none
      next some =>
        rw [attribute?_written first] at some
        cases some
        rw [ih others]
        rfl

/-- A start tag behind the character that begins it. -/
def startChars (name : String) (attributes : Attributes) (empty : Bool) : List Char :=
  name.toList ++ (attributes.flatMap attributeChars ++ tagEnd empty)

def stopChars (name : String) : List Char := '/' :: (name.toList ++ ['>'])

namespace Forest

/-- The forest behind a start tag. -/
def tagged (f : Forest) (name : String) (attributes : Attributes) (empty : Bool) : Forest :=
  if empty then f.add (.element name attributes []) else f.enter name attributes

theorem tagged_congr {g : Forest} {empty : Bool} (same : g.solid = f.solid) :
    (g.tagged name attributes empty).solid = (f.tagged name attributes empty).solid := by
  cases empty with
  | true => simp [tagged, solid_add, same]
  | false => simp [tagged, solid_enter, same]

theorem piece?_tag {empty : Bool} (named : isPlainName name)
    (plain : ∀ a ∈ attributes, isPlainName a.1) :
    f.piece? (startChars name attributes empty ++ raw) =
      (f.tagged name attributes empty).data? raw := by
  obtain ⟨c, cs, written, start⟩ := isPlainName_start named
  have shape : startChars name attributes empty ++ raw =
      name.toList ++ (attributes.flatMap attributeChars ++ (tagEnd empty ++ raw)) := by
    simp [startChars]
  have stop : ∀ d ∈ (attributes.flatMap attributeChars ++ (tagEnd empty ++ raw)).head?,
      inName d = false := by
    cases attributes <;> cases empty <;> simp [attributeChars, tagEnd, inName, isSpace]
  have found := span_name named stop
  have filled : name.toList.isEmpty = false := by simp [written]
  rw [written] at found
  rw [shape, written, piece?, found]
  · simp only [tagRest?_written plain, Option.bind_eq_bind, Option.bind_some, ← written, filled,
      String.ofList_toList]
    cases empty <;> rfl
  · exact fun cs' same => inName_other start rfl (List.cons.inj same).1

/-- An end tag is taken in where it is that of the innermost element. -/
theorem piece?_stop (named : isPlainName name)
    (innermost : f.stack.head?.map (·.name) = some name) :
    f.piece? (stopChars name ++ raw) = f.leave.data? raw := by
  obtain ⟨e, first, rfl⟩ := Option.map_eq_some_iff.mp innermost
  obtain ⟨outer, stack⟩ := List.head?_eq_some_iff.mp first
  have shape : stopChars e.name ++ raw = '/' :: (e.name.toList ++ '>' :: raw) := by
    simp [stopChars]
  have start : skipSpaces ('>' :: raw) = '>' :: raw := skipSpaces_start rfl
  rw [shape, piece?, span_name named (by simp [inName])]
  simp [start, stack]

end Forest

end RdfXmlMapping.Xml
