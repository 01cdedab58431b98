import RdfXmlMapping.Proofs.Xml.Markup

/-!
Calls of a writer. Whatever calls are made, and whatever is in their values and texts, the elements
that they describe can be read from what the writer gives (`calls_read`).
-/

namespace RdfXmlMapping.Xml

variable {cs raw rest : List Char} {f : Forest} {name : String} {attributes : Attributes}

/-! ### Calls -/

/-- A call of a writer. -/
inductive Call where
  | start (name : String) (attributes : Attributes)
  | empty (name : String) (attributes : Attributes)
  | text (name : String) (attributes : Attributes) (content : String)
  | stop
  deriving Repr

def Writer.call (w : Writer) : Call → Writer
  | .start name attributes => w.startTag name attributes
  | .empty name attributes => w.emptyTag name attributes
  | .text name attributes content => w.textElement name attributes content
  | .stop => w.endTag

def Forest.call (f : Forest) : Call → Forest
  | .start name attributes => f.enter name attributes
  | .empty name attributes => f.add (.element name attributes [])
  | .text name attributes content => f.add (.element name attributes [.text content])
  | .stop => f.leave

/-- What calls describe; elements that they leave open end after the last call. -/
def described (calls : List Call) : List Tree := (calls.foldl Forest.call {}).trees

/-! ### Lines -/

theorem reading?_cut : reading? (cs ++ '<' :: rest) =
    (reading? cs).bind ((Text.segments '<' rest).foldlM Forest.piece?) := by
  obtain ⟨first, others, split⟩ := List.exists_cons_of_ne_nil (Text.segments_ne_nil '<' cs)
  rw [reading?, reading?, Text.segments_cut, split]
  simp [List.foldlM_append, Option.bind_assoc]

theorem name_free (named : isPlainName name) : '<' ∉ name.toList :=
  fun member => absurd (isPlainName_all named _ member) (by decide)

theorem startChars_free {empty : Bool} (named : isPlainName name)
    (plain : ∀ a ∈ attributes, isPlainName a.1) : '<' ∉ startChars name attributes empty := by
  have values : '<' ∉ attributes.flatMap attributeChars := by
    intro member
    obtain ⟨a, listed, inside⟩ := List.mem_flatMap.mp member
    have key := name_free (plain a listed)
    have value := escape_free a.2 '<'
    simp_all [attributeChars]
  have last : '<' ∉ tagEnd empty := by cases empty <;> decide
  simp [startChars, name_free named, values, last]

theorem stopChars_free (named : isPlainName name) : '<' ∉ stopChars name := by
  simp [stopChars, name_free named]

/-- A tag with blanks behind it is one piece of a text. -/
theorem segments_piece (free : '<' ∉ cs) (blank : raw.all isSpace) :
    Text.segments '<' (cs ++ raw) = [cs ++ raw] := by
  have spaces : '<' ∉ raw := fun member => absurd (List.all_eq_true.mp blank _ member) (by decide)
  exact Text.segments_of_notMem (by simp [free, spaces])

/-- A text that ends between lines is read as a forest, up to blank texts. Blanks may follow, since
the indentation of the next line is read with the last tag. -/
def ReadsAs (text : String) (f : Forest) : Prop :=
  ∀ blank : List Char, blank.all isSpace → ∃ g,
    reading? (text.toList ++ blank) = some g ∧ g.solid = f.solid

namespace ReadsAs

variable {text line : String} {f' : Forest}

/-- What the tags of a line do to a forest is what the line does, whatever blanks are around it. -/
theorem append (h : ReadsAs text f) (depth : Nat)
    (written : line.toList = (indent depth).toList ++ '<' :: (cs ++ ['\n']))
    (step : ∀ (g : Forest) (raw : List Char), g.solid = f.solid → raw.all isSpace → ∃ g',
      (Text.segments '<' (cs ++ raw)).foldlM Forest.piece? g = some g' ∧ g'.solid = f'.solid) :
    ReadsAs (text ++ line) f' := by
  intro blank spaces
  have indented : (indent depth).toList.all isSpace := by simp [indent, isSpace]
  obtain ⟨g, read, same⟩ := h _ indented
  obtain ⟨g', took, same'⟩ := step g ('\n' :: blank) same (by simpa [isSpace] using spaces)
  have shape : (text ++ line).toList ++ blank =
      (text.toList ++ (indent depth).toList) ++ '<' :: (cs ++ '\n' :: blank) := by
    simp [written]
  exact ⟨g', by rw [shape, reading?_cut, read, Option.bind_some, took], same'⟩

theorem start (h : ReadsAs text f) (depth : Nat) (empty : Bool) (named : isPlainName name)
    (plain : ∀ a ∈ attributes, isPlainName a.1)
    (written : line.toList =
      (indent depth).toList ++ '<' :: (startChars name attributes empty ++ ['\n'])) :
    ReadsAs (text ++ line) (f.tagged name attributes empty) := by
  refine h.append depth written fun g raw same blank => ?_
  obtain ⟨g', added, same'⟩ := Forest.data?_blank (f := g.tagged name attributes empty) blank
  refine ⟨g', ?_, same'.trans (Forest.tagged_congr same)⟩
  rw [segments_piece (startChars_free named plain) blank]
  simp [Forest.piece?_tag named plain, added]

theorem stop (h : ReadsAs text f) (depth : Nat) (named : isPlainName name)
    (innermost : f.stack.head?.map (·.name) = some name) :
    ReadsAs (text ++ endLine depth name) f.leave := by
  have written : (endLine depth name).toList =
      (indent depth).toList ++ '<' :: (stopChars name ++ ['\n']) := by
    simp [endLine, stopChars]
  refine h.append depth written fun g raw same blank => ?_
  have innermost' : g.stack.head?.map (·.name) = some name := by
    rw [← List.head?_map, Forest.names_of_solid same, List.head?_map, innermost]
  obtain ⟨g', added, same'⟩ := Forest.data?_blank (f := g.leave) blank
  refine ⟨g', ?_, by rw [same', Forest.solid_leave, Forest.solid_leave, same]⟩
  rw [segments_piece (stopChars_free named) blank]
  simp [Forest.piece?_stop named innermost', added]

theorem element (h : ReadsAs text f) (depth : Nat) (content : String) (named : isPlainName name)
    (plain : ∀ a ∈ attributes, isPlainName a.1)
    (written : line.toList = (indent depth).toList ++ '<' :: (startChars name attributes false ++
      (escape content).toList ++ '<' :: stopChars name ++ ['\n'])) :
    ReadsAs (text ++ line) (f.add (.element name attributes [.text content])) := by
  refine h.append depth written fun g raw same blank => ?_
  have data : '<' ∉ startChars name attributes false ++ (escape content).toList := by
    have value := escape_free content '<'
    simp_all [startChars_free named plain]
  have shape : startChars name attributes false ++ (escape content).toList ++
      '<' :: stopChars name ++ raw =
      (startChars name attributes false ++ (escape content).toList) ++
        '<' :: (stopChars name ++ raw) := by
    simp
  obtain ⟨inner, entered, innermost, inside, left, solids⟩ :=
    Forest.data?_element g name attributes content
  obtain ⟨g', added, same'⟩ := Forest.data?_blank (f := inner.leave) blank
  refine ⟨g', ?_, ?_⟩
  · rw [shape, Text.segments_cut, Text.segments_of_notMem data,
      segments_piece (stopChars_free named) blank]
    simp [Forest.piece?_tag named plain, Forest.tagged, entered,
      Forest.piece?_stop named innermost, added]
  · rw [same', left, Forest.solid_add, Forest.solid_add, same]
    simp [Tree.isBlank, Tree.solid, solids]

end ReadsAs

/-! ### Runs -/

def Call.isPlain : Call → Bool
  | .start name attributes | .empty name attributes | .text name attributes _ =>
    isPlainName name && attributes.all (isPlainName ·.1)
  | .stop => true

/-- What has been written reads as what has been described, with the same elements open. -/
structure Follows (w : Writer) (f : Forest) : Prop where
  names : w.stack = f.stack.map (·.name)
  plain : ∀ name ∈ w.stack, isPlainName name
  reads : ReadsAs w.text f

namespace Follows

variable {w : Writer}

theorem stop (h : Follows w f) : Follows w.endTag f.leave := by
  obtain ⟨names, plain, reads⟩ := h
  obtain ⟨_ | ⟨e, outer⟩, content⟩ := f
  · rw [Writer.endTag, names]
    exact ⟨names, plain, reads⟩
  · simp only [List.map_cons] at names
    obtain ⟨named, others⟩ := List.forall_mem_cons.mp (names ▸ plain)
    rw [Writer.endTag, names]
    exact ⟨rfl, others, reads.stop _ named rfl⟩

theorem call {c : Call} (h : Follows w f) (plain : c.isPlain) : Follows (w.call c) (f.call c) := by
  cases c with
  | start name attributes =>
    obtain ⟨named, keys⟩ := (Bool.and_eq_true _ _).mp plain
    refine ⟨by simp [Writer.call, Writer.startTag, Forest.call, Forest.enter, h.names], ?_, ?_⟩
    · simpa [Writer.call, Writer.startTag] using ⟨named, h.plain⟩
    · refine h.reads.start w.depth false named (List.all_eq_true.mp keys) ?_
      simp [tag_toList, tagChars, startChars, tagEnd]
  | empty name attributes =>
    obtain ⟨named, keys⟩ := (Bool.and_eq_true _ _).mp plain
    refine ⟨h.names, h.plain, ?_⟩
    refine h.reads.start w.depth true named (List.all_eq_true.mp keys) ?_
    simp [tag_toList, tagChars, startChars, tagEnd]
  | text name attributes content =>
    obtain ⟨named, keys⟩ := (Bool.and_eq_true _ _).mp plain
    refine ⟨h.names, h.plain, ?_⟩
    refine h.reads.element w.depth content named (List.all_eq_true.mp keys) ?_
    simp [tag_toList, tagChars, startChars, stopChars, tagEnd]
  | stop => exact h.stop

theorem foldl {calls : List Call} (h : Follows w f) (plain : ∀ c ∈ calls, c.isPlain) :
    Follows (calls.foldl Writer.call w) (calls.foldl Forest.call f) := by
  induction calls generalizing w f with
  | nil => exact h
  | cons c cs ih =>
    obtain ⟨first, others⟩ := List.forall_mem_cons.mp plain
    exact ih (h.call first) others

end Follows

theorem Writer.finish_endTag (w : Writer) : w.endTag.finish = w.finish := by
  obtain ⟨text, _ | ⟨name, outer⟩, base⟩ := w
  · rfl
  · simp [endTag, finish, endLines, raw, String.append_assoc]

/-- Once the elements that are open have ended, the whole text reads as what has been described. -/
theorem Follows.finish {w : Writer} (h : Follows w f) : ∃ g, reading? w.finish.toList = some g ∧
    g.stack = [] ∧ Tree.solids g.content = Tree.solids f.trees := by
  obtain ⟨stack, content⟩ := f
  induction stack generalizing w content with
  | nil =>
    obtain ⟨g, read, same⟩ := h.reads [] rfl
    have ended : w.finish = w.text := by simp [Writer.finish, h.names, Writer.endLines]
    rw [List.append_nil] at read
    refine ⟨g, ended ▸ read, ?_, congrArg Forest.content same⟩
    simpa using Forest.names_of_solid same
  | cons e outer ih =>
    obtain ⟨g, read, rest⟩ := ih _ h.stop
    rw [Writer.finish_endTag] at read
    exact ⟨g, read, rest⟩

/-- The text of a new writer after calls, at a depth at which it is to stand. -/
def output (base : Nat) (calls : List Call) : String :=
  (calls.foldl Writer.call { base }).finish

theorem follows_new (base : Nat) : Follows { base } {} where
  names := rfl
  plain := by simp
  reads := by
    intro blank spaces
    obtain ⟨g, read, same⟩ := Forest.data?_blank (f := {}) spaces
    refine ⟨g, ?_, same⟩
    have one : Text.segments '<' ([] ++ blank) = [[] ++ blank] := segments_piece (by simp) spaces
    rw [List.nil_append] at one
    simp [reading?, one, read]

/-! ### Markup -/

/-- The characters of a text by which tags and values are told from what is in them. -/
def markup (text : String) : List Char := text.toList.filter ['<', '>', '"'].contains

/-- A call without values and texts. -/
def Call.hollow : Call → Call
  | .start name attributes => .start name (attributes.map fun a => (a.1, ""))
  | .empty name attributes => .empty name (attributes.map fun a => (a.1, ""))
  | .text name attributes _ => .text name (attributes.map fun a => (a.1, "")) ""
  | .stop => .stop

theorem markup_append (s t : String) : markup (s ++ t) = markup s ++ markup t := by
  simp [markup]

theorem markup_escape (v : String) : markup (escape v) = [] := by
  rw [markup, List.filter_eq_nil_iff]
  intro c member
  simpa using escape_free v c member

/-- Two writers have the same elements open, and have written the same markup. -/
structure SameMarkup (w w' : Writer) : Prop where
  stack : w.stack = w'.stack
  base : w.base = w'.base
  text : markup w.text = markup w'.text

theorem markup_tag (name : String) (attributes : Attributes) :
    markup (tag name attributes) = markup (tag name (attributes.map fun a => (a.1, ""))) := by
  have value (v : String) : (escape v).toList.filter ['<', '>', '"'].contains = [] :=
    markup_escape v
  have hollow (a : String × String) : (attributeChars a).filter ['<', '>', '"'].contains =
      (attributeChars (a.1, "")).filter ['<', '>', '"'].contains := by
    simp [attributeChars, value]
  simp [markup, tag_toList, tagChars, List.filter_flatMap, List.flatMap_map, hollow]

theorem SameMarkup.call {w w' : Writer} (h : SameMarkup w w') (c : Call) :
    SameMarkup (w.call c) (w'.call c.hollow) := by
  obtain ⟨stack, base, text⟩ := h
  have depth : w.depth = w'.depth := by rw [Writer.depth, Writer.depth, stack, base]
  cases c with
  | start name attributes =>
    refine ⟨by simp [Writer.call, Writer.startTag, Call.hollow, stack], base, ?_⟩
    simp [Writer.call, Writer.startTag, Writer.raw, Call.hollow, markup_append, text, depth,
      ← markup_tag]
  | empty name attributes =>
    refine ⟨stack, base, ?_⟩
    simp [Writer.call, Writer.emptyTag, Writer.raw, Call.hollow, markup_append, text, depth,
      ← markup_tag]
  | text name attributes content =>
    refine ⟨stack, base, ?_⟩
    simp [Writer.call, Writer.textElement, Writer.raw, Call.hollow, markup_append, text, depth,
      ← markup_tag, markup_escape]
  | stop =>
    simp only [Writer.call, Call.hollow, Writer.endTag, stack]
    split
    · exact ⟨stack, base, text⟩
    · exact ⟨rfl, base, by simp [Writer.raw, markup_append, text, base]⟩

theorem SameMarkup.foldl {w w' : Writer} (h : SameMarkup w w') (calls : List Call) :
    SameMarkup (calls.foldl Writer.call w) ((calls.map Call.hollow).foldl Writer.call w') := by
  induction calls generalizing w w' with
  | nil => exact h
  | cons c cs ih => exact ih (h.call c)

theorem SameMarkup.finish {w w' : Writer} (h : SameMarkup w w') :
    markup w.finish = markup w'.finish := by
  simp [Writer.finish, markup_append, h.text, h.stack, h.base]

/-- What a new writer gives for calls, whatever values and texts they have, reads as the elements
that the calls describe, up to blank texts, and its markup is that of the calls without values and
texts. -/
theorem calls_read {calls : List Call} (plain : ∀ c ∈ calls, c.isPlain) (base : Nat) :
    (read? (output base calls)).map Tree.solids = some (Tree.solids (described calls)) ∧
    markup (output base calls) = markup (output base (calls.map Call.hollow)) := by
  constructor
  · obtain ⟨f, read, ended, same⟩ := ((follows_new base).foldl plain).finish
    rw [read?, output, read]
    simp [ended, same, described]
  · have start : SameMarkup { base } { base } := ⟨rfl, rfl, rfl⟩
    exact (start.foldl calls).finish

/-- Calls with one end too many after the first element, and none for the last. -/
def ledgerCalls : List Call :=
  [.start "ledger" [("owner", "A & \"B\"")], .text "entry" [] "<1>", .stop, .stop,
    .start "notes" [], .empty "note" [("of", "x>y")]]

theorem calls_read_ledger : (∀ c ∈ ledgerCalls, c.isPlain) ∧
    (read? (output 0 ledgerCalls)).map Tree.solids = some [
      .element "ledger" [("owner", "A & \"B\"")] [.element "entry" [] [.text "<1>"]],
      .element "notes" [] [.element "note" [("of", "x>y")] []]] ∧
    markup (output 0 ledgerCalls) = markup (output 0 (ledgerCalls.map Call.hollow)) := by
  have plain : ∀ c ∈ ledgerCalls, c.isPlain := by decide
  exact ⟨plain, calls_read plain 0⟩

end RdfXmlMapping.Xml
