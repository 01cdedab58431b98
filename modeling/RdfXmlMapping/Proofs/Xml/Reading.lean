import RdfXmlMapping.Proofs.Xml.Scanning
import RdfXmlMapping.Xml.Element

/-!
Documents read back. What a writer appends for an element are its lines at the depth of the writer,
whatever has been written before (`write_raw`). Where the text of an element is read as a document
at all, the document holds the elements that were written, with their names and attributes in their
namespaces, and nothing else but texts (`parse?_document`).
-/

namespace RdfXmlMapping.Xml

/-! ### The lines of a document -/

section Lines

variable {w : Writer} {name before after : String} {attributes : Attributes}

@[simp]
theorem Writer.raw_raw : (w.raw before).raw after = w.raw (before ++ after) := by
  simp [Writer.raw, String.append_assoc]

@[simp]
theorem Writer.raw_depth : (w.raw before).depth = w.depth := rfl

namespace Element

mutual

/-- An element from the beginning of its first tag to the end of its last. -/
def body (depth : Nat) : Element → String
  | node name attributes children =>
    tag name attributes ++ ">\n" ++ lines (depth + 1) children ++ indent depth ++
      "</" ++ name ++ ">"
  | leaf name attributes => tag name attributes ++ "/>"
  | text name attributes content =>
    tag name attributes ++ ">" ++ escape content ++ "</" ++ name ++ ">"

/-- The lines of several elements. -/
def lines (depth : Nat) : List Element → String
  | [] => ""
  | e :: es => indent depth ++ body depth e ++ "\n" ++ lines depth es

end

/-- The lines between the tags of an element stand one level deeper. -/
theorem endTag_startTag (content : String) :
    ((w.startTag name attributes).raw content).endTag =
      w.raw
        (indent w.depth ++ tag name attributes ++ ">\n" ++ content ++ endLine w.depth name) := by
  simp [Writer.startTag, Writer.endTag, Writer.raw, Writer.depth, String.append_assoc]

theorem startTag_depth : (w.startTag name attributes).depth = w.depth + 1 := by
  simp [Writer.startTag, Writer.depth, Writer.raw, Nat.add_assoc]

mutual

theorem write_raw (w : Writer) : ∀ e : Element,
    write w e = w.raw (indent w.depth ++ body w.depth e ++ "\n")
  | node name attributes children => by
    have ended : ">" ++ "\n" = ">\n" := rfl
    rw [write, writeAll_raw _ children, startTag_depth, endTag_startTag, body, endLine]
    simp [String.append_assoc, ended]
  | leaf name attributes => by
    have ended : "/>" ++ "\n" = "/>\n" := rfl
    rw [write, Writer.emptyTag, body]
    simp [String.append_assoc, ended]
  | text name attributes content => by
    have ended : ">" ++ "\n" = ">\n" := rfl
    rw [write, Writer.textElement, body]
    simp [String.append_assoc, ended]

theorem writeAll_raw (w : Writer) : ∀ es : List Element, writeAll w es = w.raw (lines w.depth es)
  | [] => by simp [writeAll, lines, Writer.raw]
  | e :: es => by
    rw [writeAll, write_raw w e, writeAll_raw _ es, Writer.raw_depth, Writer.raw_raw, lines]

end

theorem document_eq (e : Element) :
    e.document = "<?xml version=\"1.0\" encoding=\"utf-8\"?>\n" ++ body 0 e ++ "\n" := by
  have outermost : ({} : Writer).declaration.depth = 0 := rfl
  have declared : ({} : Writer).declaration.text = "<?xml version=\"1.0\" encoding=\"utf-8\"?>\n" :=
    rfl
  have flush : indent 0 = "" := rfl
  have closed (line : String) : (({} : Writer).declaration.raw line).finish =
      ({} : Writer).declaration.text ++ line := by
    simp [Writer.finish, Writer.raw, Writer.endLines, Writer.declaration]
  rw [document, write_raw, outermost, closed, declared, flush]
  simp [String.append_assoc]

end Element

end Lines

/-! ### The characters of a document -/

mutual

/-- An element from the beginning of its first tag to the end of its last. -/
def chars (depth : Nat) : Element → List Char
  | .node name attributes es =>
    tagChars name attributes ++ '>' :: '\n' :: (charsOf (depth + 1) es ++
      (List.replicate (2 * depth) ' ' ++ '<' :: '/' :: (name.toList ++ ['>'])))
  | .leaf name attributes => tagChars name attributes ++ ['/', '>']
  | .text name attributes content =>
    tagChars name attributes ++ '>' :: ((escape content).toList ++ '<' :: '/' ::
      (name.toList ++ ['>']))

/-- The lines of several elements. -/
def charsOf (depth : Nat) : List Element → List Char
  | [] => []
  | e :: es => List.replicate (2 * depth) ' ' ++ (chars depth e ++ '\n' :: charsOf depth es)

end

mutual

theorem body_toList (depth : Nat) : ∀ e : Element, (e.body depth).toList = chars depth e
  | .node name attributes es => by
    simp [Element.body, chars, tag_toList, indent, lines_toList (depth + 1) es]
  | .leaf name attributes => by simp [Element.body, chars, tag_toList]
  | .text name attributes content => by simp [Element.body, chars, tag_toList]

theorem lines_toList (depth : Nat) : ∀ es, (Element.lines depth es).toList = charsOf depth es
  | [] => rfl
  | e :: es => by
    simp [Element.lines, charsOf, indent, body_toList depth e, lines_toList depth es]

end

-- The bytes of a literal are slow to decode in a closed evaluation; its characters are at hand.
theorem toList_literal {s : String} {cs : List Char} (h : s = .ofList cs) : s.toList = cs := by
  rw [h, String.toList_ofList]

/-- The document that the characters after an XML declaration make. -/
def document? (cs : List Char) : Option Node := do
  let ts ← scanTokens cs.length cs
  let r ← ts.foldlM Reading.step {}
  if r.stack.isEmpty then r.root else none

theorem parse?_chars (e : Element) :
    Node.parse? e.document = document? ('\n' :: (chars 0 e ++ ['\n'])) := by
  have text : e.document.toList = "<?xml version=\"1.0\" encoding=\"utf-8\"?>".toList ++
      '\n' :: (chars 0 e ++ ['\n']) := by
    rw [Element.document_eq]
    simp [body_toList]
  have skipped (rest : List Char) :
      skipDeclaration ("<?xml version=\"1.0\" encoding=\"utf-8\"?>".toList ++ rest) =
        some rest := rfl
  rw [Node.parse?, tokens?, text]
  change ((skipDeclaration ("<?xml version=\"1.0\" encoding=\"utf-8\"?>".toList ++
    '\n' :: (chars 0 e ++ ['\n']))).bind fun body => scanTokens body.length body).bind _ = _
  rw [skipped]
  rfl

/-! ### What is read -/

/-- A start tag as a reader takes it in where `outer` is in scope. -/
def Tagged (outer : Scope) (name : String) (attributes : Attributes) (tag : StartTag) : Prop :=
  ∃ n as, rawName? name = some n ∧ readAttributes? attributes = some as ∧
    StartTag.of? outer n as = some tag

mutual

/-- A node that an element may be read as: what is between the elements right inside it is text. -/
def Reads (outer : Scope) : Element → Node → Prop
  | .node name attributes es, n => ∃ tag content, Tagged outer name attributes tag ∧
      n = .element tag.name tag.attributes tag.scope content ∧
      ReadsAll tag.scope es (content.filter Node.isElement)
  | .leaf name attributes, n | .text name attributes _, n => ∃ tag content,
      Tagged outer name attributes tag ∧
      n = .element tag.name tag.attributes tag.scope content ∧
      content.filter Node.isElement = []

def ReadsAll (outer : Scope) : List Element → List Node → Prop
  | [], ns => ns = []
  | e :: es, ns => ∃ n rest, ns = n :: rest ∧ Reads outer e n ∧ ReadsAll outer es rest

end

mutual

/-- Every name and every key in an element can be told from what stands around it. -/
def isReadable : Element → Bool
  | .node name attributes es => isTagName name && attributes.all (isKey ·.1) && areReadable es
  | .leaf name attributes | .text name attributes _ =>
    isTagName name && attributes.all (isKey ·.1)

def areReadable : List Element → Bool
  | [] => true
  | e :: es => isReadable e && areReadable es

end

theorem areReadable_iff {es : List Element} : areReadable es ↔ ∀ e ∈ es, isReadable e := by
  induction es with
  | nil => simp [areReadable]
  | cons e es ih => simp [areReadable, ih]

theorem areReadable_append {es fs : List Element} :
    areReadable (es ++ fs) = (areReadable es && areReadable fs) := by
  induction es with
  | nil => rfl
  | cons e es ih => simp [areReadable, ih, Bool.and_assoc]

theorem isKey_xmlns {own : String} : isKey ("xmlns:" ++ own) ↔ '=' ∉ own.toList := by
  simp [isKey, isSpace]

/-! ### One token after the other -/

/-- A text takes a reader from one state to another. -/
def Parses (cs : List Char) (r r' : Reading) : Prop :=
  ∃ fuel ts, scanTokens fuel cs = some ts ∧ ts.foldlM Reading.step r = some r'

variable {cs rest : List Char} {r r' : Reading} {name : String} {attributes : Attributes}

theorem parses_nil (h : Parses [] r r') : r' = r := by
  obtain ⟨fuel, ts, scanned, read⟩ := h
  cases fuel <;>
    · obtain rfl := Option.some.inj scanned
      exact (Option.some.inj read).symm

theorem parses_token (filled : cs ≠ []) (h : Parses cs r r') : ∃ token after r₁,
    scanToken cs = some (token, after) ∧ token.toList.foldlM Reading.step r = some r₁ ∧
    Parses after r₁ r' := by
  obtain ⟨fuel, ts, scanned, read⟩ := h
  obtain ⟨c, cs, rfl⟩ := List.exists_cons_of_ne_nil filled
  cases fuel with
  | zero => cases scanned
  | succ fuel =>
    obtain ⟨⟨token, after⟩, first, scanned⟩ := Option.bind_eq_some_iff.mp scanned
    obtain ⟨ts', others, same⟩ := Option.bind_eq_some_iff.mp scanned
    obtain rfl := Option.some.inj same
    rw [List.foldlM_append] at read
    obtain ⟨r₁, now, later⟩ := Option.bind_eq_some_iff.mp read
    exact ⟨token, after, r₁, first, now, fuel, ts', others, later⟩

/-- The step for one token. -/
theorem step_of_fold {token : Token} {r₁ : Reading}
    (h : (some token).toList.foldlM Reading.step r = some r₁) : r.step token = some r₁ := by
  obtain ⟨_, now, later⟩ := Option.bind_eq_some_iff.mp h
  obtain rfl := Option.some.inj later
  exact now

/-- The state with other content in the innermost element. -/
def OpenElement.holding (e : OpenElement) (content : List Node) : OpenElement := { e with content }

variable {o : OpenElement} {outer : List OpenElement} {root : Option Node}

/-- Text between tags adds no element. -/
theorem parses_text {raw : List Char} (plain : '<' ∉ raw)
    (h : Parses (raw ++ '<' :: rest) ⟨o :: outer, root⟩ r') : ∃ content,
      content.filter Node.isElement = o.content.filter Node.isElement ∧
      Parses ('<' :: rest) ⟨o.holding content :: outer, root⟩ r' := by
  by_cases filled : raw = []
  · subst filled
    exact ⟨o.content, rfl, h⟩
  · obtain ⟨token, after, r₁, scanned, read, h⟩ := parses_token (by simp [filled]) h
    obtain ⟨rfl, rfl⟩ := scanToken_text filled plain (.inr rfl) scanned
    obtain ⟨text, _, added⟩ := Option.bind_eq_some_iff.mp (step_of_fold read)
    obtain rfl := Option.some.inj added
    exact ⟨.text (.ofList text) :: o.content, rfl, h⟩

/-- A start tag is read as one element, which is added at once if the tag is closed, and else is
opened. -/
theorem parses_tag (closed : Bool) (good : isTagName name) (keys : attributes.all (isKey ·.1))
    (run : Parses (tagChars name attributes ++ (tagEnd closed ++ rest)) r r') :
    ∃ n tag r₁, rawName? name = some n ∧ Tagged r.scope name attributes tag ∧
      (if closed then r.add (.element tag.name tag.attributes tag.scope [])
        else some { r with stack := ⟨n, tag, []⟩ :: r.stack }) = some r₁ ∧ Parses rest r₁ r' := by
  obtain ⟨token, after, r₁, scanned, read, more⟩ := parses_token (by simp [tagChars]) run
  have written : tagChars name attributes ++ (tagEnd closed ++ rest) =
      '<' :: (name.toList ++ (attributes.flatMap attributeChars ++ (tagEnd closed ++ rest))) := by
    simp [tagChars]
  rw [written] at scanned
  obtain ⟨n, as, named, attributes_read, rfl, rfl⟩ :=
    scanToken_start good (List.all_eq_true.mp keys) scanned
  have now := step_of_fold read
  rw [Reading.step] at now
  split at now
  · cases now
  · obtain ⟨tag, of, now⟩ := Option.bind_eq_some_iff.mp now
    exact ⟨n, tag, r₁, named, ⟨n, as, named, attributes_read, of⟩, now, more⟩

/-- A start tag with content opens an element. -/
theorem parses_open (good : isTagName name) (keys : attributes.all (isKey ·.1))
    (run : Parses (tagChars name attributes ++ '>' :: rest) r r') :
    ∃ n tag, rawName? name = some n ∧ Tagged r.scope name attributes tag ∧
      Parses rest { r with stack := ⟨n, tag, []⟩ :: r.stack } r' := by
  obtain ⟨n, tag, r₁, named, tagged, now, more⟩ := parses_tag false good keys run
  obtain rfl := Option.some.inj now
  exact ⟨n, tag, named, tagged, more⟩

/-- An element without content is added at once. -/
theorem parses_closed (good : isTagName name) (keys : attributes.all (isKey ·.1))
    (run : Parses (tagChars name attributes ++ '/' :: '>' :: rest) r r') :
    ∃ tag r₁, Tagged r.scope name attributes tag ∧
      r.add (.element tag.name tag.attributes tag.scope []) = some r₁ ∧ Parses rest r₁ r' := by
  obtain ⟨_, tag, r₁, _, tagged, now, more⟩ := parses_tag true good keys run
  exact ⟨tag, r₁, tagged, now, more⟩

/-- The end tag adds the innermost element to what is around it. -/
theorem parses_end (good : isTagName name)
    (run : Parses ('<' :: '/' :: (name.toList ++ '>' :: rest)) ⟨o :: outer, root⟩ r') :
    ∃ r₁, Reading.add ⟨outer, root⟩
        (.element o.tag.name o.tag.attributes o.tag.scope o.content.reverse) = some r₁ ∧
      Parses rest r₁ r' := by
  obtain ⟨token, after, r₁, scanned, read, more⟩ := parses_token (by simp) run
  obtain ⟨n, named, rfl, rfl⟩ := scanToken_stop good scanned
  have now := step_of_fold read
  rw [Reading.step] at now
  dsimp only at now
  split at now
  · exact ⟨r₁, now, more⟩
  · cases now

/-! ### Elements -/

theorem chars_start (depth : Nat) (e : Element) : ∃ cs, chars depth e = '<' :: cs := by
  cases e <;> exact ⟨_, rfl⟩

theorem spaces_plain (n : Nat) : '<' ∉ List.replicate n ' ' := by
  intro member
  exact absurd (List.eq_of_mem_replicate member) (by decide)

theorem isElement_of_reads {scope : Scope} {e : Element} {n : Node} (h : Reads scope e n) :
    n.isElement := by
  cases e <;>
    · obtain ⟨tag, content, _, rfl, _⟩ := h
      rfl

mutual

theorem parses_element (depth : Nat) : ∀ (e : Element) (_ : isReadable e) (rest : List Char)
    (r : Reading) (_ : Parses (chars depth e ++ rest) r r'),
    ∃ n r₁, Reads r.scope e n ∧ r.add n = some r₁ ∧ Parses rest r₁ r'
  | .leaf name attributes, readable, rest, r, run => by
    obtain ⟨good, keys⟩ := (Bool.and_eq_true _ _).mp readable
    have written : chars depth (.leaf name attributes) ++ rest =
        tagChars name attributes ++ '/' :: '>' :: rest := by
      simp [chars]
    rw [written] at run
    obtain ⟨tag, r₁, tagged, added, more⟩ := parses_closed good keys run
    exact ⟨_, r₁, ⟨tag, [], tagged, rfl, rfl⟩, added, more⟩
  | .text name attributes content, readable, rest, r, run => by
    obtain ⟨good, keys⟩ := (Bool.and_eq_true _ _).mp readable
    have written : chars depth (.text name attributes content) ++ rest =
        tagChars name attributes ++ '>' :: ((escape content).toList ++ '<' :: '/' ::
          (name.toList ++ '>' :: rest)) := by
      simp [chars]
    have plain : '<' ∉ (escape content).toList := by
      intro member
      simpa using escape_plain content '<' member
    rw [written] at run
    obtain ⟨n, tag, _, tagged, inside⟩ := parses_open good keys run
    obtain ⟨texts, none, closing⟩ := parses_text plain inside
    obtain ⟨r₁, added, more⟩ := parses_end good closing
    refine ⟨_, r₁, ⟨tag, texts.reverse, tagged, rfl, ?_⟩, added, more⟩
    rw [List.filter_reverse, none]
    rfl
  | .node name attributes es, readable, rest, r, run => by
    obtain ⟨front, children⟩ := (Bool.and_eq_true _ _).mp readable
    obtain ⟨good, keys⟩ := (Bool.and_eq_true _ _).mp front
    have written : chars depth (.node name attributes es) ++ rest =
        tagChars name attributes ++ '>' :: (['\n'] ++ (charsOf (depth + 1) es ++
          (List.replicate (2 * depth) ' ' ++ '<' :: '/' :: (name.toList ++ '>' :: rest)))) := by
      simp [chars]
    rw [written] at run
    obtain ⟨n, tag, _, tagged, inside⟩ := parses_open good keys run
    obtain ⟨content, ns, reads, holds, closing⟩ := parses_children (depth + 1) es children
      ['\n'] (by decide) _ (spaces_plain _) _ ⟨n, tag, []⟩ r.stack r.root inside
    obtain ⟨r₁, added, more⟩ := parses_end good closing
    refine ⟨_, r₁, ⟨tag, content.reverse, tagged, rfl, ?_⟩, added, more⟩
    rw [List.filter_reverse, holds]
    simpa using reads

/-- The children of an open element, up to its end tag; `blank` is what stands before them. -/
theorem parses_children (depth : Nat) : ∀ (es : List Element) (_ : areReadable es)
    (blank : List Char) (_ : '<' ∉ blank) (spaces : List Char) (_ : '<' ∉ spaces)
    (rest : List Char) (o : OpenElement) (outer : List OpenElement) (root : Option Node)
    (_ : Parses (blank ++ (charsOf depth es ++ (spaces ++ '<' :: rest)))
      ⟨o :: outer, root⟩ r'),
    ∃ content ns, ReadsAll o.tag.scope es ns ∧
      content.filter Node.isElement = ns.reverse ++ o.content.filter Node.isElement ∧
      Parses ('<' :: rest) ⟨o.holding content :: outer, root⟩ r'
  | [], _, blank, plain, spaces, plain', rest, o, outer, root, run => by
    have written : blank ++ (charsOf depth [] ++ (spaces ++ '<' :: rest)) =
        (blank ++ spaces) ++ '<' :: rest := by
      simp [charsOf]
    rw [written] at run
    obtain ⟨content, same, more⟩ := parses_text (by simp [plain, plain']) run
    exact ⟨content, [], rfl, same, more⟩
  | e :: es, readable, blank, plain, spaces, plain', rest, o, outer, root, run => by
    obtain ⟨first, others⟩ := (Bool.and_eq_true _ _).mp readable
    obtain ⟨start, begins⟩ := chars_start depth e
    have free : '<' ∉ blank ++ List.replicate (2 * depth) ' ' := by
      simp [plain]
    have written : blank ++ (charsOf depth (e :: es) ++ (spaces ++ '<' :: rest)) =
        (blank ++ List.replicate (2 * depth) ' ') ++ '<' :: (start ++
          (['\n'] ++ (charsOf depth es ++ (spaces ++ '<' :: rest)))) := by
      simp [charsOf, begins]
    rw [written] at run
    obtain ⟨content, same, here⟩ := parses_text free run
    rw [← List.cons_append, ← begins] at here
    obtain ⟨n, r₁, reads, added, more⟩ := parses_element depth e first _ _ here
    obtain rfl := Option.some.inj added
    obtain ⟨content', ns, readsAll, holds, closing⟩ := parses_children depth es others
      ['\n'] (by decide) spaces plain' rest (o.holding (n :: content)) outer root more
    refine ⟨content', n :: ns, ⟨n, ns, rfl, reads, readsAll⟩, ?_, closing⟩
    have element := isElement_of_reads reads
    rw [holds]
    simp [OpenElement.holding, element, same]

end

/-! ### Documents -/

/-- Blanks outside the document element are passed over. -/
theorem parses_outside {root : Option Node} {raw : List Char} (blank : raw.all isSpace)
    (next : rest = [] ∨ rest.head? = some '<') (run : Parses (raw ++ rest) ⟨[], root⟩ r') :
    Parses rest ⟨[], root⟩ r' := by
  by_cases filled : raw = []
  · subst filled
    exact run
  · have plain : '<' ∉ raw := fun member =>
      absurd (List.all_eq_true.mp blank '<' member) (by decide)
    obtain ⟨token, after, r₁, scanned, read, more⟩ := parses_token (by simp [filled]) run
    obtain ⟨rfl, rfl⟩ := scanToken_text filled plain next scanned
    have now := step_of_fold read
    rw [Reading.step, if_pos (by rfl), if_pos blank] at now
    obtain rfl := Option.some.inj now
    exact more

/-- The document that is read from the text of an element. -/
theorem parse?_document {e : Element} {n : Node} (readable : isReadable e)
    (h : Node.parse? e.document = some n) : Reads [] e n := by
  rw [parse?_chars] at h
  obtain ⟨ts, scanned, h⟩ := Option.bind_eq_some_iff.mp h
  obtain ⟨r', read, h⟩ := Option.bind_eq_some_iff.mp h
  have run : Parses (['\n'] ++ (chars 0 e ++ ['\n'])) {} r' := ⟨_, ts, scanned, read⟩
  obtain ⟨start, begins⟩ := chars_start 0 e
  have inside := parses_outside (by decide) (.inr (by rw [begins]; rfl)) run
  obtain ⟨n', r₁, reads, added, more⟩ := parses_element 0 e readable _ _ inside
  obtain rfl := Option.some.inj added
  have last : Parses (['\n'] ++ []) _ r' := more
  obtain rfl := parses_nil (parses_outside (by decide) (.inl rfl) last)
  obtain rfl := Option.some.inj h
  exact reads

end RdfXmlMapping.Xml
