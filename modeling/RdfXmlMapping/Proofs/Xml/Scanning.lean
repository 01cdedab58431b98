import RdfXmlMapping.Proofs.NCName
import RdfXmlMapping.Proofs.Text.Lines
import RdfXmlMapping.Xml.Node
import RdfXmlMapping.Xml.Writer

/-!
Tags read back. Where a tag that has been written is read at all, its name and its attributes are
those that were written: no text in it can end a value before its quote
(`scanToken_start`, `scanToken_stop`).
-/

namespace RdfXmlMapping.Xml

/-! ### Names and values -/

/-- The name that a reader finds in a text. -/
def rawName? (text : String) : Option RawName := (scanRawName text.toList).map (·.1)

/-- The value that a reader finds where one has been written. -/
def value? (v : String) : Option String := (attributeValue (escape v).toList).map String.ofList

def readAttributes? (attributes : Attributes) : Option (List (RawName × String)) :=
  attributes.mapM fun a => do return (← rawName? a.1, ← value? a.2)

/-- A name that no reader takes for more or less than one name. -/
def isTagName (name : String) : Bool :=
  !name.isEmpty && name.toList.all fun c => c = ':' || !markupChars.contains c

/-- A text in front of a value that no reader takes for the end of the tag or for a value. -/
def isKey (key : String) : Bool :=
  !key.toList.contains '=' && key.toList.head?.any fun c => !isSpace c && c ≠ '/' && c ≠ '>'

variable {name key : String} {rest after : List Char} {c : Char}

theorem isTagName_plain (h : isTagName name) :
    ∀ c ∈ name.toList, c = ':' ∨ c ∉ markupChars := by
  intro c member
  have all := List.all_eq_true.mp ((Bool.and_eq_true _ _).mp h).2 c member
  simpa using all

theorem isTagName_of (filled : name ≠ "") (plain : ∀ c ∈ name.toList, c = ':' ∨ c ∉ markupChars) :
    isTagName name := by
  refine (Bool.and_eq_true _ _).mpr ⟨by simpa using filled, List.all_eq_true.mpr fun c member => ?_⟩
  simpa using plain c member

theorem isTagName_other (h : isTagName name) (member : c ∈ name.toList) {d : Char}
    (markup : d ∈ markupChars) (other : d ≠ ':') : c ≠ d := by
  rintro rfl
  exact (isTagName_plain h c member).elim other (· markup)

theorem isSpace_of_plain (plain : c ∉ markupChars) : isSpace c = false := by
  refine Bool.eq_false_iff.mpr fun blank => plain ?_
  simp only [isSpace, Bool.or_eq_true, decide_eq_true_eq] at blank
  rcases blank with ((rfl | rfl) | rfl) | rfl <;> decide

theorem isTagName_space (h : isTagName name) (member : c ∈ name.toList) : isSpace c = false := by
  rcases isTagName_plain h c member with rfl | plain
  · rfl
  · exact isSpace_of_plain plain

theorem isKey_equals (h : isKey key) : '=' ∉ key.toList := by
  simpa using ((Bool.and_eq_true _ _).mp h).1

theorem isKey_start (h : isKey key) : ∃ c cs, key.toList = c :: cs ∧ isSpace c = false ∧
    c ≠ '/' ∧ c ≠ '>' := by
  have first := ((Bool.and_eq_true _ _).mp h).2
  cases written : key.toList with
  | nil => simp [written] at first
  | cons c cs =>
    rw [written] at first
    exact ⟨c, cs, rfl, by simpa [and_assoc] using first⟩

/-- A name is found in front of what cannot belong to it, together with what is left of the text. -/
theorem scanRawName_append {cs : List Char} (stop : ∀ c ∈ rest.head?, isNamePart c = false) :
    scanRawName (cs ++ rest) =
      (scanRawName cs).map fun found => (found.1, cs.dropWhile isNamePart ++ rest) := by
  have alone : cs.span isNamePart = (cs.takeWhile isNamePart, cs.dropWhile isNamePart) :=
    List.span_eq_takeWhile_dropWhile _ _
  rw [scanRawName, scanRawName, Text.span_stop stop, alone]
  dsimp only
  split
  · split <;> rfl
  · split <;> rfl
  · rfl

theorem escapeChar_free : ∀ d ∈ escapeChar c, d ∉ ['<', '>', '"'] := by
  unfold escapeChar
  split <;> simp_all

theorem escape_toList (v : String) : (escape v).toList = v.toList.flatMap escapeChar := by
  rw [escape, String.toList_ofList]

/-- Values and texts are written without the characters that begin and end tags and values. -/
theorem escape_free (v : String) : ∀ d ∈ (escape v).toList, d ∉ ['<', '>', '"'] := by
  intro d member
  rw [escape_toList] at member
  obtain ⟨c, _, inside⟩ := List.mem_flatMap.mp member
  exact escapeChar_free d inside

theorem escape_plain (v : String) : ∀ d ∈ (escape v).toList, (d ≠ '"' && d ≠ '<') = true := by
  intro d member
  have free := escape_free v d member
  simp_all

/-! ### Attributes -/

theorem skipSpaces_start (other : isSpace c = false) : skipSpaces (c :: rest) = c :: rest := by
  simp [skipSpaces, other]

theorem skipSpaces_append {cs : List Char} (other : isSpace c = false) :
    skipSpaces (cs ++ c :: rest) = cs.dropWhile isSpace ++ c :: rest := by
  have cut : (cs ++ c :: rest).span isSpace =
      (cs.takeWhile isSpace, cs.dropWhile isSpace ++ c :: rest) :=
    Text.span_stop (by simpa using other)
  rw [List.span_eq_takeWhile_dropWhile] at cut
  exact (Prod.mk.inj cut).2

theorem scanAttribute_read {v : String} {name : RawName} {raw : List Char} (good : isKey key)
    (h : scanAttribute (key.toList ++ '=' :: '"' :: ((escape v).toList ++ '"' :: rest)) =
      some (name, raw, after)) :
    rawName? key = some name ∧ raw = (escape v).toList ∧ after = rest := by
  have stop : ∀ c ∈ ('=' :: '"' :: ((escape v).toList ++ '"' :: rest)).head?,
      isNamePart c = false := by
    intro c first
    obtain rfl := Option.some.inj first
    decide
  have value : ((escape v).toList ++ '"' :: rest).span (fun c => c ≠ '"' && c ≠ '<') =
      ((escape v).toList, '"' :: rest) := Text.span_append (escape_plain v) (by simp)
  rw [scanAttribute, scanRawName_append stop] at h
  cases found : scanRawName key.toList with
  | none => simp [found] at h
  | some pair =>
    obtain ⟨name', left⟩ := pair
    have blanks : skipSpaces (key.toList.dropWhile isNamePart ++ '=' :: '"' ::
        ((escape v).toList ++ '"' :: rest)) =
        (key.toList.dropWhile isNamePart).dropWhile isSpace ++ '=' :: '"' ::
          ((escape v).toList ++ '"' :: rest) := skipSpaces_append rfl
    rw [found] at h
    simp only [Option.map_some, Option.bind_eq_bind, Option.bind_some, blanks] at h
    cases after_name : (key.toList.dropWhile isNamePart).dropWhile isSpace with
    | nil =>
      rw [after_name, List.nil_append] at h
      simp only [skipSpaces_start (c := '"') rfl, value] at h
      split at h
      next =>
        obtain ⟨rfl, rfl, rfl⟩ : name' = name ∧ (escape v).toList = raw ∧ rest = after := by
          simpa using h
        exact ⟨by rw [rawName?, found]; rfl, rfl, rfl⟩
      next => cases h
    | cons d ds =>
      -- A text without an equals sign that is not over here cannot be read on.
      have inside : d ∈ key.toList := by
        have member : d ∈ (key.toList.dropWhile isNamePart).dropWhile isSpace := by
          simp [after_name]
        exact List.dropWhile_subset _ (List.dropWhile_subset _ member)
      have other : d ≠ '=' := fun same => isKey_equals good (same ▸ inside)
      rw [after_name, List.cons_append] at h
      split at h
      next same => exact absurd (List.cons.inj same).1 other
      next => cases h

def attributeChars (a : String × String) : List Char :=
  ' ' :: (a.1.toList ++ '=' :: '"' :: ((escape a.2).toList ++ ['"']))

/-- How a start tag ends. -/
def tagEnd (closed : Bool) : List Char := if closed then ['/', '>'] else ['>']

theorem scanAttributes_end {fuel : Nat} {closed closed' : Bool} {read : List (RawName × String)}
    (h : scanAttributes fuel (tagEnd closed ++ rest) = some (read, closed', after)) :
    read = [] ∧ closed' = closed ∧ after = rest := by
  cases fuel with
  | zero => cases h
  | succ fuel =>
    cases closed with
    | true =>
      have passed : skipSpaces ('/' :: '>' :: rest) = '/' :: '>' :: rest := skipSpaces_start rfl
      obtain ⟨rfl, rfl, rfl⟩ : [] = read ∧ true = closed' ∧ rest = after := by
        simpa [scanAttributes, tagEnd, passed] using h
      exact ⟨rfl, rfl, rfl⟩
    | false =>
      have passed : skipSpaces ('>' :: rest) = '>' :: rest := skipSpaces_start rfl
      obtain ⟨rfl, rfl, rfl⟩ : [] = read ∧ false = closed' ∧ rest = after := by
        simpa [scanAttributes, tagEnd, passed] using h
      exact ⟨rfl, rfl, rfl⟩

theorem scanAttributes_read {attributes : Attributes} {closed closed' : Bool}
    (good : ∀ a ∈ attributes, isKey a.1) {fuel : Nat} {read : List (RawName × String)}
    (h : scanAttributes fuel (attributes.flatMap attributeChars ++ (tagEnd closed ++ rest)) =
      some (read, closed', after)) :
    readAttributes? attributes = some read ∧ closed' = closed ∧ after = rest := by
  induction attributes generalizing fuel read with
  | nil =>
    obtain ⟨rfl, same⟩ := scanAttributes_end h
    exact ⟨rfl, same⟩
  | cons a as ih =>
    obtain ⟨first, others⟩ := List.forall_mem_cons.mp good
    obtain ⟨c, cs, written, solid, slash, angle⟩ := isKey_start first
    cases fuel with
    | zero => cases h
    | succ fuel =>
      let value := '"' :: ((escape a.2).toList ++ '"' ::
        (as.flatMap attributeChars ++ (tagEnd closed ++ rest)))
      have shape : (a :: as).flatMap attributeChars ++ (tagEnd closed ++ rest) =
          ' ' :: (a.1.toList ++ '=' :: value) := by
        simp [attributeChars, value]
      have passed : skipSpaces (' ' :: (a.1.toList ++ '=' :: value)) =
          a.1.toList ++ '=' :: value := by
        rw [written, List.cons_append, skipSpaces, List.dropWhile_cons_of_pos (by decide)]
        exact skipSpaces_start solid
      rw [shape, scanAttributes, passed] at h
      split at h
      next same => exact absurd (List.cons.inj (written ▸ same)).1 slash
      next same => exact absurd (List.cons.inj (written ▸ same)).1 angle
      next =>
        rw [if_pos (by simp [isSpace])] at h
        obtain ⟨⟨name, raw, left⟩, found, h⟩ := Option.bind_eq_some_iff.mp h
        obtain ⟨named, rfl, rfl⟩ := scanAttribute_read first found
        obtain ⟨value, evaluated, h⟩ := Option.bind_eq_some_iff.mp h
        obtain ⟨⟨read', closed'', left⟩, scanned, h⟩ := Option.bind_eq_some_iff.mp h
        obtain ⟨rfl, rfl, rfl⟩ : (name, String.ofList value) :: read' = read ∧ closed'' = closed' ∧
            left = after := by simpa using h
        obtain ⟨rest_read, same⟩ := ih others scanned
        refine ⟨?_, same⟩
        have valued : value? a.2 = some (String.ofList value) := by rw [value?, evaluated]; rfl
        rw [readAttributes?] at rest_read ⊢
        rw [List.mapM_cons, named, valued, rest_read]
        rfl

/-! ### Tags -/

/-- A start tag without its end. -/
def tagChars (name : String) (attributes : Attributes) : List Char :=
  '<' :: (name.toList ++ attributes.flatMap attributeChars)

theorem tag_toList (name : String) (attributes : Attributes) :
    (tag name attributes).toList = tagChars name attributes := by
  have grow (start : String) (attributes : Attributes) :
      (attributes.foldl (fun t a => t ++ attributeText a) start).toList =
        start.toList ++ attributes.flatMap attributeChars := by
    induction attributes generalizing start with
    | nil => simp
    | cons a as ih =>
      rw [List.foldl_cons, ih]
      simp [attributeText, attributeChars]
  rw [tag, grow]
  simp [tagChars]

theorem isTagName_start (h : isTagName name) : ∃ c cs, name.toList = c :: cs ∧ c ≠ '!' ∧ c ≠ '?' ∧
    c ≠ '/' := by
  cases written : name.toList with
  | nil =>
    obtain rfl : name = "" := String.toList_eq_nil_iff.mp written
    cases h
  | cons c cs =>
    have member : c ∈ name.toList := by simp [written]
    exact ⟨c, cs, rfl, isTagName_other h member (by decide) (by decide),
      isTagName_other h member (by decide) (by decide),
      isTagName_other h member (by decide) (by decide)⟩

/-- What is left of a name that is not over holds no space and no end of a tag. -/
theorem left_of_name {d : Char} {ds : List Char} (good : isTagName name)
    (left : name.toList.dropWhile isNamePart = d :: ds) :
    isSpace d = false ∧ d ≠ '/' ∧ d ≠ '>' := by
  have member : d ∈ name.toList := List.dropWhile_subset _ (left ▸ List.mem_cons_self)
  exact ⟨isTagName_space good member, isTagName_other good member (by decide) (by decide),
    isTagName_other good member (by decide) (by decide)⟩

theorem scanToken_start {attributes : Attributes} {closed : Bool} {token : Option Token}
    (good : isTagName name) (keys : ∀ a ∈ attributes, isKey a.1)
    (h : scanToken ('<' :: (name.toList ++ (attributes.flatMap attributeChars ++
      (tagEnd closed ++ rest)))) = some (token, after)) :
    ∃ n as, rawName? name = some n ∧ readAttributes? attributes = some as ∧
      token = some (.start n as closed) ∧ after = rest := by
  obtain ⟨c, cs, written, bang, question, slash⟩ := isTagName_start good
  have stop : ∀ c ∈ (attributes.flatMap attributeChars ++ (tagEnd closed ++ rest)).head?,
      isNamePart c = false := by
    intro c first
    cases attributes with
    | nil =>
      cases closed <;>
        · obtain rfl := Option.some.inj first
          decide
    | cons a as =>
      obtain rfl := Option.some.inj first
      decide
  have first (r : List Char) (d : Char) (other : c ≠ d) (same : name.toList ++
      (attributes.flatMap attributeChars ++ (tagEnd closed ++ rest)) = d :: r) : False :=
    other (List.cons.inj (written ▸ same)).1
  rw [scanToken] at h
  rotate_left
  · exact fun _ same => first _ _ bang same
  · exact fun _ same => first _ _ bang same
  · exact fun _ same => first _ _ question same
  · exact fun _ same => first _ _ slash same
  · obtain ⟨⟨n, left⟩, found, h⟩ := Option.bind_eq_some_iff.mp h
    rw [scanRawName_append stop] at found
    obtain ⟨⟨n', _⟩, named, same⟩ := Option.map_eq_some_iff.mp found
    obtain ⟨rfl, rfl⟩ := Prod.mk.inj same
    obtain ⟨⟨as, closed', left⟩, read, h⟩ := Option.bind_eq_some_iff.mp h
    obtain ⟨rfl, rfl⟩ : some (Token.start n' as closed') = token ∧ left = after := by simpa using h
    cases unread : name.toList.dropWhile isNamePart with
    | nil =>
      rw [unread, List.nil_append] at read
      obtain ⟨attributes_read, rfl, rfl⟩ := scanAttributes_read keys read
      exact ⟨n', as, by rw [rawName?, named]; rfl, attributes_read, rfl, rfl⟩
    | cons d ds =>
      obtain ⟨solid, slash, angle⟩ := left_of_name good unread
      rw [unread, List.cons_append, scanAttributes, skipSpaces_start solid] at read
      split at read
      next same => exact absurd (List.cons.inj same).1 slash
      next same => exact absurd (List.cons.inj same).1 angle
      next => simp [solid] at read

theorem scanToken_stop {token : Option Token} (good : isTagName name)
    (h : scanToken ('<' :: '/' :: (name.toList ++ '>' :: rest)) = some (token, after)) :
    ∃ n, rawName? name = some n ∧ token = some (.stop n) ∧ after = rest := by
  have stop : ∀ c ∈ ('>' :: rest).head?, isNamePart c = false := by
    intro c first
    obtain rfl := Option.some.inj first
    decide
  rw [scanToken] at h
  obtain ⟨⟨n, left⟩, found, h⟩ := Option.bind_eq_some_iff.mp h
  rw [scanRawName_append stop] at found
  obtain ⟨⟨n', _⟩, named, same⟩ := Option.map_eq_some_iff.mp found
  obtain ⟨rfl, rfl⟩ := Prod.mk.inj same
  cases unread : name.toList.dropWhile isNamePart with
  | nil =>
    have passed : skipSpaces ('>' :: rest) = '>' :: rest := skipSpaces_start rfl
    dsimp only at h
    rw [unread, List.nil_append, passed] at h
    obtain ⟨rfl, rfl⟩ : some (Token.stop n') = token ∧ rest = after := by simpa using h
    exact ⟨n', by rw [rawName?, named]; rfl, rfl, rfl⟩
  | cons d ds =>
    obtain ⟨solid, _, angle⟩ := left_of_name good unread
    dsimp only at h
    rw [unread, List.cons_append, skipSpaces_start solid] at h
    split at h
    next same => exact absurd (List.cons.inj same).1 angle
    next => cases h

/-- What stands before the next tag is text. -/
theorem scanToken_text {raw : List Char} {token : Option Token} (filled : raw ≠ [])
    (plain : '<' ∉ raw) (next : rest = [] ∨ rest.head? = some '<')
    (h : scanToken (raw ++ rest) = some (token, after)) :
    token = some (.text raw) ∧ after = rest := by
  obtain ⟨c, cs, rfl⟩ := List.exists_cons_of_ne_nil filled
  have other : c ≠ '<' := fun same => plain (same ▸ List.mem_cons_self)
  have cut : (c :: cs ++ rest).span (· ≠ '<') = (c :: cs, rest) := by
    refine Text.span_append (fun d member => decide_eq_true ?_) fun d first => ?_
    · rintro rfl
      exact plain member
    · rcases next with rfl | starts
      · cases first
      · rw [starts] at first
        obtain rfl := Option.some.inj first
        decide
  rw [scanToken] at h
  · rw [cut] at h
    dsimp only at h
    split at h
    · obtain ⟨rfl, rfl⟩ := Prod.mk.inj (Option.some.inj h)
      exact ⟨rfl, rfl⟩
    · cases h
  all_goals exact fun _ same => other (List.cons.inj same).1

end RdfXmlMapping.Xml
