import RdfXmlMapping.Proofs.Xml.Scopes

/-!
Documents read back all the way down. Elements that declare no namespaces are all read in the scope
of what is around them, each with its name and with the values of its attributes (`reads_all`,
`tagged_value`).
-/

namespace RdfXmlMapping.Xml

variable {outer scope : Scope} {own key name : String} {n : RawName} {attributes : Attributes}
  {tag : StartTag} {as : List (RawName × String)}

/-! ### Tags -/

/-- No attribute declares a namespace. -/
def DeclaresNone (attributes : Attributes) : Prop :=
  ∀ a ∈ attributes, ∀ n, rawName? a.1 = some n → n.isDeclaration = false

/-- How a tag comes from its names as they are written. -/
structure Taken (outer : Scope) (n : RawName) (as : List (RawName × String)) (tag : StartTag)
    (declared : Scope) : Prop where
  declares : (as.filter (·.1.isDeclaration)).foldlM
    (fun scope a => Scope.declare scope a.1 a.2) [] = some declared
  scope : tag.scope = Scope.within declared outer
  attributes : (as.filter (!·.1.isDeclaration)).mapM (fun a =>
    (tag.scope.attributeName a.1).map fun name => (name, a.2)) = some tag.attributes
  name : tag.scope.elementName n = some tag.name

theorem startTag_taken (h : StartTag.of? outer n as = some tag) :
    ∃ declared, Taken outer n as tag declared := by
  obtain ⟨declared, run, h⟩ := Option.bind_eq_some_iff.mp h
  obtain ⟨expanded, each, h⟩ := Option.bind_eq_some_iff.mp h
  dsimp only at h
  split at h
  · cases h
  · obtain ⟨name, named, h⟩ := Option.bind_eq_some_iff.mp h
    obtain rfl := Option.some.inj h
    exact ⟨declared, run, rfl, each, named⟩

theorem tagged_taken (h : Tagged outer name attributes tag) : ∃ n as declared,
    rawName? name = some n ∧ Taken outer n as tag declared ∧
    List.Forall₂ (fun a b => rawName? a.1 = some b.1 ∧ b.2 = readValue a.2) attributes as := by
  obtain ⟨n, as, named, read, h⟩ := h
  obtain ⟨declared, taken⟩ := startTag_taken h
  exact ⟨n, as, declared, named, taken, readAttributes?_each read⟩

/-- An element that declares nothing is in the scope of what is around it. -/
theorem tagged_scope (h : Tagged outer name attributes tag) (none : DeclaresNone attributes) :
    tag.scope = outer := by
  obtain ⟨n, as, declared, _, taken, each⟩ := tagged_taken h
  have undeclared : ∀ b ∈ as, b.1.isDeclaration = false := by
    intro b member
    obtain ⟨a, present, written, _⟩ := forall₂_mem_right each member
    exact none a present b.1 written
  have run := taken.declares
  rw [List.filter_eq_nil_iff.mpr fun b member => by simp [undeclared b member]] at run
  obtain rfl := Option.some.inj run
  rw [taken.scope, within_nil]

theorem tagged_name {last : String} (h : Tagged outer name attributes tag)
    (written : rawName? name = some ⟨own, last⟩) (qualified : own ≠ "") :
    ∃ uri, tag.scope.get? (some own) = some uri ∧ tag.name = ⟨some uri, last⟩ := by
  obtain ⟨n, as, declared, named, taken, _⟩ := tagged_taken h
  obtain rfl := Option.some.inj (written.symm.trans named)
  have expanded := taken.name
  rw [Scope.elementName, if_neg (by simpa using qualified)] at expanded
  obtain ⟨uri, found, expanded⟩ := Option.bind_eq_some_iff.mp expanded
  exact ⟨uri, found, (Option.some.inj expanded).symm⟩

/-! ### Values -/

theorem attributeName_unprefixed {expanded : ExpandedName}
    (h : scope.attributeName n = some expanded) : expanded = ⟨none, key⟩ ↔ n = ⟨"", key⟩ := by
  obtain ⟨before, last⟩ := n
  unfold Scope.attributeName at h
  split at h
  next empty =>
    obtain rfl := Option.some.inj h
    have none : before = "" := by simpa using empty
    simp [none]
  next filled =>
    have other : before ≠ "" := by simpa using filled
    split at h
    · obtain rfl := Option.some.inj h
      simp [other]
    · obtain ⟨uri, _, h⟩ := Option.bind_eq_some_iff.mp h
      obtain rfl := Option.some.inj h
      simp [other]

theorem find?_expanded {bs : List (RawName × String)} {cs : List (ExpandedName × String)}
    (each : List.Forall₂ (fun b c =>
      (scope.attributeName b.1).map (fun name => (name, b.2)) = some c) bs cs) (key : String) :
    (cs.find? (·.1 == ⟨none, key⟩)).map (·.2) = (bs.find? (·.1 == ⟨"", key⟩)).map (·.2) := by
  induction each with
  | nil => rfl
  | @cons b c _ _ first _ ih =>
    obtain ⟨expanded, named, rfl⟩ := Option.map_eq_some_iff.mp first
    by_cases same : b.1 = ⟨"", key⟩
    · have found := (attributeName_unprefixed named).mpr same
      simp [same, found]
    · have other := mt (attributeName_unprefixed named).mp same
      simpa [same, other] using ih

theorem find?_read (each : List.Forall₂
      (fun a b => rawName? a.1 = some b.1 ∧ b.2 = readValue a.2) attributes as)
    (named : ∀ a ∈ attributes, rawName? a.1 = some ⟨"", key⟩ ↔ a.1 = key) :
    (as.find? (·.1 == ⟨"", key⟩)).map (·.2) = (attributes.lookup key).map readValue := by
  induction each with
  | nil => rfl
  | @cons a b _ _ first _ ih =>
    obtain ⟨here, others⟩ := List.forall_mem_cons.mp named
    rw [first.1, Option.some.injEq] at here
    obtain ⟨written, value⟩ := a
    by_cases same : b.1 = ⟨"", key⟩
    · obtain rfl : written = key := here.mp same
      simp [same, first.2]
    · have other : key ≠ written := fun equal => same (here.mpr equal.symm)
      rw [List.lookup_cons, beq_eq_false_iff_ne.mpr other, ← ih others]
      simp [same]

/-- The value of an attribute without a prefix is the one that was written. -/
theorem tagged_value (h : Tagged outer name attributes tag) (other : key ≠ "xmlns")
    (named : ∀ a ∈ attributes, rawName? a.1 = some ⟨"", key⟩ ↔ a.1 = key) :
    (tag.attributes.find? (·.1 == ⟨none, key⟩)).map (·.2) =
      (attributes.lookup key).map readValue := by
  obtain ⟨n, as, declared, _, taken, each⟩ := tagged_taken h
  have proper : ∀ b : RawName × String, b.1 = ⟨"", key⟩ → b.1.isDeclaration = false := by
    intro b same
    simpa [same, RawName.isDeclaration] using other
  have kept : (as.filter (!·.1.isDeclaration)).find? (·.1 == ⟨"", key⟩) =
      as.find? (·.1 == ⟨"", key⟩) := by
    rw [List.find?_filter]
    refine congrArg (List.find? · as) (funext fun b => Bool.eq_iff_iff.mpr ?_)
    simpa using proper b
  rw [find?_expanded (mapM_some taken.attributes), kept, find?_read each named]

/-! ### Namespaces -/

/-- The name of an attribute that declares a prefix made of name characters. -/
theorem rawName?_declares (parts : ∀ c ∈ own.toList, isNamePart c)
    (h : rawName? ("xmlns:" ++ own) = some n) : n = ⟨"xmlns", own⟩ ∧ ':' ∉ own.toList := by
  have written : ("xmlns:" ++ own).toList = "xmlns".toList ++ ':' :: own.toList := by simp
  have all : ∀ c ∈ "xmlns".toList ++ ':' :: own.toList, isNamePart c = true := by
    exact List.forall_mem_append.mpr
      ⟨List.all_eq_true.mp (by decide), List.forall_mem_cons.mpr ⟨by decide, parts⟩⟩
  have whole : ("xmlns".toList ++ ':' :: own.toList).span isNamePart =
      ("xmlns".toList ++ ':' :: own.toList, []) := by
    rw [List.span_eq_takeWhile_dropWhile, List.takeWhile_eq_self_iff.mpr all,
      List.dropWhile_eq_nil_iff.mpr all]
  rw [rawName?, scanRawName, written, whole] at h
  dsimp only at h
  -- Another colon in the prefix would leave more than two parts, which are no name.
  rw [Text.segments_append (by decide)] at h
  cases read : Text.segments ':' own.toList with
  | nil => exact absurd read (Text.segments_ne_nil _ _)
  | cons last others =>
    rw [read] at h
    cases others with
    | nil =>
      obtain ⟨free, rfl⟩ := Text.segments_one read
      obtain ⟨⟨n', _⟩, found, rfl⟩ := Option.map_eq_some_iff.mp h
      dsimp only at found
      split at found
      · obtain ⟨rfl, -⟩ := Prod.mk.inj (Option.some.inj found)
        exact ⟨by simp, free⟩
      · cases found
    | cons _ _ => cases h

theorem declare_unprefixed {scope' : Scope} {uri : String} (prefixed : n.nsPrefix = "xmlns")
    (h : scope.declare n uri = some scope') : scope'.get? none = scope.get? none := by
  unfold Scope.declare at h
  rw [if_pos prefixed] at h
  split at h
  · cases h
  · split at h
    · rw [Option.some.inj h]
    · obtain rfl := Option.some.inj h
      simp [Scope.get?, List.find?_append]

/-- Prefixes that are declared leave the names without a prefix where they are. -/
theorem tagged_unprefixed (h : Tagged [] name attributes tag)
    (prefixed : ∀ a ∈ attributes, ∀ n, rawName? a.1 = some n → n.isDeclaration →
      n.nsPrefix = "xmlns") : tag.scope.get? none = none := by
  obtain ⟨n, as, declared, _, taken, each⟩ := tagged_taken h
  have named : ∀ b ∈ as.filter (·.1.isDeclaration), b.1.nsPrefix = "xmlns" := by
    intro b member
    obtain ⟨present, declares⟩ := List.mem_filter.mp member
    obtain ⟨a, inside, written, _⟩ := forall₂_mem_right each present
    exact prefixed a inside b.1 written declares
  -- None of the declarations, one after the other, is for names without a prefix.
  have step : ∀ (bs : List (RawName × String)) (scope scope' : Scope),
      (∀ b ∈ bs, b.1.nsPrefix = "xmlns") →
      bs.foldlM (fun scope a => Scope.declare scope a.1 a.2) scope = some scope' →
      scope'.get? none = scope.get? none := by
    intro bs
    induction bs with
    | nil =>
      intro scope scope' _ run
      rw [Option.some.inj run]
    | cons b bs ih =>
      intro scope scope' named run
      obtain ⟨first, others⟩ := List.forall_mem_cons.mp named
      obtain ⟨next, now, run⟩ := Option.bind_eq_some_iff.mp run
      exact (ih next scope' others run).trans (declare_unprefixed first now)
  rw [taken.scope, Scope.within, List.filter_nil, List.append_nil]
  exact step _ _ _ named taken.declares

/-- The prefix `xml` and the namespace of that name belong together. -/
theorem declare_xml {scope' : Scope} {uri : String}
    (h : scope.declare ⟨"xmlns", own⟩ uri = some scope') : own = "xml" ↔ uri = Vocabulary.xml := by
  unfold Scope.declare at h
  rw [if_pos rfl] at h
  split at h
  · cases h
  next proper => exact not_not.mp (not_or.mp (not_or.mp proper).2).1

theorem declared_xml {declarations : List (RawName × String)} {scope' : Scope} {uri : String}
    (h : declarations.foldlM (fun scope a => Scope.declare scope a.1 a.2) scope = some scope')
    (member : (⟨"xmlns", own⟩, uri) ∈ declarations) : own = "xml" ↔ uri = Vocabulary.xml := by
  induction declarations generalizing scope with
  | nil => cases member
  | cons a as ih =>
    obtain ⟨next, declared, h⟩ := Option.bind_eq_some_iff.mp h
    rcases List.mem_cons.mp member with rfl | later
    · exact declare_xml declared
    · exact ih h later

/-- What a prefix stands for that an element declares, unless it is `xml`. -/
theorem tagged_declared {value : String} (h : Tagged outer name attributes tag)
    (member : (key, value) ∈ attributes) (declares : rawName? key = some ⟨"xmlns", own⟩) :
    (own = "xml" ↔ readValue value = Vocabulary.xml) ∧
      (own ≠ "xml" → tag.scope.get? (some own) = some (readValue value)) := by
  obtain ⟨n, as, declared, _, taken, each⟩ := tagged_taken h
  obtain ⟨b, inside, written, valued⟩ := forall₂_mem_left each member
  have present : (⟨"xmlns", own⟩, readValue value) ∈ as.filter (·.1.isDeclaration) := by
    rw [← valued, ← Option.some.inj (written.symm.trans declares)]
    refine List.mem_filter.mpr ⟨inside, ?_⟩
    rw [Option.some.inj (written.symm.trans declares)]
    rfl
  have belongs := declared_xml taken.declares present
  exact ⟨belongs, fun other => tagged_get? h member declares rfl (mt belongs.mpr other)⟩

/-! ### Elements -/

mutual

/-- An element with all that it holds, in the order of the document. -/
def Element.all : Element → List Element
  | .node name attributes es => .node name attributes es :: Element.allOf es
  | .leaf name attributes => [.leaf name attributes]
  | .text name attributes content => [.text name attributes content]

/-- Several elements with all that they hold. -/
def Element.allOf : List Element → List Element
  | [] => []
  | e :: es => e.all ++ Element.allOf es

end

theorem Element.allOf_append (es fs : List Element) :
    Element.allOf (es ++ fs) = Element.allOf es ++ Element.allOf fs := by
  induction es with
  | nil => rfl
  | cons e es ih => simp [Element.allOf, ih]

theorem Element.mem_allOf {e : Element} {es : List Element} :
    e ∈ Element.allOf es ↔ ∃ f ∈ es, e ∈ f.all := by
  induction es with
  | nil => simp [Element.allOf]
  | cons f fs ih => simp [Element.allOf, ih]

/-- A node is an element that has been read in a scope and declares nothing. -/
def ReadIn (scope : Scope) (e : Element) (n : Node) : Prop :=
  ∃ tag content, Tagged scope e.name e.attributes tag ∧
    n = .element tag.name tag.attributes scope content

theorem descendantsOf_elements (ns : List Node) :
    (Node.descendantsOf (ns.filter Node.isElement)).filter Node.isElement =
      (Node.descendantsOf ns).filter Node.isElement := by
  induction ns with
  | nil => rfl
  | cons n ns ih =>
    cases n with
    | text content =>
      simpa [Node.descendantsOf, Node.descendants, Node.isElement, Node.name?] using ih
    | element name attributes scope children =>
      rw [List.filter_cons_of_pos (by rfl), Node.descendantsOf, Node.descendantsOf,
        List.filter_append, List.filter_append, ih]

mutual

theorem reads_all {scope : Scope} : ∀ {e : Element} {n : Node},
    (∀ f ∈ e.all, DeclaresNone f.attributes) → Reads scope e n →
      List.Forall₂ (ReadIn scope) e.all (n.descendants.filter Node.isElement)
  | .node name attributes es, n, quiet, h => by
    obtain ⟨tag, content, tagged, rfl, inside⟩ := h
    obtain ⟨here, below⟩ := List.forall_mem_cons.mp quiet
    have same : tag.scope = scope := tagged_scope tagged here
    rw [same] at inside ⊢
    have rest := readsAll_all below inside
    rw [descendantsOf_elements] at rest
    rw [Node.descendants, List.filter_cons_of_pos (by rfl)]
    exact .cons ⟨tag, content, tagged, rfl⟩ rest
  | .leaf name attributes, n, quiet, h | .text name attributes _, n, quiet, h => by
    obtain ⟨tag, content, tagged, rfl, empty⟩ := h
    have same : tag.scope = scope := tagged_scope tagged (quiet _ List.mem_cons_self)
    -- All that is read inside is text.
    rw [same, Node.descendants, List.filter_cons_of_pos (by rfl), ← descendantsOf_elements, empty]
    exact .cons ⟨tag, content, tagged, rfl⟩ .nil

/-- Elements that declare nothing are read in one scope, with all that they hold. -/
theorem readsAll_all {scope : Scope} : ∀ {es : List Element} {ns : List Node},
    (∀ f ∈ Element.allOf es, DeclaresNone f.attributes) → ReadsAll scope es ns →
      List.Forall₂ (ReadIn scope) (Element.allOf es) ((Node.descendantsOf ns).filter Node.isElement)
  | [], _, _, h => by
    obtain rfl := h
    exact .nil
  | e :: es, _, quiet, h => by
    obtain ⟨n, rest, rfl, first, others⟩ := h
    obtain ⟨here, later⟩ := List.forall_mem_append.mp quiet
    rw [Node.descendantsOf, List.filter_append]
    exact List.rel_append (reads_all here first) (readsAll_all later others)

end

/-! ### Attributes of elements -/

/-- The attributes of elements and of all that they hold, as far as they pass a test for elements of
their name, in the order of the document. -/
def attributesIn (test : String → String × String → Bool) (es : List Element) : Attributes :=
  (Element.allOf es).flatMap fun e => e.attributes.filter (test e.name)

section

variable {test : String → String × String → Bool} {name : String} {attributes : Attributes}

theorem attributesIn_append (es fs : List Element) :
    attributesIn test (es ++ fs) = attributesIn test es ++ attributesIn test fs := by
  rw [attributesIn, Element.allOf_append, List.flatMap_append]
  rfl

theorem attributesIn_cons (e : Element) (es : List Element) :
    attributesIn test (e :: es) = attributesIn test [e] ++ attributesIn test es :=
  attributesIn_append [e] es

theorem attributesIn_flatMap {α : Type} (f : α → List Element) (xs : List α) :
    attributesIn test (xs.flatMap f) = xs.flatMap fun x => attributesIn test (f x) := by
  induction xs with
  | nil => rfl
  | cons x xs ih => rw [List.flatMap_cons, attributesIn_append, ih, List.flatMap_cons]

theorem attributesIn_node (es : List Element) : attributesIn test [.node name attributes es] =
    attributes.filter (test name) ++ attributesIn test es := by
  simp [attributesIn, Element.allOf, Element.all, Element.attributes, Element.name]

theorem attributesIn_leaf :
    attributesIn test [.leaf name attributes] = attributes.filter (test name) := by
  simp [attributesIn, Element.allOf, Element.all, Element.attributes, Element.name]

end

/-! ### Values in the text of a document -/

/-- The value of an attribute behind its first quote, where nothing is changed but that references
are replaced, and what follows its last quote. -/
def valueAt? (cs : List Char) : Option (String × List Char) :=
  match cs.span fun c => c ≠ '"' && c ≠ '<' with
  | (value, '"' :: rest) => (expand id value).map fun v => (.ofList v, rest)
  | _ => none

theorem valueAt?_escape (v : String) (rest : List Char) :
    valueAt? ((escape v).toList ++ '"' :: rest) = some (v, rest) := by
  have value : ((escape v).toList ++ '"' :: rest).span (fun c => c ≠ '"' && c ≠ '<') =
      ((escape v).toList, '"' :: rest) := Text.span_append (escape_plain v) (by simp)
  have read : expand id (escape v).toList = some v.toList := expand_escape goesByPieces_id v
  rw [valueAt?, value]
  simp [read]

variable {a : String × String} {f : Element}

theorem attributeChars_tag {name : String} {attributes : Attributes} (given : a ∈ attributes) :
    attributeChars a <:+: tagChars name attributes := by
  obtain ⟨before, after, rfl⟩ := List.append_of_mem given
  refine ⟨'<' :: (name.toList ++ before.flatMap attributeChars), after.flatMap attributeChars, ?_⟩
  simp [tagChars]

mutual

theorem attributeChars_chars (depth : Nat) (given : a ∈ f.attributes) :
    ∀ e : Element, f ∈ e.all → attributeChars a <:+: chars depth e
  | .node name attributes es, inside => by
    rw [chars]
    rcases List.mem_cons.mp inside with rfl | inside
    · exact (attributeChars_tag given).trans (List.prefix_append _ _).isInfix
    · have opened (rest : List Char) : tagChars name attributes ++ '>' :: '\n' :: rest =
          (tagChars name attributes ++ ['>', '\n']) ++ rest := by simp
      rw [opened]
      exact (attributeChars_charsOf (depth + 1) given es inside).trans (List.infix_append' ..)
  | .leaf name attributes, inside => by
    obtain rfl := List.mem_singleton.mp inside
    exact (attributeChars_tag given).trans (List.prefix_append _ _).isInfix
  | .text name attributes content, inside => by
    obtain rfl := List.mem_singleton.mp inside
    exact (attributeChars_tag given).trans (List.prefix_append _ _).isInfix

/-- An attribute stands in the lines of elements if one of them, or one inside, has it. -/
theorem attributeChars_charsOf (depth : Nat) (given : a ∈ f.attributes) :
    ∀ es : List Element, f ∈ Element.allOf es → attributeChars a <:+: charsOf depth es
  | [], inside => by cases inside
  | e :: es, inside => by
    have last : charsOf depth (e :: es) =
        List.replicate (2 * depth) ' ' ++ (chars depth e ++ ['\n']) ++ charsOf depth es := by
      simp [charsOf]
    rcases List.mem_append.mp inside with inside | inside
    · rw [charsOf]
      exact (attributeChars_chars depth given e inside).trans (List.infix_append' ..)
    · rw [last]
      exact (attributeChars_charsOf depth given es inside).trans (List.suffix_append ..).isInfix

end

/-- Each attribute of a document stands in the text of it, and its value is read there as it is. -/
theorem document_values {e : Element} (inside : f ∈ e.all) (given : a ∈ f.attributes) :
    ∃ before rest after, e.document.toList = before ++ ' ' :: (a.1.toList ++ '=' :: '"' :: rest) ∧
      valueAt? rest = some (a.2, after) := by
  obtain ⟨before, after, split⟩ := attributeChars_chars 0 given e inside
  refine ⟨"<?xml version=\"1.0\" encoding=\"utf-8\"?>\n".toList ++ before, _, after ++ ['\n'], ?_,
    valueAt?_escape a.2 _⟩
  rw [Element.document_eq, String.toList_append, String.toList_append, body_toList, ← split]
  simp [attributeChars]

end RdfXmlMapping.Xml
