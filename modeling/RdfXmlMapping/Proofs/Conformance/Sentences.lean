import RdfXmlMapping.Proofs.Conformance.Declarations
import RdfXmlMapping.Proofs.Conformance.Uses

/-!
The lines of the query of a model. Each is a sentence with the prefixes of the query or has neither
names nor IRIs (`bodyLines_written`), so that all prefixes in it are read back.
-/

namespace RdfXmlMapping

/-- The names of the columns are words. -/
structure Bindings.AreWords (b : Bindings) : Prop where
  subject : Query.IsWord b.subject
  predicate : Query.IsWord b.predicate
  object : Query.IsWord b.object

end RdfXmlMapping

namespace RdfXmlMapping.Conformance.Query

open RdfXmlMapping.Query (Free IsWord Meaningful Stands Term Triple RowValue Projection LineOf line
  line_append brackets free_toString free_append groupTriples)

variable {names : List String} {entries : List (String × String)} {l w text : String}
  {q : RdfXmlMapping.Query} {b : Bindings}

/-! ### Prefixes of the query -/

theorem declarable_of_meaningful (h : Meaningful q entries) : ∀ d ∈ q.prefixes, Declarable d := by
  rw [h.prefixes]
  intro d member
  obtain ⟨⟨uri, name⟩, present, rfl⟩ := List.mem_map.mp member
  obtain ⟨n, rfl⟩ := h.named _ present
  have letter : ("ns" ++ toString n).toList.head?.any isLetter := by
    rw [String.toList_append]
    rfl
  have plain := h.plain _ present
  exact ⟨IsWord.append (by decide) (Query.isWord_toString n), letter, plain⟩

theorem words_of_meaningful (h : Meaningful q entries) :
    ∀ name ∈ entries.map (·.2), IsWord name := by
  intro name member
  obtain ⟨e, present, rfl⟩ := List.mem_map.mp member
  have declared := declarable_of_meaningful h _ (h.prefixes ▸ List.mem_map_of_mem present)
  exact declared.word

/-! ### Terms -/

theorem token_of_stands {iri : String} (stands : Stands entries iri text) (plain : Plain iri) :
    Token (entries.map (·.2)) text := by
  cases stands with
  | short present same free =>
    exact .short (List.mem_map_of_mem present) (plain_append.mp (same ▸ plain)).2 free
  | full => exact .full plain

theorem bare_var (n : Nat) : Bare ("?v" ++ toString n) :=
  Query.Free.append (by decide) (free_toString (by decide) n)

theorem Sentence.term {m : String} {t : Term} (s : Sentence (entries.map (·.2)) l)
    (ready : Open l.toList) (means : t.Means entries m) :
    Sentence (entries.map (·.2)) (l ++ t.text) := by
  cases t with
  | var n => exact s.bare (bare_var n)
  | iri text => exact s.token ready (token_of_stands means.2 means.1)
  | type text =>
    obtain ⟨rfl, stands⟩ := means
    exact s.token ready (token_of_stands stands Query.plain_rdfType)

theorem Sentence.templateTerm {m : String} {t : Term} (s : Sentence (entries.map (·.2)) l)
    (ready : Open l.toList) (means : t.Means entries m) :
    Sentence (entries.map (·.2)) (l ++ t.templateText) := by
  cases t with
  | type text => exact s.bare (w := "a") (by decide)
  | var n => exact s.term ready means
  | iri text => exact s.term ready means

theorem open_append (last : w.toList.getLast?.any separates) : Open (l ++ w).toList := by
  intro c member
  rw [String.toList_append, List.getLast?_append] at member
  cases read : w.toList.getLast? with
  | none =>
    rw [read] at last
    cases last
  | some d =>
    rw [read] at member last
    obtain rfl : d = c := Option.some.inj member
    exact last

/-! ### Lines of triples -/

theorem sentence_indent (depth : Nat) : Sentence names (line depth "") := by
  have free : Bare (line depth "") := Query.free_indent (by decide)
  have indent : Sentence names ("" ++ line depth "") := Sentence.empty.bare free
  rwa [String.empty_append] at indent

theorem open_indent (depth : Nat) : Open (line depth "").toList := by
  intro c member
  rw [line, String.append_empty, String.toList_ofList] at member
  rw [List.eq_of_mem_replicate (List.mem_of_getLast? member)]
  decide

theorem line_eq (depth : Nat) (s : String) : line depth s = line depth "" ++ s := by
  rw [← line_append, String.empty_append]

variable {t : Triple}

/-- The triple as a line, its terms written by `write`. -/
theorem sentence_written {write : Term → String}
    (goesOn : ∀ {l m : String} {t : Term}, Sentence (entries.map (·.2)) l → Open l.toList →
      t.Means entries m → Sentence (entries.map (·.2)) (l ++ write t))
    (means : ∃ x y z, t.Means entries x y z) (depth : Nat) :
    Sentence (entries.map (·.2)) (line depth
      (write t.subject ++ " " ++ write t.predicate ++ " " ++ write t.object ++ " .")) := by
  obtain ⟨_, _, _, subject, predicate, object⟩ := means
  have blank : " ".toList.getLast?.any separates := by decide
  have first := (goesOn (sentence_indent depth) (open_indent depth) subject).bare
    (w := " ") (by decide)
  have second := (goesOn first (open_append blank) predicate).bare (w := " ") (by decide)
  have third := (goesOn second (open_append blank) object).bare (w := " .") (by decide)
  rw [← line_eq] at third
  simp only [line_append]
  exact third

theorem sentence_triple (means : ∃ x y z, t.Means entries x y z) (depth : Nat) :
    Sentence (entries.map (·.2)) (line depth t.text) :=
  sentence_written Sentence.term means depth

theorem sentence_templateTriple (means : ∃ x y z, t.Means entries x y z) (depth : Nat) :
    Sentence (entries.map (·.2)) (line depth t.templateText) :=
  sentence_written Sentence.templateTerm means depth

/-! ### Lines of columns -/

theorem sentence_ofTerms (row : Nat) {term : Term} {terms : List Term}
    (means : ∀ t ∈ term :: terms, ∃ m, t.Means entries m) {l : String}
    (s : Sentence (entries.map (·.2)) l) (ready : Open l.toList) :
    Sentence (entries.map (·.2)) (l ++ (RowValue.ofTerms row term terms).text) := by
  induction terms generalizing term row l with
  | nil =>
    obtain ⟨m, means⟩ := means term List.mem_cons_self
    exact s.term ready means
  | cons next terms ih =>
    obtain ⟨⟨m, first⟩, others⟩ := List.forall_mem_cons.mp means
    have blank : ", ".toList.getLast?.any separates := by decide
    have number : Bare ("IF(?" ++ Query.rowVariable ++ " = " ++ toString row) :=
      Query.Free.append (by decide) (free_toString (by decide) row)
    have condition := (s.bare number).bare (w := ", ") (by decide)
    have here := (condition.term (open_append blank) first).bare (w := ", ") (by decide)
    have later := (ih (row + 1) others here (open_append blank)).bare (w := ")") (by decide)
    change Sentence _ (l ++ ("IF(?" ++ Query.rowVariable ++ " = " ++ toString row ++ ", " ++
      term.text ++ ", " ++ (RowValue.ofTerms (row + 1) next terms).text ++ ")"))
    simpa only [String.append_assoc] using later

theorem sentence_bind {term : Term} {terms : List Term} {column : String} (word : IsWord column)
    (means : ∀ t ∈ term :: terms, ∃ m, t.Means entries m) :
    Sentence (entries.map (·.2))
      (line 1 ("BIND(" ++ (RowValue.ofTerms 0 term terms).text ++ " AS ?" ++ column ++ ")")) := by
  have bracket : "BIND(".toList.getLast?.any separates := by decide
  have start : Sentence (entries.map (·.2)) (line 1 "" ++ "BIND(") :=
    (sentence_indent 1).bare (by decide)
  have value := (sentence_ofTerms 0 means start (open_append bracket)).bare
    (w := " AS ?") (by decide)
  have named := (value.bare (Query.free_of_all word (by decide))).bare (w := ")") (by decide)
  rw [← line_eq] at named
  simp only [line_append]
  exact named

/-- A line without names and IRIs, and without the first letter of the mark of a template. -/
abbrev Bracket : String → Prop := Free ['<', ':', '\n', '\r', 'C']

/-- A line that is a sentence or has neither names nor IRIs. -/
def Written (names : List String) (l : String) : Prop := Sentence names l ∨ Bracket l

theorem Written.legible (words : ∀ n ∈ names, IsWord n) (h : Written names l) :
    Legible names l := by
  rcases h with s | free
  · exact legible_sentence words s
  · exact legible_free (free.mono (by simp))

theorem lineOf_written {depth : Nat} {ts : List Triple}
    (means : ∀ t ∈ ts, ∃ x y z, t.Means entries x y z) (h : LineOf depth ts l) :
    Written (entries.map (·.2)) l := by
  cases h with
  | @bracket d s deep member =>
    right
    have free : ∀ s ∈ brackets, Bracket s := by decide
    rw [line_eq]
    exact (Query.free_indent (by decide)).append (free s member)
  | triple deep member => exact .inl (sentence_triple (means _ member) _)

theorem projection_written (words : b.AreWords) {ts : List Triple} {p : Projection}
    (means : ∀ t ∈ ts, ∃ x y z, t.Means entries x y z) (made : Projection.ofTemplate? ts = some p) :
    ∀ l ∈ p.lines b, Written (entries.map (·.2)) l := by
  cases ts with
  | nil => cases made
  | cons t ts =>
    obtain rfl := Option.some.inj made
    have term {f : Triple → Term} (each : ∀ u ∈ t :: ts, ∃ m, (f u).Means entries m) :
        ∀ u ∈ f t :: ts.map f, ∃ m, u.Means entries m := by
      rw [← List.map_cons]
      intro u member
      obtain ⟨v, present, rfl⟩ := List.mem_map.mp member
      exact each v present
    intro l member
    simp only [Projection.lines, List.mem_cons, List.not_mem_nil, or_false] at member
    rcases member with rfl | rfl | rfl | rfl | rfl
    · right
      rw [line_eq]
      refine (Query.free_indent (by decide)).append (.append (.append (by decide) ?_) (by decide))
      refine Query.free_intercalate (by decide) fun w member => ?_
      obtain ⟨n, -, rfl⟩ := List.mem_map.mp member
      exact free_toString (by decide) n
    · refine .inl (sentence_bind words.subject (term fun u member => ?_))
      obtain ⟨x, _, _, means⟩ := means u member
      exact ⟨x, means.subject⟩
    · refine .inl (sentence_bind words.predicate (term fun u member => ?_))
      obtain ⟨_, x, _, means⟩ := means u member
      exact ⟨x, means.predicate⟩
    · refine .inl (sentence_bind words.object (term fun u member => ?_))
      obtain ⟨_, _, x, means⟩ := means u member
      exact ⟨x, means.object⟩
    · left
      rw [line_eq]
      refine (sentence_indent 1).bare ?_
      have subject : Bare b.subject := Query.free_of_all words.subject (by decide)
      have object : Bare b.object := Query.free_of_all words.object (by decide)
      exact .append (.append (.append (.append (by decide) subject) (by decide)) object) (by decide)

/-! ### All lines -/

theorem headLines_eq (q : RdfXmlMapping.Query) : Query.headLines q =
    q.prefixes.map declarationLine ++ if q.prefixes.isEmpty then [] else [""] := rfl

/-- Between the declarations and what follows them there may be an empty line. -/
theorem eq_empty_of_mem {none : Bool} {l : String} (last : l ∈ if none then [] else [""]) :
    l = "" := by
  cases none with
  | true => cases last
  | false => exact List.mem_singleton.mp last

theorem sentence_declarationLine {d : String × String} (member : d.1 ∈ names) (plain : Plain d.2) :
    Sentence names (declarationLine d) := by
  have blank : "PREFIX ".toList.getLast?.any separates := by decide
  have blank' : " ".toList.getLast?.any separates := by decide
  have start : Sentence names ("" ++ "PREFIX ") := Sentence.empty.bare (by decide)
  have empty : Token names (d.1 ++ ":" ++ "") :=
    .short member (fun c inside => by cases inside) (by decide)
  have name := start.token (open_append blank) empty
  have whole := (name.bare (w := " ") (by decide)).token (open_append blank') (.full plain)
  rw [show declarationLine d =
      "" ++ "PREFIX " ++ (d.1 ++ ":" ++ "") ++ " " ++ ("<" ++ d.2 ++ ">") from
    String.toList_inj.mp (by simp [declarationLine])]
  exact whole

theorem headLines_written (h : Meaningful q entries) :
    ∀ l ∈ Query.headLines q, Written (entries.map (·.2)) l := by
  rw [headLines_eq, h.prefixes]
  intro l member
  rcases List.mem_append.mp member with declared | last
  · obtain ⟨d, present, rfl⟩ := List.mem_map.mp declared
    obtain ⟨e, present', rfl⟩ := List.mem_map.mp present
    exact .inl (sentence_declarationLine (List.mem_map_of_mem present') (h.plain e present'))
  · obtain rfl := eq_empty_of_mem last
    exact .inr (by decide)

/-- The lines of the template. -/
def templateLines (q : RdfXmlMapping.Query) : List String :=
  q.template.map fun t => line 1 t.templateText

theorem templateLines_written (h : Meaningful q entries) :
    ∀ l ∈ templateLines q, Written (entries.map (·.2)) l := by
  intro l member
  obtain ⟨t, present, rfl⟩ := List.mem_map.mp member
  exact .inl (sentence_templateTriple (h.means t present) 1)

/-- The lines of the pattern. -/
def patternLines (q : RdfXmlMapping.Query) : List String := Query.groupLines 1 q.pattern

theorem patternLines_written (h : Meaningful q entries) :
    ∀ l ∈ patternLines q, Written (entries.map (·.2)) l := by
  intro l member
  refine lineOf_written (fun t present => ?_) (Query.mem_groupLines q.pattern 1 l member)
  exact h.means t (h.template ▸ present)

theorem bodyLines_construct (q : RdfXmlMapping.Query) (b : Bindings) :
    Query.bodyLines q b .construct =
      "CONSTRUCT \x7b" :: templateLines q ++ ["\x7d", "WHERE \x7b"] ++ patternLines q ++
        ["\x7d"] := rfl

theorem bodyLines_select_written (h : Meaningful q entries) (words : b.AreWords) :
    ∀ l ∈ Query.bodyLines q b .select, Written (entries.map (·.2)) l := by
  intro l member
  rcases List.mem_append.mp member with member | last
  · rcases List.mem_append.mp member with member | columns
    · rcases List.mem_append.mp member with head | inside
      · rcases List.mem_cons.mp head with rfl | head
        · have subject : Bare b.subject := Query.free_of_all words.subject (by decide)
          have predicate : Bare b.predicate := Query.free_of_all words.predicate (by decide)
          have object : Bare b.object := Query.free_of_all words.object (by decide)
          have start : Sentence (entries.map (·.2)) ("" ++ "SELECT DISTINCT ?") :=
            Sentence.empty.bare (by decide)
          exact .inl (((((start.bare subject).bare (w := " ?") (by decide)).bare predicate).bare
            (w := " ?") (by decide)).bare object)
        · obtain rfl := List.mem_singleton.mp head
          exact .inr (by decide)
      · exact patternLines_written h l inside
    · cases made : Projection.ofTemplate? q.template with
      | none =>
        rw [made] at columns
        cases columns
      | some p =>
        rw [made] at columns
        exact projection_written words h.means made l columns
  · obtain rfl := List.mem_singleton.mp last
    exact .inr (by decide)

/-- The line that begins the template is the only other one. -/
theorem render_written (h : Meaningful q entries) (words : b.AreWords) (form : QueryForm) :
    ∀ l ∈ Query.headLines q ++ Query.bodyLines q b form,
      Written (entries.map (·.2)) l ∨ l = "CONSTRUCT \x7b" := by
  intro l member
  rcases List.mem_append.mp member with head | body
  · exact .inl (headLines_written h l head)
  · cases form with
    | select => exact .inl (bodyLines_select_written h words l body)
    | construct =>
      simp only [bodyLines_construct, List.mem_append, List.mem_cons, List.not_mem_nil,
        or_false] at body
      rcases body with (((rfl | inside) | rfl | rfl) | inside) | rfl
      · exact .inr rfl
      · exact .inl (templateLines_written h l inside)
      · exact .inl (.inr (by decide))
      · exact .inl (.inr (by decide))
      · exact .inl (patternLines_written h l inside)
      · exact .inl (.inr (by decide))

/-- The prefixes in the text of a query are its own. -/
theorem render_legible (h : Meaningful q entries) (words : b.AreWords) (form : QueryForm) :
    ∀ l ∈ Query.headLines q ++ Query.bodyLines q b form, Legible (entries.map (·.2)) l := by
  intro l member
  rcases render_written h words form l member with written | rfl
  · exact written.legible (words_of_meaningful h)
  · exact legible_free (by decide)

/-! ### Characters of the lines -/

theorem sentence_unbroken (words : ∀ n ∈ names, IsWord n) (h : Sentence names l) :
    Text.Unbroken l.toList := by
  induction h with
  | empty => simp [Text.Unbroken]
  | bare _ free ih =>
    rw [String.toList_append]
    exact unbroken_append ih ⟨free.notMem (by simp), free.notMem (by simp)⟩
  | token _ _ token ih =>
    rw [String.toList_append]
    refine unbroken_append ih ?_
    cases token with
    | short member plain _ =>
      have word := isWord_free (words _ member)
      have plain := plain_free plain
      simp [Text.Unbroken, word.notMem, plain.notMem]
    | full plain =>
      have plain := plain_free plain
      simp [Text.Unbroken, plain.notMem]

theorem Written.unbroken (words : ∀ n ∈ names, IsWord n) (h : Written names l) :
    Text.Unbroken l.toList := by
  rcases h with s | free
  · exact sentence_unbroken words s
  · exact ⟨free.notMem (by simp), free.notMem (by simp)⟩

theorem render_unbroken (h : Meaningful q entries) (words : b.AreWords) (form : QueryForm) :
    ∀ l ∈ Query.headLines q ++ Query.bodyLines q b form, Text.Unbroken l.toList := by
  intro l member
  rcases render_written h words form l member with written | rfl
  · exact written.unbroken (words_of_meaningful h)
  · exact ⟨by decide, by decide⟩

/-- No brace follows a blank. -/
def Calm (l : List Char) : Prop := ∀ a b, l = a ++ '\x7b' :: b → ' ' ∉ a.getLast?

theorem Calm.bare {e l : List Char} (h : Calm e) (free : '\x7b' ∉ l) : Calm (e ++ l) := by
  intro a b same
  rcases append_eq_append_cons same with ⟨m, -, ends⟩ | ⟨m, whole, -⟩
  · exact absurd (by rw [ends]; simp) free
  · exact h a m whole

theorem Calm.solid {e l : List Char} (h : Calm e) (free : ' ' ∉ l) (first : l.head? ≠ some '\x7b') :
    Calm (e ++ l) := by
  intro a b same
  rcases append_eq_append_cons same with ⟨m, rfl, ends⟩ | ⟨m, whole, -⟩
  · cases m with
    | nil => exact absurd (by rw [ends]; rfl) first
    | cons c m =>
      intro last
      rw [List.getLast?_append_of_ne_nil _ (List.cons_ne_nil c m)] at last
      exact free (by rw [ends]; exact List.mem_append_left _ (List.mem_of_getLast? last))
  · exact h a m whole

theorem sentence_calm (words : ∀ n ∈ names, IsWord n) (h : Sentence names l) : Calm l.toList := by
  induction h with
  | empty =>
    intro a b same
    simp at same
  | bare _ free ih =>
    rw [String.toList_append]
    exact ih.bare (free.notMem (by simp))
  | token _ _ token ih =>
    rw [String.toList_append]
    cases token with
    | @short name _ member plain _ =>
      have word := isWord_free (words _ member)
      have plain := plain_free plain
      refine ih.solid (by simp [word.notMem, plain.notMem]) fun first => ?_
      rw [String.toList_append, String.toList_append, List.append_assoc, List.head?_append,
        Option.or_eq_some_iff] at first
      rcases first with brace | ⟨-, other⟩
      · exact word.notMem (by simp) (List.mem_of_head? brace)
      · exact absurd (Option.some.inj other) (by decide)
    | full plain =>
      have plain := plain_free plain
      refine ih.solid (by simp [plain.notMem]) fun first => ?_
      simp at first

/-- The mark of a template does not stand in a line that is written. -/
theorem Written.notTemplate (words : ∀ n ∈ names, IsWord n) (h : Written names l) :
    ¬ templateMark <:+: l.toList := by
  rintro ⟨before, after, whole⟩
  have mark : templateMark = "CONSTRUCT ".toList ++ ['\x7b'] := by decide
  rcases h with s | free
  · have split : l.toList = (before ++ "CONSTRUCT ".toList) ++ '\x7b' :: after := by
      rw [← whole, mark, List.append_assoc, List.append_assoc, List.append_assoc]
      rfl
    refine sentence_calm words s _ _ split ?_
    rw [List.getLast?_append]
    rfl
  · refine free.notMem (c := 'C') (by simp) ?_
    rw [← whole, List.mem_append, List.mem_append]
    exact .inl (.inr (by decide))

end RdfXmlMapping.Conformance.Query
