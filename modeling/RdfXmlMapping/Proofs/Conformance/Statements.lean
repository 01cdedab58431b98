import RdfXmlMapping.Proofs.Conformance.Sentences
import RdfXmlMapping.Proofs.Text.Lines

/-!
The triples that are read back from the template and from the pattern of a query are the triples of
which they were made, with every term written out as what it means (`statement?_line`).
-/

namespace RdfXmlMapping.Conformance.Query

open RdfXmlMapping.Query (Free IsWord Meaningful Stands Term Triple line brackets)

variable {entries declared : List (String × String)} {text : String}

/-! ### Terms -/

/-- A text without blanks that is not empty. -/
structure Solid (text : String) : Prop where
  filled : text.toList ≠ []
  whole : ∀ c ∈ text.toList, Unicode.isBlank c = false

/-- The terms are written so that a reader finds them and what they mean. -/
structure Reads (declared : List (String × String)) (text meaning : String) : Prop where
  solid : Solid text
  expand : expand declared text.toList = meaning

theorem span_colon {l rest : List Char} (free : ':' ∉ l) (stop : ∀ c ∈ rest.head?, c = ':') :
    (l ++ rest).span (· ≠ ':') = (l, rest) := by
  refine Text.span_append (fun c member => decide_eq_true ?_) fun c first => ?_
  · rintro rfl
    exact free member
  · rw [stop c first]
    rfl

theorem find?_declared (distinct : (declared.map (·.1)).Nodup) {d : String × String}
    (member : d ∈ declared) : declared.find? (·.1 == d.1) = some d := by
  induction declared with
  | nil => cases member
  | cons e es ih =>
    rw [List.map_cons, List.nodup_cons] at distinct
    rcases List.mem_cons.mp member with rfl | later
    · rw [List.find?_cons, beq_self_eq_true]
    · have other : (e.1 == d.1) = false := by
        rw [beq_eq_false_iff_ne]
        intro same
        exact distinct.1 (same ▸ List.mem_map_of_mem later)
      rw [List.find?_cons, other]
      exact ih distinct.2 later

theorem expand_full (iri : String) : expand declared ("<" ++ iri ++ ">").toList = iri := by
  have term : ("<" ++ iri ++ ">").toList = '<' :: (iri.toList ++ ['>']) := by simp
  rw [term]
  show (if (iri.toList ++ ['>']).getLast? = some '>' then
    String.ofList (iri.toList ++ ['>']).dropLast else _) = iri
  rw [if_pos (by simp), List.dropLast_concat, String.ofList_toList]

/-- A name: its prefix is replaced. -/
theorem expand_short (distinct : (declared.map (·.1)).Nodup) {name uri last : String}
    (member : (name, uri) ∈ declared) (word : IsWord name) (plain : Plain last) :
    expand declared (name ++ ":" ++ last).toList = uri ++ last := by
  have free := (isWord_free word).notMem (c := ':') (by simp)
  have angle : '<' ∉ (name ++ ":" ++ last).toList := by
    simp [(isWord_free word).notMem, (plain_free plain).notMem]
  have term : (name ++ ":" ++ last).toList = name.toList ++ ':' :: last.toList := by simp
  rw [term] at angle ⊢
  unfold expand
  dsimp only
  rw [span_colon free (by simp)]
  dsimp only
  rw [String.ofList_toList, find?_declared distinct member]
  dsimp only
  split
  next same =>
    have colon : ':' ∈ ['a'] := by
      rw [← same]
      simp
    simp at colon
  next same =>
    rw [same] at angle
    exact absurd List.mem_cons_self angle
  next => rw [String.ofList_toList]

/-- A variable: it has no colon. -/
theorem expand_var (n : Nat) :
    expand declared ("?v" ++ toString n).toList = "?v" ++ toString n := by
  have free : Free [':'] ("?v" ++ toString n) := (bare_var n).mono (by simp)
  have term : ("?v" ++ toString n).toList = '?' :: 'v' :: (toString n).toList := by simp
  have cut : (("?v" ++ toString n).toList ++ []).span (· ≠ ':') =
      (("?v" ++ toString n).toList, []) :=
    span_colon (free.notMem List.mem_cons_self) (by simp)
  rw [List.append_nil] at cut
  unfold expand
  dsimp only
  rw [cut]
  dsimp only
  rw [term]
  show String.ofList _ = _
  rw [← term, String.ofList_toList]

variable {q : RdfXmlMapping.Query} {meaning : String} {t : Term}

theorem prefixes_distinct (h : Meaningful q entries) : (q.prefixes.map (·.1)).Nodup := by
  rw [h.prefixes, List.map_map]
  exact h.distinct

theorem notBlank_of_all (all : text.toList.all (!Unicode.isBlank ·)) :
    ∀ c ∈ text.toList, Unicode.isBlank c = false :=
  fun c member => by simpa using List.all_eq_true.mp all c member

theorem solid_word (word : IsWord text) : ∀ c ∈ text.toList, Unicode.isBlank c = false :=
  fun c member => isBlank_isWordChar (isWord_wordChar word c member)

theorem reads_stands (h : Meaningful q entries) (stands : Stands entries meaning text)
    (plain : Plain meaning) : Reads q.prefixes text meaning := by
  cases stands with
  | @short uri name last present same free =>
    have member : (name, uri) ∈ q.prefixes := h.prefixes ▸ List.mem_map_of_mem present
    have word : IsWord name := (declarable_of_meaningful h _ member).word
    have plain := (plain_append.mp (same ▸ plain)).2
    refine ⟨⟨by simp, ?_⟩, same ▸ expand_short (prefixes_distinct h) member word plain⟩
    rw [String.toList_append, String.toList_append, List.forall_mem_append, List.forall_mem_append]
    exact ⟨⟨solid_word word, notBlank_of_all (by decide)⟩, fun c member => (plain c member).2.2⟩
  | full =>
    refine ⟨⟨by simp, ?_⟩, expand_full meaning⟩
    rw [String.toList_append, String.toList_append, List.forall_mem_append, List.forall_mem_append]
    exact ⟨⟨notBlank_of_all (by decide), fun c member => (plain c member).2.2⟩,
      notBlank_of_all (by decide)⟩

theorem reads_term (h : Meaningful q entries) (means : t.Means entries meaning) :
    Reads q.prefixes t.text meaning := by
  cases t with
  | var n =>
    obtain rfl := means
    refine ⟨⟨by simp [Term.text], ?_⟩, expand_var n⟩
    rw [Term.text, String.toList_append, List.forall_mem_append]
    exact ⟨notBlank_of_all (by decide), solid_word (Query.isWord_toString n)⟩
  | iri text => exact reads_stands h means.2 means.1
  | type text =>
    obtain ⟨rfl, stands⟩ := means
    exact reads_stands h stands Query.plain_rdfType

theorem reads_templateTerm (h : Meaningful q entries) (means : t.Means entries meaning) :
    Reads q.prefixes t.templateText meaning := by
  cases t with
  | type text =>
    obtain ⟨rfl, -⟩ := means
    have word : Solid "a" := ⟨by decide, notBlank_of_all (by decide)⟩
    refine ⟨word, ?_⟩
    show expand q.prefixes "a".toList = _
    rw [show "a".toList = ['a'] by decide]
    rfl
  | var n => exact reads_term h means
  | iri text => exact reads_term h means

/-! ### Lines -/

theorem dropWhile_indent (depth : Nat) (s : String) :
    (line depth s).toList.dropWhile Unicode.isBlank = s.toList.dropWhile Unicode.isBlank := by
  rw [line, String.toList_append, String.toList_ofList, List.dropWhile_append_of_pos]
  intro c member
  rw [List.eq_of_mem_replicate member]
  decide

theorem Solid.free (h : Solid text) : ' ' ∉ text.toList := by
  intro member
  have blank := h.whole ' ' member
  revert blank
  decide

/-- Three terms with blanks between them and a point are read as a triple. -/
theorem statement?_line {s p o x y z : String} (subject : Reads declared s x)
    (predicate : Reads declared p y) (object : Reads declared o z) (depth : Nat) :
    statement? declared (line depth (s ++ " " ++ p ++ " " ++ o ++ " .")).toList =
      some ⟨x, y, z⟩ := by
  have whole : (s ++ " " ++ p ++ " " ++ o ++ " .").toList =
      s.toList ++ ' ' :: (p.toList ++ ' ' :: (o.toList ++ ' ' :: ['.'])) := by simp
  have start : (s.toList ++ ' ' :: (p.toList ++ ' ' :: (o.toList ++ ' ' :: ['.']))).dropWhile
      Unicode.isBlank = s.toList ++ ' ' :: (p.toList ++ ' ' :: (o.toList ++ ' ' :: ['.'])) := by
    cases read : s.toList with
    | nil => exact absurd read subject.solid.filled
    | cons c cs =>
      have first := subject.solid.whole c (by rw [read]; exact List.mem_cons_self)
      rw [List.cons_append, List.dropWhile_cons, if_neg (by simp [first])]
  have terms : [s.toList, p.toList, o.toList].all
      (fun term => !term.isEmpty && !term.any Unicode.isBlank) = true := by
    have solid {text : String} (h : Solid text) :
        (!text.toList.isEmpty && !text.toList.any Unicode.isBlank) = true := by
      rw [Bool.and_eq_true, Bool.not_eq_true', Bool.not_eq_true', List.isEmpty_eq_false_iff,
        List.any_eq_false]
      exact ⟨h.filled, fun c member => by rw [h.whole c member]; decide⟩
    simp only [List.all_cons, List.all_nil, solid subject.solid, solid predicate.solid,
      solid object.solid, Bool.and_self]
  rw [statement?, dropWhile_indent, whole, start, Text.segments_append subject.solid.free,
    Text.segments_append predicate.solid.free, Text.segments_append object.solid.free,
    Text.segments_of_notMem (by decide)]
  show (if _ then _ else _) = _
  rw [if_pos terms, subject.expand, predicate.expand, object.expand]

theorem statement?_none {l : List Char}
    (short : (Text.segments ' ' (l.dropWhile Unicode.isBlank)).length < 4) :
    statement? declared l = none := by
  unfold statement?
  split
  next same =>
    rw [same] at short
    simp at short
  next => rfl

theorem statement?_bracket {s : String} (member : s ∈ brackets) (depth : Nat) :
    statement? declared (line depth s).toList = none := by
  have short : ∀ s ∈ brackets,
      (Text.segments ' ' (s.toList.dropWhile Unicode.isBlank)).length < 4 := by decide
  apply statement?_none
  rw [dropWhile_indent]
  exact short s member

end RdfXmlMapping.Conformance.Query
