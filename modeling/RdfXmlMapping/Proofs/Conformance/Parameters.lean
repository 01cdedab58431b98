import RdfXmlMapping.Proofs.Conformance.Roots
import RdfXmlMapping.Proofs.Lowering.Readable
import RdfXmlMapping.Proofs.Lowering.Expressions

/-!
The check of the names of the columns. A name is written as a literal, read back as the value of an
attribute, and compared with the name in quotes; the two are the same only for names that no step on
the way changes (`parameters_pass_iff`).
-/

namespace RdfXmlMapping

open Conformance
open Lowering (literal quoteChar)
open Xml (Node ReadAs isSpace normalised readValue)

variable {s : Source} {l : Lowering} {n : Node} {name : String}

/-! ### Names on their way -/

/-- A name is kept by the quotes of a literal and by a reader of attributes: it has no apostrophe,
and no blank but the space. -/
def IsKept (name : String) : Prop := ∀ c ∈ name.toList, c ≠ '\'' ∧ (isSpace c → c = ' ')

theorem isKept_iff : IsKept name ↔
    ∀ c ∈ name.toList, c ≠ '\'' ∧ c ≠ '\t' ∧ c ≠ '\n' ∧ c ≠ '\r' := by
  refine forall₂_congr fun c _ => and_congr_right fun _ => ?_
  by_cases space : c = ' '
  · subst space
    decide
  · simp [isSpace, space, and_assoc]

theorem normalised_blank {cs : List Char} : ∀ c ∈ normalised cs, isSpace c → c = ' ' := by
  intro c member blank
  obtain ⟨d, _, rfl⟩ := List.mem_map.mp member
  split at blank
  · next first => rw [if_pos first]
  · next first => exact absurd blank (by simp [first])

theorem quoteChar_length (c : Char) : 1 ≤ (quoteChar c).length := by
  unfold quoteChar
  split <;> simp

/-- Where quotes are doubled, the text gets longer. -/
theorem quoted_eq_iff {cs : List Char} : cs.flatMap quoteChar = cs ↔ '\'' ∉ cs := by
  have grows (ds : List Char) : ds.length ≤ (ds.flatMap quoteChar).length := by
    induction ds with
    | nil => simp
    | cons d ds ih =>
      have first := quoteChar_length d
      rw [List.flatMap_cons, List.length_append, List.length_cons]
      omega
  induction cs with
  | nil => simp
  | cons c cs ih =>
    by_cases quote : c = '\''
    · subst quote
      have longer := grows cs
      have twice : (quoteChar '\'').length = 2 := rfl
      refine iff_of_false (fun same => ?_) (by simp)
      have lengths := congrArg List.length same
      rw [List.flatMap_cons, List.length_append, List.length_cons] at lengths
      omega
    · have once : quoteChar c = [c] := if_neg quote
      simp [once, ih, Ne.symm quote]

theorem normalised_quoted_iff {cs : List Char} : normalised (cs.flatMap quoteChar) = cs ↔
    ∀ c ∈ cs, c ≠ '\'' ∧ (isSpace c → c = ' ') := by
  have among {c : Char} (member : c ∈ cs.flatMap quoteChar) : c ∈ cs := by
    obtain ⟨d, inside, copy⟩ := List.mem_flatMap.mp member
    unfold quoteChar at copy
    split at copy
    all_goals simp_all
  constructor
  · intro same
    have blank : ∀ c ∈ cs, isSpace c → c = ' ' := same ▸ normalised_blank
    rw [Xml.normalised_spaces fun c member => blank c (among member)] at same
    have free := quoted_eq_iff.mp same
    exact fun c member => ⟨fun quote => free (quote ▸ member), blank c member⟩
  · intro kept
    rw [Xml.normalised_spaces fun c member => (kept c (among member)).2]
    exact quoted_eq_iff.mpr fun member => (kept _ member).1 rfl

theorem readValue_literal_iff : readValue (literal name) = "'" ++ name ++ "'" ↔ IsKept name := by
  have written : normalised (literal name).toList =
      '\'' :: (normalised (name.toList.flatMap quoteChar) ++ ['\'']) := by
    rw [Lowering.literal_toList, Xml.normalised_cons (by decide) rfl,
      Xml.normalised_append (by simp)]
    rfl
  rw [IsKept, ← normalised_quoted_iff, readValue, ← String.toList_inj, String.toList_ofList,
    written]
  simp

/-! ### Parameters as they are read -/

namespace Conformance

theorem checkParameters_pass_iff {b : Bindings} : (checkParameters n b).severity = .pass ↔
    parameterProblem? n "subj" b.subject = none ∧ parameterProblem? n "pred" b.predicate = none ∧
      parameterProblem? n "obj" b.object = none := by
  have all : ([("subj", b.subject), ("pred", b.predicate), ("obj", b.object)].filterMap fun p =>
      parameterProblem? n p.1 p.2) = [] ↔
      parameterProblem? n "subj" b.subject = none ∧ parameterProblem? n "pred" b.predicate = none ∧
        parameterProblem? n "obj" b.object = none := by
    simp [List.filterMap_eq_nil_iff]
  rw [← all]
  unfold checkParameters
  dsimp only
  split
  next none => exact iff_of_true rfl none
  next some => exact iff_of_false (by simp [Finding.failed]) fun none => some none

theorem checkParameters_failed {b : Bindings} (h : (checkParameters n b).severity ≠ .pass) :
    (checkParameters n b).severity = .failure := by
  unfold checkParameters at h ⊢
  dsimp only at h ⊢
  split at h
  · exact absurd rfl h
  · rfl

theorem parameterProblem?_none_iff {e : Node} {column : String}
    (found : (n.childrenNamed Vocabulary.xslt "param").find? (·.attribute? "name" = some name) =
      some e)
    (selects : e.attribute? "select" = some (readValue (literal column))) :
    parameterProblem? n name column = none ↔ IsKept column := by
  rw [parameterProblem?, found, Option.bind_some, selects, ← readValue_literal_iff]
  simp

/-- The three parameters are found by their names, with their literals as these are read. -/
theorem parameterProblem?_read {b : Bindings}
    (parameters : List.Forall₂ (ReadAs "xsl" Vocabulary.xslt) (Lowering.bindingParameters b)
      (n.childrenNamed Vocabulary.xslt "param")) :
    (parameterProblem? n "subj" b.subject = none ↔ IsKept b.subject) ∧
    (parameterProblem? n "pred" b.predicate = none ↔ IsKept b.predicate) ∧
    (parameterProblem? n "obj" b.object = none ↔ IsKept b.object) := by
  have value {name column : String} {e : Node} (read : ReadAs "xsl" Vocabulary.xslt
      (.leaf "xsl:param" [("name", name), ("select", literal column), ("as", "xs:string")]) e)
      (kept : readValue name = name) : e.attribute? "name" = some name ∧
        e.attribute? "select" = some (readValue (literal column)) := by
    refine ⟨(read.value "name").trans ?_, (read.value "select").trans rfl⟩
    exact congrArg some kept
  generalize listed : n.childrenNamed Vocabulary.xslt "param" = ns at parameters
  change List.Forall₂ _ [_, _, _] _ at parameters
  obtain _ | ⟨first, _ | ⟨second, _ | ⟨third, _ | _⟩⟩⟩ := parameters
  obtain ⟨subj, subject⟩ := value first (by decide)
  obtain ⟨pred, predicate⟩ := value second (by decide)
  obtain ⟨obj, object⟩ := value third (by decide)
  refine ⟨?_, ?_, ?_⟩
  · refine parameterProblem?_none_iff ?_ subject
    rw [listed, List.find?_cons_of_pos (by simp [subj])]
  · refine parameterProblem?_none_iff ?_ predicate
    rw [listed, List.find?_cons_of_neg (by simp [subj]), List.find?_cons_of_pos (by simp [pred])]
  · refine parameterProblem?_none_iff ?_ object
    rw [listed, List.find?_cons_of_neg (by simp [subj]), List.find?_cons_of_neg (by simp [pred]),
      List.find?_cons_of_pos (by simp [obj])]

end Conformance

/-! ### The stylesheet of a model -/

theorem Lowering.generate_bindings (h : generate s = .ok l) : l.bindings = s.config.bindings := by
  obtain ⟨_, _, h⟩ := except_bind_ok h
  obtain ⟨_, _, h⟩ := except_bind_ok h
  obtain rfl := Except.ok.inj h
  rfl

/-- The prefixes in a stylesheet are that of the model, those that are published with schemas, and
numbered ones. -/
theorem Lowering.generate_prefixes (h : generate s = .ok l) (plain : s.PlainPrefixes) :
    ∀ e ∈ l.types, ∀ own ∈ e.bound, '=' ∉ own.toList := by
  obtain ⟨o⟩ := generate_outcome h
  intro e member own bound
  rw [o.types] at member
  obtain ⟨c, _, resolved⟩ := o.kept.origins e member
  obtain ⟨manifest, listed, p, present, kind, same⟩ := Import.Outlook.resolve_published resolved
  rw [o.outlook] at listed kind
  rcases (o.kept.sound.free e member own bound).2 with given | ⟨n, rfl⟩
  · exact plain.published manifest listed p present kind own (same ▸ given)
  · intro inside
    rcases List.mem_append.mp (String.toList_append ▸ inside) with first | digit
    · exact absurd first (by decide)
    · exact absurd (toString_digits n '=' digit) (by decide)

/-- No prefix breaks the markup of the stylesheet to documents, in which the one of the model stands
in the names of elements. -/
structure Source.UnmarkedPrefixes (s : Source) : Prop extends s.PlainPrefixes where
  unmarked : ∀ target ∈ s.model.target?, ∀ c ∈ target.1.toList, c ∉ markupChars

theorem Lowering.generate_reads (prefixes : s.UnmarkedPrefixes) (h : generate s = .ok l)
    (parsed : Node.parse? (render l) = some n) : Xml.Reads [] (toXml l) n := by
  obtain ⟨o⟩ := generate_outcome h
  refine Xml.parse?_document (readable_lowering h (fun own member => ?_) ?_) parsed
  · rw [o.target] at member
    obtain ⟨pair, bound, rfl⟩ := Option.map_eq_some_iff.mp member
    exact prefixes.unmarked pair bound
  · exact generate_prefixes h prefixes.toPlainPrefixes

/-- Where prefixes do not break the markup and the stylesheet to documents can be read, the check of
its parameters finds nothing wrong exactly if the names of the columns have no apostrophes, tabs and
line ends. -/
theorem parameters_pass_iff (prefixes : s.UnmarkedPrefixes) (h : Lowering.generate s = .ok l)
    (parsed : Node.parse? (Lowering.render l) = some n) :
    (checkParameters n s.config.bindings).severity = .pass ↔
      ∀ name ∈ [s.config.bindings.subject, s.config.bindings.predicate, s.config.bindings.object],
        ∀ c ∈ name.toList, c ≠ '\'' ∧ c ≠ '\t' ∧ c ≠ '\n' ∧ c ≠ '\r' := by
  have written : l.bindings = s.config.bindings := Lowering.generate_bindings h
  have parameters := Lowering.parameters_read (Lowering.generate_reads prefixes h parsed)
  rw [written] at parameters
  obtain ⟨subject, predicate, object⟩ := parameterProblem?_read parameters
  rw [checkParameters_pass_iff, subject, predicate, object]
  simp only [isKept_iff, List.forall_mem_cons, List.not_mem_nil, false_imp_iff, implies_true,
    and_true]

/-- A clock, of which a row gives the readings in a column with the given name. -/
def clock (column : String) : Source where
  model := (Model.make "clock" "tower").rootedAt ["Clock"]
    |>.declaring { Class.make "Clock" "Clock" with meaning := some "https://ex.org/Clock" }
  manifests := []
  config := { output := { baseAddress := "https://own.org/" }, bindings := { object := column } }

def clockSheet (column : String) : Lowering where
  target := none
  bindings := { object := column }
  types := []
  imports := []
  roots := [⟨"https://ex.org/Clock", 1, ⟨none, "Clock"⟩, "_Clock"⟩]
  templates := [⟨"_Clock", []⟩]

set_option maxRecDepth 2000 in
theorem generate_clock (column : String) :
    Lowering.generate (clock column) = .ok (clockSheet column) := by cbv

theorem clock_prefixes (column : String) : (clock column).UnmarkedPrefixes := by
  refine ⟨⟨?_, ?_⟩, ?_⟩ <;> exact fun _ member => by cases member

open Lowering Stylesheet Vocabulary in
set_option maxRecDepth 20000 in
theorem parse_clock : ∀ column ∈ ["reading", "o'clock"],
    (Node.parse? (render (clockSheet column))).isSome := by
  have first : toString 1 = "1" := rfl
  simp only [render, Xml.parse?_chars]
  unfold clockSheet toXml Lowering.headAttributes Stylesheet.headAttributes outputMethod
    bindingParameters globalVariables functions entryRules valueRules
  simp only [List.forall_mem_cons, List.not_mem_nil, false_imp_iff, implies_true, and_true,
    List.map_nil, List.map_cons, List.filterMap_nil, List.append_nil, List.nil_append,
    List.cons_append]
  unfold RootRule.toXml RootRule.pattern Template.toXml identityOf classCall call argument rule
    template onlyIf valueOf attributeOf copyOf functionNamespace xslt xmlSchema sparqlResults
    xmlSchemaInstance rdfType rdf Xml.QName.text identityElement
  simp only [first, List.map_nil, List.append_nil, Xml.chars, Xml.charsOf, Xml.tagChars,
    Xml.attributeChars, Xml.escape_toList, literal_toList, String.toList_append, List.flatMap_cons,
    List.flatMap_nil]
  simp (disch := rfl) only [Xml.toList_literal]
  decide +kernel

theorem parameters_pass_iff_reading : ∃ n, (clock "reading").UnmarkedPrefixes ∧
    Lowering.generate (clock "reading") = .ok (clockSheet "reading") ∧
    Node.parse? (Lowering.render (clockSheet "reading")) = some n ∧
    (checkParameters n (clock "reading").config.bindings).severity = .pass := by
  obtain ⟨n, parsed⟩ := Option.isSome_iff_exists.mp (parse_clock "reading" (by simp))
  refine ⟨n, clock_prefixes _, generate_clock _, parsed, ?_⟩
  refine (parameters_pass_iff (clock_prefixes _) (generate_clock _) parsed).mpr ?_
  simp [clock]

/-- The check reports a column whose name has an apostrophe, which is doubled in the stylesheet. -/
theorem quoted_name_reported : ∃ n,
    Lowering.generate (clock "o'clock") = .ok (clockSheet "o'clock") ∧
    Node.parse? (Lowering.render (clockSheet "o'clock")) = some n ∧
    (checkParameters n (clock "o'clock").config.bindings).severity = .failure := by
  obtain ⟨n, parsed⟩ := Option.isSome_iff_exists.mp (parse_clock "o'clock" (by simp))
  refine ⟨n, generate_clock "o'clock", parsed, ?_⟩
  have read := Lowering.generate_reads (clock_prefixes _) (generate_clock _) parsed
  obtain ⟨_, _, object⟩ := parameterProblem?_read (Lowering.parameters_read read)
  have quoted : ¬ IsKept "o'clock" := fun kept => (kept '\'' (by decide)).1 rfl
  exact checkParameters_failed fun passed =>
    quoted (object.mp (checkParameters_pass_iff.mp passed).2.2)

end RdfXmlMapping
