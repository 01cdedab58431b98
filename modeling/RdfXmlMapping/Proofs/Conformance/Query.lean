import Mathlib
import RdfXmlMapping.Model.Build
import RdfXmlMapping.Proofs.Conformance.Statements

/-!
The check of queries passes every query that is generated (`check_generate`): prefixes are declared,
the template and the pattern are read as the same triples, and the columns are found.
-/

namespace RdfXmlMapping.Conformance.Query

open RdfXmlMapping.Query (Free IsWord Meaningful Term Triple line groupTriples)
open Text (unlines Unbroken)

variable {entries declared : List (String × String)} {q : RdfXmlMapping.Query} {b : Bindings}

/-! ### Prefixes -/

theorem templateLines_head? : ∀ l ∈ templateLines q, l.toList.head? = some ' ' := by
  intro l member
  obtain ⟨t, -, rfl⟩ := List.mem_map.mp member
  exact Query.line_head? (by omega) _

theorem patternLines_head? : ∀ l ∈ patternLines q, l.toList.head? = some ' ' :=
  fun l member => (Query.mem_groupLines q.pattern 1 l member).head?

/-- Declarations stand in the head only. -/
theorem body_head? (form : QueryForm) :
    ∀ l ∈ Query.bodyLines q b form, l.toList.head? ≠ some 'P' := by
  intro l member
  have indented (h : l.toList.head? = some ' ') : l.toList.head? ≠ some 'P' := by
    rw [h]
    decide
  cases form with
  | construct =>
    simp only [bodyLines_construct, List.mem_append, List.mem_cons, List.not_mem_nil,
      or_false] at member
    rcases member with (((rfl | inside) | rfl | rfl) | inside) | rfl
    · decide
    · exact indented (templateLines_head? l inside)
    · decide
    · decide
    · exact indented (patternLines_head? l inside)
    · decide
  | select =>
    rcases List.mem_append.mp member with member | last
    · rcases List.mem_append.mp member with member | columns
      · rcases List.mem_append.mp member with head | inside
        · rcases List.mem_cons.mp head with rfl | head
          · simp [String.toList_append]
          · obtain rfl := List.mem_singleton.mp head
            decide
        · exact indented (patternLines_head? l inside)
      · cases made : Query.Projection.ofTemplate? q.template with
        | none =>
          rw [made] at columns
          cases columns
        | some p =>
          rw [made] at columns
          simp only [Option.elim_some, Query.Projection.lines, List.mem_cons, List.not_mem_nil,
            or_false] at columns
          refine indented ?_
          rcases columns with rfl | rfl | rfl | rfl | rfl
          all_goals exact Query.line_head? (by omega) _
    · obtain rfl := List.mem_singleton.mp last
      decide

theorem declarations_render (h : Meaningful q entries) (words : b.AreWords) (form : QueryForm) :
    declarations (q.render form b) = q.prefixes := by
  have lines : Query.headLines q ++ Query.bodyLines q b form = q.prefixes.map declarationLine ++
      ((if q.prefixes.isEmpty then [] else [""]) ++ Query.bodyLines q b form) := by
    rw [headLines_eq, List.append_assoc]
  refine declarations_eq (declarable_of_meaningful h) (prefixes_distinct h) ?_
    (lines ▸ Query.render_toList q form b)
  intro l member
  refine ⟨(render_unbroken h words form l ?_).1, ?_⟩
  · rw [lines]
    exact List.mem_append_right _ member
  · rcases List.mem_append.mp member with last | body
    · obtain rfl := eq_empty_of_mem last
      decide
    · exact body_head? form l body

theorem checkPrefixes_conforms (h : Meaningful q entries) (words : b.AreWords) (form : QueryForm) :
    (checkPrefixes (q.render form b) q.prefixes).severity = .pass := by
  have used : uses (q.render form b) ⊆ entries.map (·.2) :=
    uses_subset (words_of_meaningful h) (render_legible h words form) (Query.render_toList q form b)
  have none : (uses (q.render form b)).filter (fun p => !q.prefixes.any (·.1 == p)) = [] := by
    rw [List.filter_eq_nil_iff]
    intro name member
    obtain ⟨e, present, rfl⟩ := List.mem_map.mp (used member)
    have declared : q.prefixes.any (·.1 == e.2) = true := by
      rw [h.prefixes]
      exact List.any_eq_true.mpr ⟨_, List.mem_map_of_mem present, beq_self_eq_true _⟩
    rw [declared]
    decide
  have sorted : Text.sorted [] = [] := by simp [Text.sorted]
  rw [checkPrefixes, none, List.map_nil, sorted]
  rfl

/-! ### Template and pattern -/

/-- A triple with its terms read as the declarations say. -/
def Statement.ofTriple (declared : List (String × String)) (t : Triple) : Statement :=
  ⟨expand declared t.subject.text.toList, expand declared t.predicate.text.toList,
    expand declared t.object.text.toList⟩

variable {t : Triple}

theorem statement?_text (h : Meaningful q entries) (means : ∃ x y z, t.Means entries x y z)
    (depth : Nat) : statement? q.prefixes (line depth t.text).toList =
      some (.ofTriple q.prefixes t) := by
  obtain ⟨x, y, z, subject, predicate, object⟩ := means
  have subject := reads_term h subject
  have predicate := reads_term h predicate
  have object := reads_term h object
  rw [Triple.text, statement?_line subject predicate object, Statement.ofTriple, subject.expand,
    predicate.expand, object.expand]

theorem statement?_templateText (h : Meaningful q entries)
    (means : ∃ x y z, t.Means entries x y z) (depth : Nat) :
    statement? q.prefixes (line depth t.templateText).toList = some (.ofTriple q.prefixes t) := by
  obtain ⟨x, y, z, subject, predicate, object⟩ := means
  rw [Triple.templateText, statement?_line (reads_templateTerm h subject)
    (reads_templateTerm h predicate) (reads_templateTerm h object), Statement.ofTriple,
    (reads_term h subject).expand, (reads_term h predicate).expand, (reads_term h object).expand]

/-- The template as it stands in the text. -/
def templateBlock (q : RdfXmlMapping.Query) : List Char :=
  unlines (("CONSTRUCT \x7b" :: templateLines q).map String.toList) ++ ['\x7d']

/-- The pattern as it stands in the text. -/
def patternBlock (q : RdfXmlMapping.Query) : List Char :=
  unlines (("" :: "WHERE \x7b" :: patternLines q ++ ["\x7d"]).map String.toList)

theorem written_unbroken (h : Meaningful q entries) {ls : List String}
    (written : ∀ l ∈ ls, Written (entries.map (·.2)) l) : ∀ l ∈ ls, Unbroken l.toList :=
  fun l member => (written l member).unbroken (words_of_meaningful h)

theorem statements_template (h : Meaningful q entries) :
    (Text.lines (templateBlock q)).filterMap (statement? q.prefixes) =
      q.template.map (.ofTriple q.prefixes) := by
  have unbroken : ∀ l ∈ ("CONSTRUCT \x7b" :: templateLines q).map String.toList, Unbroken l := by
    rw [List.map_cons, List.forall_mem_cons, List.forall_mem_map]
    exact ⟨⟨by decide, by decide⟩, written_unbroken h (templateLines_written h)⟩
  have first : statement? q.prefixes "CONSTRUCT \x7b".toList = none :=
    statement?_none (by decide)
  have last : statement? q.prefixes ['\x7d'] = none := statement?_none (by decide)
  have inside : (templateLines q).filterMap (fun l => statement? q.prefixes l.toList) =
      q.template.map (.ofTriple q.prefixes) := by
    rw [templateLines, List.filterMap_map, ← List.filterMap_eq_map]
    refine List.filterMap_congr fun t member => ?_
    rw [Function.comp_apply, statement?_templateText h (h.means t member) 1]
    rfl
  rw [templateBlock, Text.lines_unlines_append unbroken ⟨by decide, by decide⟩ (by decide),
    List.map_cons, List.cons_append, List.filterMap_cons, first, List.filterMap_append,
    List.filterMap_map, List.filterMap_cons, last, List.filterMap_nil, List.append_nil]
  exact inside

theorem statements_pattern (h : Meaningful q entries) :
    (Text.lines (patternBlock q)).filterMap (statement? q.prefixes) =
      q.template.map (.ofTriple q.prefixes) := by
  have unbroken : ∀ l ∈ ("" :: "WHERE \x7b" :: patternLines q ++ ["\x7d"]).map String.toList,
      Unbroken l := by
    rw [List.forall_mem_map, List.cons_append, List.forall_mem_cons, List.cons_append,
      List.forall_mem_cons, List.forall_mem_append, List.forall_mem_singleton]
    exact ⟨⟨by decide, by decide⟩, ⟨by decide, by decide⟩,
      written_unbroken h (patternLines_written h), by decide, by decide⟩
  have empty : statement? q.prefixes "".toList = none := statement?_none (by decide)
  have first : statement? q.prefixes "WHERE \x7b".toList = none :=
    statement?_none (by decide)
  have last : statement? q.prefixes "\x7d".toList = none := statement?_none (by decide)
  have inside : (patternLines q).filterMap (fun l => statement? q.prefixes l.toList) =
      q.template.map (.ofTriple q.prefixes) := by
    rw [h.template]
    exact Query.filterMap_groupLines q.pattern 1 (fun s member d => statement?_bracket member d)
      fun t member d => statement?_text h (h.means t (h.template ▸ member)) d
  rw [patternBlock, Text.lines_unlines unbroken, List.filterMap_map, List.cons_append,
    List.cons_append, List.filterMap_cons, Function.comp_apply, empty, List.filterMap_cons,
    Function.comp_apply, first, List.filterMap_append, List.filterMap_cons, Function.comp_apply,
    last, List.filterMap_nil, List.append_nil]
  exact inside

theorem statements_agree (h : Meaningful q entries) :
    statements q.prefixes (templateBlock q) = statements q.prefixes (patternBlock q) := by
  rw [statements, statements, statements_template h, statements_pattern h]

/-- The lines before the pattern. -/
def linesBefore (q : RdfXmlMapping.Query) : List String :=
  Query.headLines q ++ "CONSTRUCT \x7b" :: templateLines q ++ ["\x7d"]

theorem linesBefore_head? : ∀ l ∈ linesBefore q, l.toList.head? ≠ some 'W' := by
  intro l member
  simp only [linesBefore, headLines_eq, List.mem_append, List.mem_cons, List.not_mem_nil,
    or_false] at member
  rcases member with (((declared | last) | rfl | inside) | rfl)
  · obtain ⟨d, -, rfl⟩ := List.mem_map.mp declared
    simp [declarationLine]
  · obtain rfl := eq_empty_of_mem last
    decide
  · decide
  · rw [templateLines_head? l inside]
    decide
  · decide

theorem render_construct (q : RdfXmlMapping.Query) (b : Bindings) :
    (q.render .construct b).toList = unlines ((linesBefore q).map String.toList) ++
      ("WHERE \x7b".toList ++ '\n' ::
        unlines ((patternLines q ++ ["\x7d"]).map String.toList)) := by
  rw [Query.render_toList, bodyLines_construct]
  simp [linesBefore, unlines]

theorem unlines_linesBefore (q : RdfXmlMapping.Query) :
    unlines ((linesBefore q).map String.toList) =
      (unlines ((Query.headLines q).map String.toList) ++ templateBlock q) ++ ['\n'] := by
  simp [linesBefore, templateBlock, unlines]

theorem cut?_template (h : Meaningful q entries) :
    ∃ rest, Text.cut? templateMark (q.render .construct b).toList =
      some (unlines ((Query.headLines q).map String.toList), rest) := by
  obtain ⟨rest, whole⟩ : ∃ rest, (q.render .construct b).toList =
      unlines ((Query.headLines q).map String.toList) ++ (templateMark ++ rest) := by
    rw [render_construct, unlines_linesBefore, templateBlock, List.map_cons, Text.unlines_cons]
    simp only [List.append_assoc]
    exact ⟨_, rfl⟩
  have absent : ∀ l ∈ (Query.headLines q).map String.toList, ¬ templateMark <:+: l := by
    rw [List.forall_mem_map]
    exact fun l member => (headLines_written h l member).notTemplate (words_of_meaningful h)
  refine ⟨rest, ?_⟩
  rw [whole, Text.cut?_unlines (by decide) (by decide) absent, Text.cut?_append (by decide)]
  simp

theorem cut?_pattern (h : Meaningful q entries) (words : b.AreWords) :
    Text.cut? patternMark (q.render .construct b).toList =
      some (unlines ((Query.headLines q).map String.toList) ++ templateBlock q,
        '\n' :: unlines ((patternLines q ++ ["\x7d"]).map String.toList)) := by
  have free : ∀ k ∈ (linesBefore q).map String.toList, '\n' ∉ k := by
    rw [List.forall_mem_map]
    intro l member
    refine (render_unbroken h words .construct l ?_).1
    simp only [linesBefore, List.mem_append, List.mem_cons, List.not_mem_nil, or_false] at member
    simp only [bodyLines_construct, List.mem_append, List.mem_cons, List.not_mem_nil, or_false]
    tauto
  have absent : ∀ k ∈ (linesBefore q).map String.toList, k.head? ≠ "WHERE \x7b".toList.head? := by
    rw [List.forall_mem_map]
    exact linesBefore_head?
  have before := unlines_linesBefore q
  rw [render_construct]
  cases lines : (linesBefore q).map String.toList with
  | nil => simp [linesBefore] at lines
  | cons l ls =>
    rw [lines] at free absent before
    obtain ⟨found, same, cut⟩ := Text.cut?_unlines_break (by decide) free
      (fun k member => absent k (List.mem_cons_of_mem _ member)) (by decide)
      ('\n' :: unlines ((patternLines q ++ ["\x7d"]).map String.toList))
    rw [List.append_cancel_right (same.symm.trans before)] at cut
    exact cut

theorem blocks_render (h : Meaningful q entries) (words : b.AreWords) :
    blocks (q.render .construct b) = .ok (some (templateBlock q, patternBlock q)) := by
  obtain ⟨rest, cut⟩ := cut?_template (b := b) h
  have block : patternMark ++ '\n' :: unlines ((patternLines q ++ ["\x7d"]).map String.toList) =
      patternBlock q := by
    have mark : patternMark = "".toList ++ '\n' :: "WHERE \x7b".toList := by decide
    rw [patternBlock, List.cons_append, List.cons_append, List.map_cons, List.map_cons,
      Text.unlines_cons, Text.unlines_cons, mark, List.append_assoc, List.cons_append]
  rw [blocks, cut, cut?_pattern h words]
  show (if _ then _ else _) = _
  rw [if_neg (by simp), List.drop_left, block]

theorem checkConstruct_conforms (h : Meaningful q entries) (words : b.AreWords) :
    ∃ f, checkConstruct (q.render .construct b) q.prefixes = .ok f ∧ f.severity = .pass := by
  refine ⟨.passed "sparql/construct" ("template and pattern agree on " ++
    toString (statements q.prefixes (templateBlock q)).length ++ " triples"), ?_, rfl⟩
  rw [checkConstruct, blocks_render h words]
  show (if _ then _ else _) = _
  rw [if_pos (statements_agree h)]
  rfl

/-! ### Columns -/

theorem projection_toList (b : Bindings) :
    ∃ columns, (projection b).toList = "SELECT".toList ++ columns := by
  have start : "SELECT DISTINCT ?" = "SELECT" ++ " DISTINCT ?" := by decide
  unfold projection
  rw [start]
  simp only [String.append_assoc, String.toList_append]
  exact ⟨_, rfl⟩

/-- What stands in the line of the columns stands in the query. -/
theorem occurs_render {piece : List Char} (filled : piece ≠ [])
    (inside : piece <:+: (projection b).toList) :
    Text.occurs piece (q.render .select b).toList = true := by
  have line : projection b ∈ Query.headLines q ++ Query.bodyLines q b .select :=
    List.mem_append_right _ (List.mem_append_left _ (List.mem_append_left _
      (List.mem_append_left _ List.mem_cons_self)))
  rw [Text.occurs_iff filled, Query.render_toList]
  exact Text.infix_unlines (List.mem_map_of_mem line) inside

theorem checkSelect_conforms (b : Bindings) :
    (checkSelect (q.render .select b) b).severity = .pass := by
  obtain ⟨columns, start⟩ := projection_toList b
  have filled : (projection b).toList ≠ [] := by
    rw [start]
    exact List.append_ne_nil_of_left_ne_nil (by decide) _
  rw [checkSelect, if_pos (occurs_render filled (List.infix_refl _))]
  rfl

theorem occurs_select (q : RdfXmlMapping.Query) (b : Bindings) :
    Text.occurs ['S', 'E', 'L', 'E', 'C', 'T'] (q.render .select b).toList = true := by
  obtain ⟨columns, start⟩ := projection_toList b
  have word : ['S', 'E', 'L', 'E', 'C', 'T'] = "SELECT".toList := by decide
  rw [word]
  exact occurs_render (by decide) ⟨[], columns, start.symm⟩

theorem occurs_template_select (h : Meaningful q entries) (words : b.AreWords) :
    Text.occurs templateMark (q.render .select b).toList = false := by
  rw [Query.render_toList]
  refine Text.occurs_unlines (by decide) (by decide) ?_
  rw [List.forall_mem_map, List.forall_mem_append]
  exact ⟨fun l member => (headLines_written h l member).notTemplate (words_of_meaningful h),
    fun l member => (bodyLines_select_written h words l member).notTemplate (words_of_meaningful h)⟩

/-! ### All checks -/

theorem check_render (h : Meaningful q entries) (words : b.AreWords) (form : QueryForm) :
    ∃ report, check (q.render form b) b = .ok report ∧ report.isConforming := by
  have first := checkPrefixes_conforms h words form
  have conforming (f g : Finding) (hf : f.severity = .pass) (hg : g.severity = .pass) :
      Report.isConforming [f, g] := by
    simp [Report.isConforming, Report.count, hf, hg]
  rw [check, declarations_render h words form]
  cases form with
  | construct =>
    obtain ⟨rest, cut⟩ := cut?_template (b := b) h
    have mark : Text.occurs templateMark (q.render .construct b).toList = true := by
      rw [Text.occurs, cut]
      rfl
    obtain ⟨f, run, passed⟩ := checkConstruct_conforms h words
    refine ⟨[checkPrefixes (q.render .construct b) q.prefixes, f], ?_, conforming _ _ first passed⟩
    rw [if_pos mark, run]
    rfl
  | select =>
    refine ⟨[checkPrefixes (q.render .select b) q.prefixes, checkSelect (q.render .select b) b], ?_,
      conforming _ _ first (checkSelect_conforms b)⟩
    rw [if_neg (by rw [occurs_template_select h words]; decide), if_pos (occurs_select q b)]
    rfl

/-- The check passes the query of every model whose IRIs can be written between angle brackets: it
finds no prefix that is not declared, and reads the same triples in the template and the pattern. -/
theorem generated_query_conforms {s : Source} {text : String} (plain : s.model.PlainIris)
    (words : s.config.bindings.AreWords) (h : RdfXmlMapping.Query.generate s = .ok text) :
    (∃ report, check text s.config.bindings = .ok report ∧ report.isConforming) ∧
      uses text ⊆ (declarations text).map (·.1) ∧
      (s.config.form = .construct → ∃ template pattern,
        blocks text = .ok (some (template, pattern)) ∧
          statements (declarations text) template = statements (declarations text) pattern) := by
  obtain ⟨q, made, h⟩ := except_bind_ok h
  obtain rfl := Except.ok.inj h
  obtain ⟨entries, meaningful⟩ := Query.ofModel_meaningful plain made
  have names : q.prefixes.map (·.1) = entries.map (·.2) := by
    rw [meaningful.prefixes, List.map_map]
    rfl
  refine ⟨check_render meaningful words s.config.form, ?_, fun form => ?_⟩
  · rw [declarations_render meaningful words, names]
    exact uses_subset (words_of_meaningful meaningful) (render_legible meaningful words _)
      (Query.render_toList q _ _)
  · rw [declarations_render meaningful words, form]
    exact ⟨templateBlock q, patternBlock q, blocks_render meaningful words,
      statements_agree meaningful⟩

/-- A cart, which has an IRI without a local name, and its wheels, which need not be known. -/
def carts (form : QueryForm) : Source where
  model := (Model.make "carts" "work").rootedAt ["Cart"]
    |>.declaring ({ Class.make "Cart" "Cart" with meaning := some "urn:cart" }.declaring
      { (Property.make "wheels" "https://ex.org/wheels").primitive
          "http://www.w3.org/2001/XMLSchema#decimal" with least := 0 })
  manifests := []
  config := { form }

def cartsQuery : RdfXmlMapping.Query :=
  let isCart : Triple := ⟨.var 0, .type "ns0:type", .iri "<urn:cart>"⟩
  let wheels : Triple := ⟨.var 0, .iri "ns1:wheels", .var 1⟩
  { prefixes := [
      ("ns0", "http://www.w3.org/1999/02/22-rdf-syntax-ns#"), ("ns1", "https://ex.org/")]
    template := [isCart, wheels]
    pattern := [.triple isCart, .optional [.triple wheels]]
    variableCount := 2 }

set_option maxRecDepth 20000 in
theorem ofModel_carts (form : QueryForm) :
    RdfXmlMapping.Query.ofModel (carts form).model = .ok cartsQuery := by cbv

theorem generated_query_conforms_carts :
    (∃ text, RdfXmlMapping.Query.generate (carts .construct) = .ok text ∧
      ∃ report, check text {} = .ok report ∧ report.isConforming) ∧
    (∃ text, RdfXmlMapping.Query.generate (carts .select) = .ok text ∧
      ∃ report, check text {} = .ok report ∧ report.isConforming) := by
  have run (form : QueryForm) :
      RdfXmlMapping.Query.generate (carts form) = .ok (cartsQuery.render form {}) := by
    rw [RdfXmlMapping.Query.generate, ofModel_carts form]
    rfl
  have plain (form : QueryForm) : (carts form).model.PlainIris := by
    constructor
    · intro c member iri meaning
      obtain rfl := List.mem_singleton.mp member
      obtain rfl := Option.some.inj meaning
      decide
    · rintro p ⟨c, member, declared⟩
      obtain rfl := List.mem_singleton.mp member
      obtain rfl := List.mem_singleton.mp declared
      decide
  have words : Bindings.AreWords {} := ⟨by decide, by decide, by decide⟩
  exact ⟨⟨_, run .construct, (generated_query_conforms (plain .construct) words (run _)).1⟩,
    _, run .select, (generated_query_conforms (plain .select) words (run _)).1⟩

end RdfXmlMapping.Conformance.Query
