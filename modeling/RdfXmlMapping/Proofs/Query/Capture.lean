import RdfXmlMapping.Proofs.Query.Columns
import RdfXmlMapping.Proofs.Query.Trees

/-!
The variables in scope where the columns of a query are bound. `columns_new_iff`: each column is a
new variable iff the names configured for the columns differ from each other, from the variable of
the row and from the variables of the pattern.
-/

namespace RdfXmlMapping

/-- The names of the columns. -/
def Bindings.columns (b : Bindings) : List String := [b.subject, b.predicate, b.object]

namespace Query

/-- The names that a clause brings into scope. -/
def Clause.names : Clause → List String
  | rows _ => [rowVariable]
  | bind _ column => [column]
  | filter _ _ => []

/-- A column has to be bound to a variable that is not in scope yet. -/
def Clause.BindsNew (scope : List String) : Clause → Prop
  | bind _ column => column ∉ scope
  | rows _ | filter _ _ => True

/-- Each clause finds in scope what was there before and what the clauses before it brought. -/
def BindNew (scope : List String) : List Clause → Prop
  | [] => True
  | c :: cs => c.BindsNew scope ∧ BindNew (c.names ++ scope) cs

/-- The names of the variables in the triples of conditions. -/
def patternNames (ps : List Pattern) : List String :=
  ((groupTriples ps).flatMap (·.vars)).map variableName

variable {ps : List Pattern} {scope : List String} {b : Bindings}

theorem mem_patternNames {name : String} :
    name ∈ patternNames ps ↔ ∃ n, Mentions (groupTriples ps) n ∧ variableName n = name := by
  simp only [patternNames, List.mem_map, List.mem_flatMap, Mentions]

theorem rowVariable_not_mem : rowVariable ∉ patternNames ps := by
  rw [mem_patternNames]
  rintro ⟨n, _, same⟩
  exact rowVariable_ne n same.symm

theorem bindNew_clauses (p : Projection) : BindNew scope (p.clauses b) ↔
    b.columns.Nodup ∧ rowVariable ∉ b.columns ∧ ∀ name ∈ scope, name ∉ b.columns := by
  have fresh : (∀ name ∈ scope, name ∉ b.columns) ↔ ∀ column ∈ b.columns, column ∉ scope :=
    ⟨fun h column member inside => h column inside member,
      fun h column inside member => h column member inside⟩
  rw [fresh]
  simp only [Bindings.columns, Projection.clauses, BindNew, Clause.BindsNew, Clause.names,
    List.cons_append, List.nil_append, List.mem_cons, List.not_mem_nil, or_false, not_or,
    List.nodup_cons, forall_eq_or_imp, forall_eq]
  grind

theorem mentions_lt {m : Model} {q : Query} (h : ofModel m = .ok q) {n : Nat}
    (mentioned : Mentions (groupTriples q.pattern) n) : n < q.variableCount := by
  obtain ⟨facts, table, expansion, written, _, count, template⟩ := ofModel_writes h
  obtain ⟨t, member, inside⟩ := mentioned
  exact count ▸ vars_lt expansion written (template ▸ member) inside

/-- The columns of a query with rows are new variables iff their names differ from each other, from
the variable of the row and from the variables of the pattern, whose numbers are below the count. -/
theorem columns_new_iff {s : Source} {q : Query} (form : s.config.form = .select)
    (h : ofModel s.model = .ok q) (template : q.template ≠ []) :
    ∃ p, Projection.ofTemplate? q.template = some p ∧
      generate s = .ok (String.join ((headLines q ++ (["SELECT DISTINCT ?" ++
        s.config.bindings.subject ++ " ?" ++ s.config.bindings.predicate ++ " ?" ++
        s.config.bindings.object, "WHERE \x7b"] ++ groupLines 1 q.pattern ++
        (p.clauses s.config.bindings).map (fun c => line 1 c.text) ++ ["\x7d"])).map (· ++ "\n"))) ∧
      (∀ n, Mentions (groupTriples q.pattern) n → n < q.variableCount) ∧
      rowVariable ∉ patternNames q.pattern ∧
      (BindNew (patternNames q.pattern) (p.clauses s.config.bindings) ↔
        s.config.bindings.columns.Nodup ∧ rowVariable ∉ s.config.bindings.columns ∧
          ∀ n, Mentions (groupTriples q.pattern) n →
            variableName n ∉ s.config.bindings.columns) := by
  obtain ⟨t, ts, split⟩ := List.exists_cons_of_ne_nil template
  obtain ⟨p, made⟩ : ∃ p, Projection.ofTemplate? q.template = some p := ⟨_, by rw [split]; rfl⟩
  refine ⟨p, made, ?_, fun n => mentions_lt h, rowVariable_not_mem, ?_⟩
  · rw [generate, h]
    change Except.ok (render q s.config.form s.config.bindings) = _
    rw [form, render, bodyLines, made]
    rfl
  · rw [bindNew_clauses]
    simp only [mem_patternNames, forall_exists_index, and_imp, forall_apply_eq_imp_iff₂]

/-- People, listed in rows with the given columns. -/
def census (columns : Bindings) : Source where
  model := (Model.make "census" "office").rootedAt ["Person"]
    |>.declaring { Class.make "Person" "Person" with meaning := some "https://ex.org/Person" }
  manifests := []
  config := { form := .select, bindings := columns }

def censusQuery : Query where
  prefixes := [
    ("ns0", "http://www.w3.org/1999/02/22-rdf-syntax-ns#"), ("ns1", "https://ex.org/")]
  template := [classTriple 0 "ns0:type" "ns1:Person"]
  pattern := [.triple (classTriple 0 "ns0:type" "ns1:Person")]
  variableCount := 1

set_option maxRecDepth 20000 in
theorem ofModel_census (columns : Bindings) : ofModel (census columns).model = .ok censusQuery := by
  cbv

theorem columns_new_iff_census : (census {}).config.form = .select ∧
    ofModel (census {}).model = .ok censusQuery ∧ censusQuery.template ≠ [] ∧
    ∃ p, Projection.ofTemplate? censusQuery.template = some p ∧
      BindNew (patternNames censusQuery.pattern) (p.clauses {}) := by
  have template : censusQuery.template ≠ [] := List.cons_ne_nil _ _
  obtain ⟨p, made, _, _, _, new⟩ :=
    columns_new_iff (s := census {}) rfl (ofModel_census {}) template
  refine ⟨rfl, ofModel_census {}, template, p, made, new.mpr ⟨by decide, by decide, ?_⟩⟩
  exact fun n _ => apart_default.vars n

/-- Nothing keeps the configuration from giving a column the name of a variable of the pattern. -/
theorem column_captured : (census { subject := "v0" }).config.form = .select ∧
    (generate (census { subject := "v0" })).isOk ∧
    ofModel (census { subject := "v0" }).model = .ok censusQuery ∧
    Mentions (groupTriples censusQuery.pattern) 0 ∧ "v0" = variableName 0 ∧
    ∃ p, Projection.ofTemplate? censusQuery.template = some p ∧
      ¬ BindNew (patternNames censusQuery.pattern) (p.clauses { subject := "v0" }) := by
  have mentioned : Mentions (groupTriples censusQuery.pattern) 0 :=
    ⟨_, List.mem_singleton_self _, List.mem_cons_self⟩
  have name : "v0" = variableName 0 := by decide
  refine ⟨rfl, ?_, ofModel_census _, mentioned, name, _, rfl, fun new => ?_⟩
  · rw [generate, ofModel_census]
    rfl
  · exact (bindNew_clauses _).mp new |>.2.2 _ (mem_patternNames.mpr ⟨0, mentioned, rfl⟩)
      (name ▸ List.mem_cons_self)

end Query

end RdfXmlMapping
