import Mathlib
import RdfXmlMapping.Proofs.Fresh
import RdfXmlMapping.Proofs.Query.Evaluation
import RdfXmlMapping.Query.Text

/-!
The clauses that fill the columns, evaluated one after the other on the variables of a solution.
`columns_hold_built`: their rows are the triples that the template builds from the solution, so that
both forms of a query say the same.
-/

namespace RdfXmlMapping.Query

def variableName (n : Nat) : String := "v" ++ toString n

/-- The value of a variable in a row: the number of the row, or a node of the graph. -/
inductive Value (Node : Type) where
  | row (k : Nat)
  | node (x : Node)

def Value.isRow {Node : Type} (k : Nat) : Value Node → Bool
  | row j => j = k
  | node _ => false

/-- The values of variables by name; a name without a value is unbound. -/
abbrev Env (Node : Type) := String → Option (Value Node)

inductive Clause where
  | rows (count : Nat)
  | bind (value : RowValue) (column : String)
  | filter (first second : String)

def Clause.text : Clause → String
  | rows count => "VALUES ?" ++ rowVariable ++ " \x7b " ++
      " ".intercalate ((List.range count).map toString) ++ " \x7d"
  | bind value column => "BIND(" ++ value.text ++ " AS ?" ++ column ++ ")"
  | filter first second => "FILTER(BOUND(?" ++ first ++ ") && BOUND(?" ++ second ++ "))"

def Projection.clauses (p : Projection) (b : Bindings) : List Clause :=
  [.rows p.rows, .bind p.subject b.subject, .bind p.predicate b.predicate,
    .bind p.object b.object, .filter b.subject b.object]

/-! ### Evaluation -/

section

variable {Node : Type} (read : String → Node)

def Term.eval (env : Env Node) : Term → Option (Value Node)
  | var n => env (variableName n)
  | iri text | type text => some (.node (read text))

/-- The condition of an `IF` is evaluated first, and then only the value that it chooses. -/
def RowValue.eval (env : Env Node) : RowValue → Option (Value Node)
  | term t => t.eval read env
  | atRow k t otherwise =>
    match env rowVariable with
    | some (.row j) => if j = k then t.eval read env else otherwise.eval env
    | _ => none

/-- What a clause makes of the variables. A column must be unbound before, and stays so if its value
is. -/
def Clause.apply (env : Env Node) : Clause → List (Env Node)
  | rows count =>
    ((List.range count).filter fun k => (env rowVariable).all (Value.isRow k)).map fun k =>
      Function.update env rowVariable (some (.row k))
  | bind value column =>
    if (env column).isNone then [Function.update env column (value.eval read env)] else []
  | filter first second => if (env first).isSome && (env second).isSome then [env] else []

def evaluate : List Clause → Env Node → List (Env Node)
  | [], env => [env]
  | c :: cs, env => (c.apply read env).flatMap (evaluate cs)

end

open Classical in
/-- The variables of a solution under their names. -/
noncomputable def Env.ofSolution {Node : Type} (μ : Solution Node) : Env Node := fun name =>
  if h : ∃ n, name = variableName n then (μ h.choose).map .node else none

abbrev Columns (Node : Type) := Option (Value Node) × Option (Value Node) × Option (Value Node)

def Env.columns {Node : Type} (env : Env Node) (b : Bindings) : Columns Node :=
  (env b.subject, env b.predicate, env b.object)

def Statement.columns {Node : Type} (x : Statement Node) : Columns Node :=
  (some (.node x.subject), some (.node x.predicate), some (.node x.object))

/-- The names of columns differ from each other and from all names that the query uses itself. -/
structure Apart (b : Bindings) : Prop where
  distinct : [b.subject, b.predicate, b.object].Nodup
  row : rowVariable ∉ [b.subject, b.predicate, b.object]
  vars : ∀ n, variableName n ∉ [b.subject, b.predicate, b.object]

variable {Node : Type} {read : String → Node} {μ : Solution Node} {env : Env Node} {k : Nat}
  {column : String} {value : RowValue} {cs : List Clause}

theorem variableName_injective : Function.Injective variableName := by
  intro n k same
  have chars := congrArg String.toList same
  simp only [variableName, String.toList_append, List.append_cancel_left_eq] at chars
  exact toString_injective (String.toList_injective chars)

theorem rowVariable_ne (n : Nat) : rowVariable ≠ variableName n := by
  intro same
  have chars := congrArg String.toList same
  simp [rowVariable, variableName] at chars

theorem ofSolution_variable (n : Nat) :
    Env.ofSolution μ (variableName n) = (μ n).map .node := by
  have h : ∃ k, variableName n = variableName k := ⟨n, rfl⟩
  rw [Env.ofSolution, dif_pos h, ← variableName_injective h.choose_spec]

theorem ofSolution_other {name : String} (other : ∀ n, name ≠ variableName n) :
    Env.ofSolution μ name = none := dif_neg fun ⟨n, same⟩ => other n same

/-- The row is chosen and the variables of the solution are as they were. -/
structure Carries (μ : Solution Node) (k : Nat) (env : Env Node) : Prop where
  row : env rowVariable = some (.row k)
  vars : ∀ n, env (variableName n) = (μ n).map .node

theorem Carries.update (h : Carries μ k env) (row : rowVariable ≠ column)
    (vars : ∀ n, variableName n ≠ column) (v : Option (Value Node)) :
    Carries μ k (Function.update env column v) where
  row := by rw [Function.update_of_ne row, h.row]
  vars := fun n => by rw [Function.update_of_ne (vars n), h.vars]

theorem Carries.eval (h : Carries μ k env) (value : RowValue) :
    value.eval read env = ((value.at k).value read μ).map .node := by
  have term : ∀ t : Term, t.eval read env = (t.value read μ).map .node := by
    intro t
    cases t with
    | var n => exact h.vars n
    | iri text | type text => rfl
  induction value with
  | term t => exact term t
  | atRow j t otherwise ih =>
    rw [RowValue.eval, h.row, RowValue.at]
    by_cases chosen : k = j
    · simp [chosen, term t]
    · simp [chosen, ih]

theorem evaluate_bind (free : env column = none) : evaluate read (.bind value column :: cs) env =
    evaluate read cs (Function.update env column (value.eval read env)) := by
  simp [evaluate, Clause.apply, free]

/-- The columns are filled in one row; it is kept if subject and object are bound. -/
theorem evaluate_row {p : Projection} {b : Bindings} (apart : Apart b) (h : Carries μ k env)
    (free : ∀ column ∈ [b.subject, b.predicate, b.object], env column = none) (r : Columns Node) :
    r ∈ (evaluate read [.bind p.subject b.subject, .bind p.predicate b.predicate,
        .bind p.object b.object, .filter b.subject b.object] env).map (·.columns b) ↔
      (p.subject.at k).value read μ ≠ none ∧ (p.object.at k).value read μ ≠ none ∧
      r = (((p.subject.at k).value read μ).map .node, ((p.predicate.at k).value read μ).map .node,
        ((p.object.at k).value read μ).map .node) := by
  obtain ⟨distinct, row, vars⟩ := apart
  simp only [List.nodup_cons, List.mem_cons, List.not_mem_nil, or_false, not_or] at distinct
  simp only [List.mem_cons, List.not_mem_nil, or_false, not_or] at row vars
  simp only [List.forall_mem_cons] at free
  obtain ⟨⟨sp, so⟩, po, -⟩ := distinct
  obtain ⟨freeS, freeP, freeO, -⟩ := free
  have h₁ := h.update row.1 (fun n => (vars n).1) (p.subject.eval read env)
  have h₂ := h₁.update row.2.1 (fun n => (vars n).2.1)
  rw [evaluate_bind freeS, evaluate_bind, evaluate_bind, (h₂ _).eval, h₁.eval, h.eval]
  · cases subject : (p.subject.at k).value read μ <;>
      cases object : (p.object.at k).value read μ <;>
      simp [evaluate, Clause.apply, Env.columns, Function.update_of_ne, sp, so, po]
  · rw [Function.update_of_ne (Ne.symm po), Function.update_of_ne (Ne.symm so), freeO]
  · rw [Function.update_of_ne (Ne.symm sp), freeP]

/-- The rows that are left: those of the template whose subject and object are bound. -/
theorem evaluate_clauses {p : Projection} {b : Bindings} (apart : Apart b) (r : Columns Node) :
    r ∈ (evaluate read (p.clauses b) (Env.ofSolution μ)).map (·.columns b) ↔ ∃ k < p.rows,
      (p.subject.at k).value read μ ≠ none ∧ (p.object.at k).value read μ ≠ none ∧
      r = (((p.subject.at k).value read μ).map .node, ((p.predicate.at k).value read μ).map .node,
        ((p.object.at k).value read μ).map .node) := by
  let numbered (k : Nat) : Env Node :=
    Function.update (Env.ofSolution μ) rowVariable (some (.row k))
  have carried (k : Nat) : Carries μ k (numbered k) := by
    refine ⟨Function.update_self .., fun n => ?_⟩
    rw [show numbered k (variableName n) = _ from
      Function.update_of_ne (rowVariable_ne n).symm .., ofSolution_variable]
  have free (k : Nat) : ∀ column ∈ [b.subject, b.predicate, b.object],
      numbered k column = none := by
    intro column member
    have row : column ≠ rowVariable := fun same => apart.row (same ▸ member)
    rw [show numbered k column = _ from Function.update_of_ne row .., ofSolution_other]
    exact fun n same => apart.vars n (same ▸ member)
  have unbound : Env.ofSolution μ rowVariable = none := ofSolution_other rowVariable_ne
  rw [Projection.clauses, evaluate, Clause.apply, unbound]
  simp only [Option.all_none, List.filter_true, List.flatMap_map, List.map_flatMap,
    List.mem_flatMap, List.mem_range]
  exact exists_congr fun k => and_congr_right fun _ => evaluate_row apart (carried k) (free k) r

/-! ### Rows counted from the end -/

/-- A difference that must not lie below zero. -/
def difference? (m n : Nat) : Option Nat := if n ≤ m then some (m - n) else none

/-- The value of a column, made from its last term to its first. The row of a term is counted down
from the number of terms; there is no value if it would lie below zero. -/
def RowValue.fromLast? (terms : List Term) : Option RowValue :=
  match terms.reverse with
  | [] => none
  | last :: earlier => earlier.zipIdx.foldlM (fun value (t, i) => do
      let row ← difference? (← difference? terms.length 2) i
      return .atRow row t value) (.term last)

/-- The value `otherwise` after the rows of some terms, the first of which is `row`. -/
def RowValue.before (otherwise : RowValue) (row : Nat) : List Term → RowValue
  | [] => otherwise
  | t :: ts => .atRow row t (before otherwise (row + 1) ts)

theorem ofTerms_before (row : Nat) (t : Term) (ts : List Term) (init : List Term) (last : Term)
    (split : t :: ts = init ++ [last]) :
    RowValue.ofTerms row t ts = RowValue.before (.term last) row init := by
  induction ts generalizing row t init with
  | nil =>
    cases init with
    | nil => obtain ⟨rfl, -⟩ := List.cons.inj split; rfl
    | cons u us => simp at split
  | cons t' ts ih =>
    cases init with
    | nil => simp at split
    | cons u us =>
      obtain ⟨rfl, rest⟩ := List.cons.inj split
      rw [RowValue.ofTerms, RowValue.before, ih (row + 1) t' us rest]

/-- The terms before the last, from the last of them on. The number of all terms is that of the rows
up to the end of these, of the terms behind them that have been counted, and one. -/
theorem fold_before (total row k : Nat) (otherwise : RowValue) (init : List Term)
    (count : total = row + init.length + k + 1) :
    (init.reverse.zipIdx k).foldlM (fun value (t, i) => do
      let row ← difference? (← difference? total 2) i
      return RowValue.atRow row t value) otherwise = some (otherwise.before row init) := by
  induction init generalizing row with
  | nil => rfl
  | cons t init ih =>
    rw [List.length_cons] at count
    have rest := ih (row + 1) (by omega)
    have two : difference? total 2 = some (total - 2) := if_pos (by omega)
    have here : difference? (total - 2) (k + init.length) = some row := by
      rw [difference?, if_pos (by omega)]
      congr 1
      omega
    rw [List.reverse_cons, List.zipIdx_append, List.foldlM_append, rest]
    simp [two, here, RowValue.before]

theorem fromLast?_eq (t : Term) (ts : List Term) :
    RowValue.fromLast? (t :: ts) = some (.ofTerms 0 t ts) := by
  obtain ⟨init, last, split⟩ :=
    (List.eq_nil_or_concat' (t :: ts)).resolve_left (List.cons_ne_nil t ts)
  rw [RowValue.fromLast?, ofTerms_before 0 t ts init last split, split, List.reverse_append]
  exact fold_before _ 0 0 _ init (by simp)

/-! ### The rows of a query -/

/-- The clauses of a query with a template leave, of each solution, one row for each triple that the
template builds from it, and no others. The rows of a column are counted from the end of the
template, and no count lies below zero. -/
theorem columns_hold_built {q : Query} {b : Bindings} (template : q.template ≠ [])
    (plain : ∀ t ∈ q.template, ∀ n, t.predicate ≠ .var n) (apart : Apart b) :
    ∃ p, Projection.ofTemplate? q.template = some p ∧
      bodyLines q b .select = ["SELECT DISTINCT ?" ++ b.subject ++ " ?" ++ b.predicate ++ " ?" ++
        b.object, "WHERE \x7b"] ++ groupLines 1 q.pattern ++
        (p.clauses b).map (fun c => line 1 c.text) ++ ["\x7d"] ∧
      RowValue.fromLast? (q.template.map (·.subject)) = some p.subject ∧
      RowValue.fromLast? (q.template.map (·.predicate)) = some p.predicate ∧
      RowValue.fromLast? (q.template.map (·.object)) = some p.object ∧
      ∀ (Node : Type) (read : String → Node) (μ : Solution Node) (r : Columns Node),
        r ∈ (evaluate read (p.clauses b) (Env.ofSolution μ)).map (·.columns b) ↔
          ∃ x ∈ built read μ q, x.columns = r := by
  obtain ⟨t, ts, split⟩ := List.exists_cons_of_ne_nil template
  have ⟨p, made⟩ : ∃ p, Projection.ofTemplate? q.template = some p := by
    rw [split]
    exact ⟨_, rfl⟩
  refine ⟨p, made, by rw [bodyLines, made]; rfl, ?_, ?_, ?_, fun Node read μ r => ?_⟩
  · rw [split] at made ⊢
    obtain rfl := Option.some.inj made
    exact fromLast?_eq ..
  · rw [split] at made ⊢
    obtain rfl := Option.some.inj made
    exact fromLast?_eq ..
  · rw [split] at made ⊢
    obtain rfl := Option.some.inj made
    exact fromLast?_eq ..
  rw [evaluate_clauses apart]
  constructor
  · rintro ⟨k, lt, subject, object, rfl⟩
    obtain ⟨s, subject⟩ := Option.ne_none_iff_exists'.mp subject
    obtain ⟨o, object⟩ := Option.ne_none_iff_exists'.mp object
    have row : ⟨s, (p.predicate.at k).value read μ, o⟩ ∈ listed read μ q :=
      ⟨p, made, k, lt, subject, rfl, object⟩
    obtain ⟨u, member, subject', predicate', object'⟩ := listed_iff.mp row
    have ⟨node, named⟩ : ∃ node, u.predicate.value read μ = some node := by
      cases term : u.predicate with
      | var n => exact absurd term (plain u member n)
      | iri text | type text => exact ⟨_, rfl⟩
    refine ⟨⟨s, node, o⟩, ⟨u, member, value_iff.mpr ⟨subject', named, object'⟩⟩, ?_⟩
    rw [subject, object, show (p.predicate.at k).value read μ = _ from predicate'.symm, named]
    rfl
  · rintro ⟨x, ⟨u, member, known⟩, rfl⟩
    obtain ⟨subject, predicate, object⟩ := value_iff.mp known
    have row : ⟨x.subject, some x.predicate, x.object⟩ ∈ listed read μ q :=
      listed_iff.mpr ⟨u, member, subject, predicate, object⟩
    obtain ⟨p', made', k, lt, subject', predicate', object'⟩ := row
    obtain rfl := Option.some.inj (made.symm.trans made')
    refine ⟨k, lt, by simp [subject'], by simp [object'], ?_⟩
    rw [subject', predicate', object']
    rfl

theorem variableName_ne {name : String} (other : name.toList.head? ≠ some 'v') (n : Nat) :
    variableName n ≠ name := by
  rintro rfl
  simp [variableName] at other

/-- The names that columns have unless others are configured. -/
theorem apart_default : Apart {} where
  distinct := by decide
  row := by decide
  vars := by
    intro n member
    simp only [List.mem_cons, List.not_mem_nil, or_false] at member
    rcases member with same | same | same
    · exact variableName_ne (by decide) n same
    · exact variableName_ne (by decide) n same
    · exact variableName_ne (by decide) n same

/-- The class of a book, and an author that it need not have. -/
def bookQuery : Query :=
  let isBook : Triple := ⟨.var 0, .type "ns0:type", .iri "ns1:Book"⟩
  let author : Triple := ⟨.var 0, .iri "ns1:author", .var 1⟩
  { prefixes := [
      ("ns0", "http://www.w3.org/1999/02/22-rdf-syntax-ns#"), ("ns1", "https://ex.org/")]
    template := [isBook, author]
    pattern := [.triple isBook, .optional [.triple author]]
    variableCount := 2 }

theorem columns_hold_built_book :
    Apart {} ∧ ∃ p, Projection.ofTemplate? bookQuery.template = some p ∧
    p.object = .atRow 0 (.iri "ns1:Book") (.term (.var 1)) ∧
    ∀ (Node : Type) (read : String → Node) (μ : Solution Node) (r : Columns Node),
      r ∈ (evaluate read (p.clauses {}) (Env.ofSolution μ)).map (·.columns {}) ↔
        ∃ x ∈ built read μ bookQuery, x.columns = r := by
  have plain : ∀ t ∈ bookQuery.template, ∀ n, t.predicate ≠ .var n := by simp [bookQuery]
  obtain ⟨p, made, _, _, _, _, rows⟩ :=
    columns_hold_built (List.cons_ne_nil _ _) plain apart_default
  refine ⟨apart_default, p, made, ?_, rows⟩
  obtain rfl := Option.some.inj made
  rfl

end RdfXmlMapping.Query
