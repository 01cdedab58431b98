import RdfXmlMapping.Config.Basic

/-!
Queries: triples to look for, in groups that may be missing and groups of which one applies. The
triples to be built are also listed as rows, where a row number chooses one of them.
-/

namespace RdfXmlMapping.Query

/-- A place of a triple: a variable, an IRI as it is written, or the predicate that states the class
of a resource. -/
inductive Term where
  | var (n : Nat)
  | iri (text : String)
  | type (text : String)
  deriving DecidableEq, Repr

/-- A triple with variables. -/
structure Triple where
  subject : Term
  predicate : Term
  object : Term
  deriving DecidableEq, Repr

/-- A condition on a graph: a triple, a group that may be missing, or groups of which one applies.
-/
inductive Pattern where
  | triple (t : Triple)
  | optional (group : List Pattern)
  | union (branches : List (List Pattern))
  deriving Repr

end Query

/-- A query: prefixes with their namespaces, the triples to be built, the condition under which they
are, and the number of variables. -/
structure Query where
  prefixes : List (String × String)
  template : List Query.Triple
  pattern : List Query.Pattern
  variableCount : Nat
  deriving Repr

end RdfXmlMapping

namespace RdfXmlMapping.Query

/-- The value of a column: a term, or a term for one row and another value for all others. -/
inductive RowValue where
  | term (t : Term)
  | atRow (row : Nat) (t : Term) (otherwise : RowValue)
  deriving DecidableEq, Repr

/-- The value that is `t` in the row `row` and the further terms in the rows after it. -/
def RowValue.ofTerms (row : Nat) (t : Term) : List Term → RowValue
  | [] => .term t
  | t' :: ts => .atRow row t (ofTerms (row + 1) t' ts)

/-- The columns of the rows from 0 to `rows - 1`. -/
structure Projection where
  rows : Nat
  subject : RowValue
  predicate : RowValue
  object : RowValue
  deriving DecidableEq, Repr

/-- One row for each triple, if there is any. -/
def Projection.ofTemplate? : List Triple → Option Projection
  | [] => none
  | t :: ts => some {
      rows := ts.length + 1
      subject := .ofTerms 0 t.subject (ts.map (·.subject))
      predicate := .ofTerms 0 t.predicate (ts.map (·.predicate))
      object := .ofTerms 0 t.object (ts.map (·.object)) }

end RdfXmlMapping.Query
