import RdfXmlMapping.Query.Basic

/-! Queries as text, line by line. -/

namespace RdfXmlMapping.Query

def rowVariable : String := "triple"

def line (depth : Nat) (s : String) : String := .ofList (List.replicate (2 * depth) ' ') ++ s

def Term.text : Term → String
  | var n => "?v" ++ toString n
  | iri text => text
  | type text => text

/-- A term in the template, where the predicate that states a class has a word of its own. -/
def Term.templateText : Term → String
  | type _ => "a"
  | t => t.text

def Triple.text (t : Triple) : String :=
  t.subject.text ++ " " ++ t.predicate.text ++ " " ++ t.object.text ++ " ."

def Triple.templateText (t : Triple) : String :=
  t.subject.templateText ++ " " ++ t.predicate.templateText ++ " " ++ t.object.templateText ++ " ."

mutual

def Pattern.lines (depth : Nat) : Pattern → List String
  | .triple t => [line depth t.text]
  | .optional group =>
    line depth "OPTIONAL \x7b" :: groupLines (depth + 1) group ++ [line depth "\x7d"]
  | .union [] => []
  | .union (b :: bs) =>
    line depth "\x7b" :: groupLines (depth + 1) b ++ line depth "\x7d" :: branchLines depth bs

def groupLines (depth : Nat) : List Pattern → List String
  | [] => []
  | p :: ps => p.lines depth ++ groupLines depth ps

def branchLines (depth : Nat) : List (List Pattern) → List String
  | [] => []
  | b :: bs =>
    line depth "UNION" :: line depth "\x7b" :: groupLines (depth + 1) b ++
      line depth "\x7d" :: branchLines depth bs

end

def RowValue.text : RowValue → String
  | term t => t.text
  | atRow row t otherwise =>
    "IF(?" ++ rowVariable ++ " = " ++ toString row ++ ", " ++ t.text ++ ", " ++
      otherwise.text ++ ")"

def Projection.lines (p : Projection) (b : Bindings) : List String :=
  [line 1 ("VALUES ?" ++ rowVariable ++ " \x7b " ++
      " ".intercalate ((List.range p.rows).map toString) ++ " \x7d"),
    line 1 ("BIND(" ++ p.subject.text ++ " AS ?" ++ b.subject ++ ")"),
    line 1 ("BIND(" ++ p.predicate.text ++ " AS ?" ++ b.predicate ++ ")"),
    line 1 ("BIND(" ++ p.object.text ++ " AS ?" ++ b.object ++ ")"),
    line 1 ("FILTER(BOUND(?" ++ b.subject ++ ") && BOUND(?" ++ b.object ++ "))")]

/-- The declarations of the prefixes, with an empty line after them. -/
def headLines (q : Query) : List String :=
  q.prefixes.map (fun (name, uri) => "PREFIX " ++ name ++ ": <" ++ uri ++ ">") ++
    (if q.prefixes.isEmpty then [] else [""])

def bodyLines (q : Query) (b : Bindings) : QueryForm → List String
  | .construct =>
    "CONSTRUCT \x7b" :: q.template.map (fun t => line 1 t.templateText) ++
      ["\x7d", "WHERE \x7b"] ++ groupLines 1 q.pattern ++ ["\x7d"]
  | .select =>
    ["SELECT DISTINCT ?" ++ b.subject ++ " ?" ++ b.predicate ++ " ?" ++ b.object, "WHERE \x7b"] ++
      groupLines 1 q.pattern ++
      ((Projection.ofTemplate? q.template).elim [] (·.lines b)) ++ ["\x7d"]

def render (q : Query) (form : QueryForm) (b : Bindings) : String :=
  String.join ((headLines q ++ bodyLines q b form).map (· ++ "\n"))

end RdfXmlMapping.Query
