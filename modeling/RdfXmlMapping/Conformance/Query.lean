import RdfXmlMapping.Config.Basic
import RdfXmlMapping.Conformance.Report
import RdfXmlMapping.Text.Replace
import RdfXmlMapping.Text.Segments
import RdfXmlMapping.Unicode.Ranges
import RdfXmlMapping.Unicode.Word
import RdfXmlMapping.Vocabulary

/-!
A query is checked as text: its prefixes are declared; what it builds is what it looks for; or its
columns have the configured names.
-/

namespace RdfXmlMapping.Conformance.Query

def declarationWord : List Char := ['P', 'R', 'E', 'F', 'I', 'X']

def isLetter (c : Char) : Bool := c.isAlpha

/-- The prefix at the beginning of a text, which may be empty, and what follows its colon. -/
def scanPrefix? (cs : List Char) : Option (List Char × List Char) :=
  let name := if cs.head?.any isLetter then
      cs.takeWhile fun c => Unicode.isWordChar c || c = '-'
    else []
  match cs.drop name.length with
  | ':' :: rest => some (name, rest)
  | _ => none

/-! ### Declared prefixes -/

/-- A declaration at the beginning of a text: prefix, namespace, and what follows. -/
def scanDeclaration? (cs : List Char) : Option ((String × String) × List Char) := do
  let r ← Text.after? declarationWord cs
  if r.head?.any Unicode.isBlank then
    let (name, r) ← scanPrefix? (r.dropWhile Unicode.isBlank)
    match r.dropWhile Unicode.isBlank with
    | '<' :: r =>
      let (uri, rest) ← Text.cut? ['>'] r
      return ((.ofList name, .ofList uri), rest)
    | _ => none
  else none

/-- The declarations in a text, each from the beginning of a line. The first `skip` characters
belong to a declaration that has been found, `atStart` says that a line begins here. -/
def declarationsFrom : (skip : Nat) → (atStart : Bool) → List Char → List (String × String)
  | _, _, [] => []
  | skip + 1, _, c :: cs => declarationsFrom skip (c = '\n') cs
  | 0, atStart, c :: cs =>
    match if atStart then scanDeclaration? (c :: cs) else none with
    | some (declaration, rest) =>
      declaration :: declarationsFrom (cs.length - rest.length) false cs
    | none => declarationsFrom 0 (c = '\n') cs

/-- The declared prefixes, each once; the last of several declarations counts. -/
def declarations (query : String) : List (String × String) :=
  (declarationsFrom 0 true query.toList).foldl
    (fun table d => table.filter (·.1 != d.1) ++ [d]) []

/-! ### Used prefixes -/

/-- Empties the IRIs in angle brackets. `skip` characters are passed over. -/
def emptyIris : (skip : Nat) → List Char → List Char
  | _, [] => []
  | skip + 1, _ :: cs => emptyIris skip cs
  | 0, c :: cs =>
    if c = '<' then
      let (body, rest) := cs.span fun c => c ≠ '<' && c ≠ '>' && !Unicode.isBlank c
      if rest.head? = some '>' then '<' :: '>' :: emptyIris (body.length + 1) cs
      else c :: emptyIris 0 cs
    else c :: emptyIris 0 cs

/-- The prefix of a name at the beginning of a text, and what follows the first letter of its local
part. -/
def scanUse? (cs : List Char) : Option (String × List Char) :=
  match scanPrefix? cs with
  | some (name, c :: rest) => if isLetter c || c = '_' then some (.ofList name, rest) else none
  | _ => none

/-- A character after which a name may begin. -/
def separates (c : Char) : Bool :=
  Unicode.isBlank c || c = '(' || c = '\x7b' || c = ',' || c = ';'

/-- The prefixes of the names in a line. The first `skip` characters belong to a name that has been
found, `atStart` says that the line begins here. -/
def usesFrom : (skip : Nat) → (atStart : Bool) → List Char → List String
  | _, _, [] => []
  | skip + 1, _, _ :: cs => usesFrom skip false cs
  | 0, atStart, c :: cs =>
    match (if atStart then scanUse? (c :: cs) else none).or
        (if separates c then scanUse? cs else none) with
    | some (name, rest) => name :: usesFrom (cs.length - rest.length) false cs
    | none => usesFrom 0 false cs

/-- The prefixes of the names in a query, one for each name. Declarations are passed over. -/
def uses (query : String) : List String :=
  let body := Text.lines (emptyIris 0 query.toList)
  (body.filter fun l => !declarationWord.isPrefixOf l).flatMap (usesFrom 0 true)

def checkPrefixes (query : String) (declared : List (String × String)) : Finding :=
  let check := "sparql/prefixes"
  let used := uses query
  match Text.sorted ((used.filter fun p => !declared.any (·.1 == p)).map (· ++ ":")) with
  | [] => .passed check (toString used.length ++ " prefixed names over " ++
      toString declared.length ++ " prefixes")
  | undeclared => .failed check "undeclared prefixes" undeclared

/-! ### Template and pattern -/

/-- A triple with its terms written out. -/
structure Statement where
  subject : String
  predicate : String
  object : String
  deriving DecidableEq, Repr

/-- A term written out: without brackets, or with its prefix replaced. -/
def expand (declared : List (String × String)) (term : List Char) : String :=
  let other :=
    match term.span (· ≠ ':') with
    | (name, _ :: localName) =>
      match declared.find? (·.1 == String.ofList name) with
      | some (_, uri) => uri ++ .ofList localName
      | none => .ofList term
    | (_, []) => .ofList term
  match term with
  | ['a'] => Vocabulary.rdfType
  | '<' :: r => if r.getLast? = some '>' then .ofList r.dropLast else other
  | _ => other

/-- The triple on a line: three terms and a point, with one blank between each two. -/
def statement? (declared : List (String × String)) (line : List Char) : Option Statement :=
  match Text.segments ' ' (line.dropWhile Unicode.isBlank) with
  | [s, p, o, ['.']] =>
    if [s, p, o].all fun term => !term.isEmpty && !term.any Unicode.isBlank then
      some ⟨expand declared s, expand declared p, expand declared o⟩
    else none
  | _ => none

def Statement.le (a b : Statement) : Bool :=
  Text.notAfter [a.subject, a.predicate, a.object] [b.subject, b.predicate, b.object]

/-- The triples in a block of lines, in order and each once. -/
def statements (declared : List (String × String)) (block : List Char) : List Statement :=
  ((Text.lines block).filterMap (statement? declared)).eraseDups.mergeSort Statement.le

def Statement.text (t : Statement) : String :=
  t.subject ++ " <" ++ t.predicate ++ "> " ++ t.object

/-- A query in which the pattern begins before the template cannot be taken apart. -/
inductive Obstacle where
  | patternFirst
  deriving DecidableEq, Repr

/-- What begins the template. -/
def templateMark : List Char := "CONSTRUCT \x7b".toList

/-- What begins the pattern. -/
def patternMark : List Char := "\nWHERE \x7b".toList

/-- The template and the pattern of a query, if it has both. -/
def blocks (query : String) : Except Obstacle (Option (List Char × List Char)) :=
  let cs := query.toList
  match Text.cut? templateMark cs, Text.cut? patternMark cs with
  | some (before, _), some (head, tail) =>
    if before.length > head.length then .error .patternFirst
    else .ok (some (head.drop before.length, patternMark ++ tail))
  | _, _ => .ok none

def checkConstruct (query : String) (declared : List (String × String)) :
    Except Obstacle Finding := do
  let check := "sparql/construct"
  match ← blocks query with
  | none => return .failed check "missing CONSTRUCT template or WHERE pattern" []
  | some (template, pattern) =>
    let template := statements declared template
    let pattern := statements declared pattern
    if template = pattern then
      return .passed check
        ("template and pattern agree on " ++ toString template.length ++ " triples")
    else
      return .failed check "template and pattern differ"
        ((template.filter (!pattern.contains ·)).map ("template only: " ++ ·.text) ++
          (pattern.filter (!template.contains ·)).map ("pattern only: " ++ ·.text))

/-! ### Columns -/

def projection (b : Bindings) : String :=
  "SELECT DISTINCT ?" ++ b.subject ++ " ?" ++ b.predicate ++ " ?" ++ b.object

def checkSelect (query : String) (b : Bindings) : Finding :=
  let check := "sparql/select"
  if Text.occurs (projection b).toList query.toList then
    .passed check ("projection is `" ++ projection b ++ "`")
  else .failed check ("projection does not match `" ++ projection b ++ "`") []

def check (query : String) (b : Bindings) : Except Obstacle Report := do
  let declared := declarations query
  let form ←
    if Text.occurs templateMark query.toList then checkConstruct query declared
    else if Text.occurs ['S', 'E', 'L', 'E', 'C', 'T'] query.toList then pure (checkSelect query b)
    else pure (.failed "sparql/form" "query is neither CONSTRUCT nor SELECT" [])
  return [checkPrefixes query declared, form]

end RdfXmlMapping.Conformance.Query
