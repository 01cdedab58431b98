import RdfXmlMapping.Lowering.Document
import RdfXmlMapping.Proofs.Text.Lines

/-!
Expressions read back. What stands between the quotes of a literal is the string that it was made
from, and the expression for the rows of a property tells its predicate and its direction
(`rows?_text`). An expression made of literals and of texts without quotes is cut into tokens at
just these places, whatever the strings are (`tokens?_written`).
-/

namespace RdfXmlMapping.Lowering

/-- The string of a literal after its first quote, and what follows the literal. A quote that is
written twice stands for itself. -/
def unquoted? : List Char → Option (List Char × List Char)
  | '\'' :: '\'' :: cs => (unquoted? cs).map fun (s, rest) => ('\'' :: s, rest)
  | '\'' :: cs => some ([], cs)
  | c :: cs => (unquoted? cs).map fun (s, rest) => (c :: s, rest)
  | [] => none

theorem unquoted?_quoteChar (s : List Char) {rest : List Char} (other : rest.head? ≠ some '\'') :
    unquoted? (s.flatMap quoteChar ++ '\'' :: rest) = some (s, rest) := by
  induction s with
  | nil =>
    cases rest with
    | nil => rfl
    | cons c cs =>
      have different : c ≠ '\'' := fun same => other (congrArg some same)
      simp [unquoted?, different]
  | cons c s ih =>
    rw [List.flatMap_cons, List.append_assoc]
    by_cases quote : c = '\''
    · subst quote
      have twice : quoteChar '\'' = ['\'', '\''] := rfl
      simp [twice, unquoted?, ih]
    · have once : quoteChar c = [c] := if_neg quote
      simp [once, unquoted?, quote, ih]

theorem literal_toList (s : String) :
    (literal s).toList = '\'' :: (s.toList.flatMap quoteChar ++ ['\'']) := by
  rw [literal, String.toList_ofList, List.cons_append]

/-- The role that an instance has in the triples of a property, and what follows it. -/
def role? (cs : List Char) : Option (Bool × List Char) :=
  match Text.after? "$subj".toList cs with
  | some rest => some (false, rest)
  | none => (Text.after? "$obj".toList cs).map fun rest => (true, rest)

/-- The rows that an expression selects. -/
def rows? (text : String) : Option Rows := do
  let rest ← Text.after? "f:rows(".toList text.toList
  let (isReverse, rest) ← role? rest
  let rest ← Text.after? ", $key, '".toList rest
  let (predicate, rest) ← unquoted? rest
  if rest = [')'] then some ⟨.ofList predicate, isReverse⟩ else none

theorem role?_append (isReverse : Bool) (rest : List Char) :
    role? ((if isReverse then "$obj" else "$subj").toList ++ rest) = some (isReverse, rest) := by
  cases isReverse with
  | false =>
    rw [role?]
    simp only [Bool.false_eq_true, if_false, Text.after?_append]
  | true =>
    have other : Text.after? "$subj".toList ("$obj".toList ++ rest) = none := rfl
    rw [role?]
    simp only [if_true, other, Text.after?_append, Option.map_some]

theorem rows?_text (r : Rows) : rows? r.text = some r := by
  have written : r.text.toList =
      "f:rows(".toList ++ ((if r.isReverse then "$obj" else "$subj").toList ++
      (", $key, '".toList ++ (r.predicate.toList.flatMap quoteChar ++ '\'' :: [')']))) := by
    simp [Rows.text, literal_toList]
  have predicate : unquoted? (r.predicate.toList.flatMap quoteChar ++ '\'' :: [')']) =
      some (r.predicate.toList, [')']) := unquoted?_quoteChar _ (by decide)
  rw [rows?, written]
  simp only [Text.after?_append, role?_append, predicate, Option.bind_eq_bind, Option.bind_some,
    if_true, String.ofList_toList]

/-! ### Tokens -/

/-- A string in quotes is one token of an expression, and so is every character that is in none. -/
inductive Token where
  | char (c : Char)
  | string (s : String)
  deriving DecidableEq, Repr

/-- Where a reader of an expression is. -/
inductive Place where
  | outside
  /-- Within quotes, behind these characters of the string. -/
  | inside (quote : Char) (read : List Char)
  /-- Behind a quote that ends the string, unless it is written twice. -/
  | behind (quote : Char) (read : List Char)
  deriving DecidableEq, Repr

structure Lexer where
  done : List Token
  place : Place
  deriving DecidableEq, Repr

namespace Lexer

def isQuote (c : Char) : Bool := c = '\'' ∨ c = '"'

/-- The next character is outside of all strings, or begins one. -/
def enter (done : List Token) (c : Char) : Lexer :=
  if isQuote c then ⟨done, .inside c []⟩ else ⟨done ++ [.char c], .outside⟩

def step (x : Lexer) (c : Char) : Lexer :=
  match x.place with
  | .outside => enter x.done c
  | .inside quote read =>
    ⟨x.done, if c = quote then .behind quote read else .inside quote (read ++ [c])⟩
  | .behind quote read =>
    if c = quote then ⟨x.done, .inside quote (read ++ [c])⟩
    else enter (x.done ++ [.string (.ofList read)]) c

/-- The tokens at the end of an expression; no string may be open there. -/
def finish (x : Lexer) : Option (List Token) :=
  match x.place with
  | .outside => some x.done
  | .inside .. => none
  | .behind _ read => some (x.done ++ [.string (.ofList read)])

end Lexer

/-- The tokens of an expression, of which quotes alone decide. -/
def tokens? (text : String) : Option (List Token) :=
  (text.toList.foldl Lexer.step ⟨[], .outside⟩).finish

/-- A part of an expression: a text that stands in it as it is, or a string put into it as a
literal.
-/
inductive Part where
  | verbatim (text : String)
  | literal (value : String)
  deriving DecidableEq, Repr

namespace Part

def text : Part → String
  | verbatim text => text
  | literal value => Lowering.literal value

def tokens : Part → List Token
  | verbatim text => text.toList.map .char
  | literal value => [.string value]

end Part

/-- The expression that parts make up. -/
def written (parts : List Part) : String := String.join (parts.map Part.text)

/-- Parts that a reader can tell apart: texts without quotes, and literals that do not touch. -/
def areSeparate : List Part → Bool
  | [] => true
  | .verbatim text :: parts =>
    !text.toList.isEmpty && text.toList.all (fun c => !Lexer.isQuote c) && areSeparate parts
  | .literal _ :: .literal _ :: _ => false
  | .literal _ :: parts => areSeparate parts

namespace Lexer

variable {done : List Token} {read cs : List Char}

theorem foldl_verbatim (plain : ∀ c ∈ cs, isQuote c = false) :
    cs.foldl step ⟨done, .outside⟩ = ⟨done ++ cs.map .char, .outside⟩ := by
  induction cs generalizing done with
  | nil => simp
  | cons c cs ih =>
    obtain ⟨first, rest⟩ := List.forall_mem_cons.mp plain
    have next : step ⟨done, .outside⟩ c = ⟨done ++ [.char c], .outside⟩ := by
      simp [step, enter, first]
    rw [List.foldl_cons, next, ih rest, List.map_cons, List.append_assoc]
    rfl

theorem foldl_quoteChar : (cs.flatMap quoteChar).foldl step ⟨done, .inside '\'' read⟩ =
    ⟨done, .inside '\'' (read ++ cs)⟩ := by
  induction cs generalizing read with
  | nil => simp
  | cons c cs ih =>
    have next : (quoteChar c).foldl step ⟨done, .inside '\'' read⟩ =
        ⟨done, .inside '\'' (read ++ [c])⟩ := by
      by_cases quote : c = '\''
      · simp [quoteChar, quote, step]
      · simp [quoteChar, quote, step]
    rw [List.flatMap_cons, List.foldl_append, next, ih, List.append_assoc]
    rfl

theorem foldl_literal (s : String) : (literal s).toList.foldl step ⟨done, .outside⟩ =
    ⟨done, .behind '\'' s.toList⟩ := by
  have opened : step ⟨done, .outside⟩ '\'' = ⟨done, .inside '\'' []⟩ := rfl
  rw [literal_toList, List.foldl_cons, opened, List.foldl_append, foldl_quoteChar]
  rfl

/-- A string is at its end where no quote follows. -/
theorem finish_behind (next : ∀ c ∈ cs.head?, isQuote c = false) :
    (cs.foldl step ⟨done, .behind '\'' read⟩).finish =
      (cs.foldl step ⟨done ++ [.string (.ofList read)], .outside⟩).finish := by
  cases cs with
  | nil => rfl
  | cons c cs =>
    have other : c ≠ '\'' := by
      rintro rfl
      exact absurd (next _ rfl) (by decide)
    have same : step ⟨done, .behind '\'' read⟩ c =
        step ⟨done ++ [.string (.ofList read)], .outside⟩ c := if_neg other
    rw [List.foldl_cons, List.foldl_cons, same]

end Lexer

theorem written_cons (p : Part) (ps : List Part) :
    (written (p :: ps)).toList = p.text.toList ++ (written ps).toList := by
  simp [written]

/-- No text begins with a quote. -/
theorem written_head {ps : List Part} (separate : areSeparate ps)
    (begins : ∀ value, ps.head? ≠ some (.literal value)) :
    ∀ c ∈ (written ps).toList.head?, Lexer.isQuote c = false := by
  cases ps with
  | nil => simp [written]
  | cons p ps =>
    cases p with
    | literal value => exact absurd rfl (begins value)
    | verbatim text =>
      simp only [areSeparate, Bool.and_eq_true, Bool.not_eq_true', List.all_eq_true] at separate
      obtain ⟨⟨filled, plain⟩, -⟩ := separate
      rw [written_cons]
      rw [Part.text]
      cases chars : text.toList with
      | nil =>
        rw [chars] at filled
        cases filled
      | cons d ds =>
        rintro c ⟨⟩
        exact plain d (chars ▸ List.mem_cons_self)

/-- An expression is cut where its parts have been put together. -/
theorem tokens?_written {ps : List Part} (separate : areSeparate ps) :
    tokens? (written ps) = some (ps.flatMap Part.tokens) := by
  suffices each : ∀ done, ((written ps).toList.foldl Lexer.step ⟨done, .outside⟩).finish =
      some (done ++ ps.flatMap Part.tokens) from each []
  induction ps with
  | nil => intro done; simp [written, Lexer.finish]
  | cons p ps ih =>
    intro done
    rw [written_cons, List.foldl_append]
    cases p with
    | verbatim text =>
      simp only [areSeparate, Bool.and_eq_true, Bool.not_eq_true', List.all_eq_true] at separate
      rw [Part.text, Lexer.foldl_verbatim separate.1.2, ih separate.2, List.append_assoc]
      rfl
    | literal value =>
      have rest : areSeparate ps ∧ ∀ value, ps.head? ≠ some (.literal value) := by
        cases ps with
        | nil => exact ⟨rfl, fun _ => nofun⟩
        | cons q qs =>
          cases q with
          | literal other => cases separate
          | verbatim text => exact ⟨separate, fun _ => nofun⟩
      rw [Part.text, Lexer.foldl_literal, Lexer.finish_behind (written_head rest.1 rest.2),
        ih rest.1, String.ofList_toList, List.append_assoc]
      rfl

end RdfXmlMapping.Lowering
