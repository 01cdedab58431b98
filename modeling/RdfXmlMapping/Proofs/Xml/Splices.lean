import RdfXmlMapping.Proofs.Xml.Calls

/-!
Calls that close what they open, and fragments put into a document that is written later. Main
statement: `splice_exact`. A fragment that a writer of its own has written, and that is put in as it
is, cannot be told from one whose calls are made in its place.
-/

namespace RdfXmlMapping.Xml

/-! ### Steps -/

/-- A step of writing: a call, lines that have been written already, or a fragment, which a writer
of its own writes as if it stood at a depth. -/
inductive Step where
  | call (c : Call)
  | raw (text : String)
  | splice (depth : Nat) (steps : List Step)
  deriving Repr

def Step.call? : Step → Option Call
  | .call c => some c
  | .raw _ | .splice _ _ => none

namespace Writer

mutual

def step (w : Writer) : Step → Writer
  | .call c => w.call c
  | .raw text => w.raw text
  | .splice depth steps => w.raw (run { base := depth } steps).finish

def run (w : Writer) : List Step → Writer
  | [] => w
  | s :: steps => run (step w s) steps

end

theorem run_calls (w : Writer) (calls : List Call) :
    w.run (calls.map .call) = calls.foldl call w := by
  induction calls generalizing w with
  | nil => rfl
  | cons c cs ih => exact ih _

end Writer

/-- How many of the elements opened by calls are open after one more; none is ended that the calls
have not opened. -/
def Call.levelAfter? (level : Nat) : Call → Option Nat
  | .start _ _ => some (level + 1)
  | .empty _ _ | .text _ _ _ => some level
  | .stop => if level = 0 then none else some (level - 1)

/-- Calls that close all that they open and nothing else. -/
def Balanced (calls : List Call) : Prop := calls.foldlM Call.levelAfter? 0 = some 0

instance (calls : List Call) : Decidable (Balanced calls) := inferInstanceAs (Decidable (_ = _))

theorem Balanced.append {calls more : List Call} (h : Balanced calls) (h' : Balanced more) :
    Balanced (calls ++ more) := by
  rw [Balanced, List.foldlM_append, h]
  exact h'

/-- Elements that are open from outside do not change the count. -/
theorem levelAfter?_above {calls : List Call} {level level' : Nat}
    (counted : calls.foldlM Call.levelAfter? level = some level') (outside : Nat) :
    calls.foldlM Call.levelAfter? (level + outside) = some (level' + outside) := by
  induction calls generalizing level with
  | nil => rw [Option.some.inj counted]; rfl
  | cons c cs ih =>
    obtain ⟨between, first, others⟩ := Option.bind_eq_some_iff.mp counted
    have above : c.levelAfter? (level + outside) = some (between + outside) := by
      cases c with
      | stop =>
        simp only [Call.levelAfter?] at first ⊢
        split at first
        · cases first
        · obtain rfl := Option.some.inj first
          rw [if_neg (by omega), Option.some.injEq]
          omega
      | start _ _ =>
        obtain rfl := Option.some.inj first
        exact congrArg some (by omega)
      | _ =>
        obtain rfl := Option.some.inj first
        rfl
    rw [List.foldlM_cons, above]
    exact ih others

theorem Balanced.enclose {calls : List Call} (h : Balanced calls) (name : String)
    (attributes : Attributes) : Balanced (.start name attributes :: (calls ++ [.stop])) := by
  have inside : calls.foldlM Call.levelAfter? 1 = some 1 := levelAfter?_above h 1
  change (calls ++ [Call.stop]).foldlM Call.levelAfter? 1 = some 0
  rw [List.foldlM_append, inside]
  rfl

/-! ### A writer inside another one -/

namespace Writer

variable {outer inner w : Writer} {c : Call} {calls : List Call} {steps : List Step} {level : Nat}

theorem call_base (w : Writer) (c : Call) : (w.call c).base = w.base := by
  cases c with
  | stop =>
    rw [call, endTag]
    split <;> rfl
  | _ => rfl

theorem calls_base (w : Writer) (calls : List Call) : (calls.foldl call w).base = w.base := by
  induction calls generalizing w with
  | nil => rfl
  | cons c cs ih => exact (ih _).trans (w.call_base c)

theorem call_level (counted : c.levelAfter? w.stack.length = some level) :
    (w.call c).stack.length = level := by
  cases c with
  | stop =>
    obtain ⟨text, _ | ⟨name, opened⟩, base⟩ := w
    · cases counted
    · exact Option.some.inj counted
  | _ => exact Option.some.inj counted

/-- A writer with all that another one has written and left open in it. -/
def holding (outer inner : Writer) : Writer where
  text := outer.text ++ inner.text
  stack := inner.stack ++ outer.stack
  base := outer.base

theorem holding_new (w : Writer) : w.holding { base := w.depth } = w := by simp [holding]

theorem holding_raw (text : String) :
    (outer.holding inner).raw text = outer.holding (inner.raw text) := by
  simp [holding, raw, String.append_assoc]

theorem holding_depth (stands : inner.base = outer.depth) :
    (outer.holding inner).depth = inner.depth := by
  simp [depth, holding, stands]
  omega

/-- A call that ends no element of the outer writer is made by the inner one. -/
theorem holding_call (stands : inner.base = outer.depth)
    (counted : c.levelAfter? inner.stack.length = some level) :
    (outer.holding inner).call c = outer.holding (inner.call c) := by
  have deep := holding_depth stands
  cases c with
  | start name attributes =>
    simp only [call, startTag, deep, holding_raw]
    rfl
  | empty name attributes => simp only [call, emptyTag, deep, holding_raw]
  | text name attributes content => simp only [call, textElement, deep, holding_raw]
  | stop =>
    obtain ⟨text, _ | ⟨name, opened⟩, base⟩ := inner
    · cases counted
    · have below : outer.base + (opened.length + outer.stack.length) = base + opened.length := by
        change base = _ at stands
        rw [stands, depth]
        omega
      simp [call, endTag, holding, raw, String.append_assoc, below]

theorem holding_run (stands : inner.base = outer.depth)
    (counted : (steps.filterMap Step.call?).foldlM Call.levelAfter? inner.stack.length =
      some level) :
    (outer.holding inner).run steps = outer.holding (inner.run steps) ∧
      (inner.run steps).stack.length = level := by
  induction steps generalizing inner with
  | nil => exact ⟨rfl, Option.some.inj counted⟩
  | cons s steps ih =>
    rw [run, run]
    cases s with
    | call c =>
      obtain ⟨between, first, others⟩ := Option.bind_eq_some_iff.mp counted
      rw [step, step, holding_call stands first]
      exact ih ((inner.call_base c).trans stands) (call_level first ▸ others)
    | raw text =>
      rw [step, step, holding_raw]
      exact ih stands counted
    | splice depth fragment =>
      rw [step, step, holding_raw]
      exact ih stands counted

/-- A writer takes steps as a new writer at its depth does. -/
theorem run_new (w : Writer)
    (counted : (steps.filterMap Step.call?).foldlM Call.levelAfter? 0 = some level) :
    w.run steps = w.holding (run { base := w.depth } steps) ∧
      (run { base := w.depth } steps).stack.length = level := by
  have stands : ({ base := w.depth } : Writer).base = w.depth := rfl
  have taken := holding_run stands counted
  rwa [holding_new] at taken

/-- Elements that steps open lie above those that were open before. -/
theorem run_stack (w : Writer)
    (counted : (steps.filterMap Step.call?).foldlM Call.levelAfter? 0 = some level) :
    ∃ opened, (w.run steps).stack = opened ++ w.stack ∧ opened.length = level := by
  obtain ⟨same, length⟩ := w.run_new counted
  exact ⟨_, congrArg stack same, length⟩

/-- Steps whose calls are balanced write the same as a fragment that stands at the depth of the
writer. -/
theorem run_balanced (w : Writer) (balanced : Balanced (steps.filterMap Step.call?)) :
    w.run steps = w.step (.splice w.depth steps) := by
  obtain ⟨same, length⟩ := w.run_new balanced
  have ended := List.length_eq_zero_iff.mp length
  rw [same, step, finish, ended]
  simp [holding, raw, ended, endLines]

/-- Where the open elements cannot be counted any further, an end has met none. -/
theorem end_unmet (uncounted : calls.foldlM Call.levelAfter? w.stack.length = none) :
    ∃ before after, calls = before ++ .stop :: after ∧ (before.foldl call w).stack = [] := by
  induction calls generalizing w with
  | nil => cases uncounted
  | cons c cs ih =>
    have others := Option.bind_eq_none_iff.mp uncounted
    cases counted : c.levelAfter? w.stack.length with
    | none =>
      cases c with
      | stop =>
        have bare : w.stack = [] := by
          by_contra opened
          simp [Call.levelAfter?, opened] at counted
        exact ⟨[], cs, rfl, bare⟩
      | _ => cases counted
    | some level =>
      obtain ⟨before, after, rfl, met⟩ := ih (call_level counted ▸ others level counted)
      exact ⟨c :: before, after, rfl, met⟩

end Writer

theorem filterMap_calls (calls : List Call) :
    (calls.map Step.call).filterMap Step.call? = calls := by
  rw [List.filterMap_map]
  exact List.filterMap_some

/-- Calls are balanced exactly if they leave the stack of every writer as it is and end none of the
elements that were open before them. -/
theorem balanced_iff {calls : List Call} : Balanced calls ↔ ∀ w : Writer,
    (calls.foldl Writer.call w).stack = w.stack ∧
      ∀ before after, calls = before ++ .stop :: after →
        w.stack.length < (before.foldl Writer.call w).stack.length := by
  have tracked (w : Writer) {calls : List Call} {level : Nat}
      (counted : calls.foldlM Call.levelAfter? 0 = some level) :
      ∃ opened, (calls.foldl Writer.call w).stack = opened ++ w.stack ∧ opened.length = level := by
    rw [← Writer.run_calls]
    exact w.run_stack (by rwa [filterMap_calls])
  constructor
  · intro balanced w
    constructor
    · obtain ⟨opened, stack, length⟩ := tracked w balanced
      rw [stack, List.length_eq_zero_iff.mp length, List.nil_append]
    · rintro before after rfl
      rw [Balanced, List.foldlM_append] at balanced
      obtain ⟨level, counted, rest⟩ := Option.bind_eq_some_iff.mp balanced
      obtain ⟨opened, stack, length⟩ := tracked w counted
      have some_open : level ≠ 0 := by
        rintro rfl
        cases rest
      rw [stack, List.length_append]
      omega
  · intro leaves
    cases counted : calls.foldlM Call.levelAfter? 0 with
    | none =>
      obtain ⟨before, after, split, met⟩ := Writer.end_unmet (w := {}) counted
      have opened := (leaves {}).2 before after split
      rw [met] at opened
      exact absurd opened (lt_irrefl _)
    | some level =>
      obtain ⟨opened, stack, length⟩ := tracked {} counted
      rw [(leaves {}).1] at stack
      obtain ⟨rfl, -⟩ := List.append_eq_nil_iff.mp stack.symm
      rw [Balanced, counted, ← length, List.length_nil]

/-! ### Fragments -/

/-- Steps that close what they open and nothing else may be taken by a writer at a depth, or by a
new writer at that depth whose text is then put in as it is: the writer ends with the same text and
the same open elements, which are those that it had. -/
theorem splice_exact {steps : List Step} (balanced : Balanced (steps.filterMap Step.call?))
    (w : Writer) {depth : Nat} (stands : w.base + w.stack.length = depth) :
    w.run steps = w.raw (Writer.run { base := depth } steps).finish ∧
      (w.run steps).stack = w.stack := by
  obtain rfl := stands
  have same : w.run steps = w.raw (Writer.run { base := w.depth } steps).finish :=
    w.run_balanced balanced
  exact ⟨same, by rw [same]; rfl⟩

/-- An album with a line that is written already, and with a track from a fragment that leaves an
element open. -/
def album : List Step := [
  .call (.start "album" [("year", "1967")]),
  .call (.text "title" [] "Songs & Dances"),
  .raw "      <!-- tracks -->\n",
  .splice 3 [.call (.start "track" []), .call (.empty "side" [("name", "B")])],
  .call (.empty "label" []),
  .call .stop]

/-- A writer inside an element, which is itself to stand in a document. -/
def insideShelf : Writer := ({ base := 1 } : Writer).startTag "shelf" []

theorem splice_exact_album : Balanced (album.filterMap Step.call?) ∧
    insideShelf.base + insideShelf.stack.length = 2 ∧
    insideShelf.run album = insideShelf.raw (Writer.run { base := 2 } album).finish ∧
    (insideShelf.run album).stack = ["shelf"] := by
  have balanced : Balanced (album.filterMap Step.call?) := by decide
  have stands : insideShelf.base + insideShelf.stack.length = 2 := rfl
  exact ⟨balanced, stands, splice_exact balanced insideShelf stands⟩

end RdfXmlMapping.Xml
