import RdfXmlMapping.Proofs.Steps
import RdfXmlMapping.Proofs.Xml.Splices
import RdfXmlMapping.Xml.Element

/-!
Generators that write as they go. Their steps make calls of a writer between others that fail or
change a state; what they write is compared with elements that are made first and written at the end
(`writing`). A document that is written in two parts, the body first, by a writer of its own, has
the text of one element that is written as a whole if both are balanced (`Draft.of_text`).
-/

namespace RdfXmlMapping.Xml

variable {α β σ ε : Type}

/-! ### The calls for elements -/

namespace Element

mutual

/-- The calls that write an element. -/
@[simp]
def script : Element → List Call
  | .node name attributes children => .start name attributes :: (scripts children ++ [.stop])
  | .leaf name attributes => [.empty name attributes]
  | .text name attributes content => [.text name attributes content]

@[simp]
def scripts : List Element → List Call
  | [] => []
  | e :: es => script e ++ scripts es

end

variable {es fs : List Element}

@[simp]
theorem scripts_append : scripts (es ++ fs) = scripts es ++ scripts fs := by
  induction es with
  | nil => rfl
  | cons e es ih => simp [ih]

theorem scripts_map (f : α → Element) (xs : List α) :
    scripts (xs.map f) = xs.flatMap fun x => script (f x) := by
  induction xs with
  | nil => rfl
  | cons x xs ih => simp [ih]

theorem scripts_flatten (f : α → List Element) (xss : List (List α)) :
    scripts (xss.flatten.flatMap f) = xss.flatMap fun xs => scripts (xs.flatMap f) := by
  induction xss with
  | nil => rfl
  | cons xs xss ih => simp [ih]

mutual

theorem write_script (w : Writer) : ∀ e : Element, write w e = (script e).foldl Writer.call w
  | .node name attributes children => by
    rw [write, script, writeAll_scripts _ children]
    simp [Writer.call]
  | .leaf name attributes => rfl
  | .text name attributes content => rfl

theorem writeAll_scripts (w : Writer) :
    ∀ es : List Element, writeAll w es = (scripts es).foldl Writer.call w
  | [] => rfl
  | e :: es => by
    rw [writeAll, scripts, write_script w e, writeAll_scripts _ es, List.foldl_append]

end

end Element

mutual

theorem script_balanced : ∀ e : Element, Balanced e.script
  | .node name attributes children => (scripts_balanced children).enclose name attributes
  | .leaf _ _ | .text _ _ _ => rfl

theorem scripts_balanced : ∀ es : List Element, Balanced (Element.scripts es)
  | [] => rfl
  | e :: es => (script_balanced e).append (scripts_balanced es)

end

/-! ### Steps that write -/

/-- Steps that also make calls of a writer; what has been called so far is kept in order. -/
abbrev Writing (m : Type → Type) := StateT (List Call) m

namespace Writing

variable {m : Type → Type} [Monad m]

def issue (calls : List Call) : Writing m Unit := modify (· ++ calls)

@[simp]
def startTag (name : String) (attributes : Attributes) : Writing m Unit :=
  issue [.start name attributes]

@[simp]
def emptyTag (name : String) (attributes : Attributes) : Writing m Unit :=
  issue [.empty name attributes]

@[simp]
def textElement (name : String) (attributes : Attributes) (content : String) : Writing m Unit :=
  issue [.text name attributes content]

@[simp]
def endTag : Writing m Unit := issue [.stop]

/-- Makes something first, and then the calls that write it. -/
def writing (f : m α) (calls : α → List Call) : Writing m Unit := do issue (calls (← f))

variable {cs ds : List Call}

theorem issue_nil : (issue [] : Writing m Unit) = pure () := by
  funext t
  simp [issue, modify, modifyGet, MonadStateOf.modifyGet, StateT.modifyGet]
  rfl

section

variable [LawfulMonad m]

@[simp]
theorem issue_issue : (do issue cs; issue ds : Writing m Unit) = issue (cs ++ ds) := by
  funext t
  simp [issue, modify, modifyGet, MonadStateOf.modifyGet, StateT.modifyGet, bind, StateT.bind]

@[simp]
theorem issue_issue_bind {k : Writing m β} :
    (do issue cs; issue ds; k) = (do issue (cs ++ ds); k) := by
  rw [← issue_issue, bind_assoc]

/-- Calls may wait for a step that makes none: if it fails, they have been in vain anyway. -/
@[simp]
theorem issue_lift {f : m α} {k : α → Writing m β} :
    (do issue cs; let a ← liftM f; k a) = (do let a ← liftM f; issue cs; k a) := by
  funext t
  simp [issue, modify, modifyGet, MonadStateOf.modifyGet, StateT.modifyGet, bind, StateT.bind,
    liftM, monadLift, MonadLift.monadLift, StateT.lift]

theorem forM_issue (f : α → List Call) (xs : List α) :
    xs.forM (fun x => (issue (f x) : Writing m Unit)) = issue (xs.flatMap f) := by
  induction xs with
  | nil => exact issue_nil.symm
  | cons x xs ih =>
    change ((issue (f x) : Writing m Unit) >>= fun _ => xs.forM _) = _
    rw [ih, issue_issue, List.flatMap_cons]

theorem forM_writing (f : α → m β) (calls : β → List Call) (xs : List α) :
    xs.forM (fun x => writing (f x) calls) =
      writing (xs.mapM f) fun made => made.flatMap calls := by
  induction xs with
  | nil =>
    simp [writing, issue_nil]
  | cons x xs ih =>
    change (writing (f x) calls >>= fun _ => xs.forM _) = _
    rw [ih]
    simp [writing]

end

/-- A step over a state is one of a generator that writes, too. -/
@[simp]
theorem lift_lift (f : Except ε α) :
    (liftM f : Writing (StateT σ (Except ε)) α) = liftM (liftM f : StateT σ (Except ε) α) := rfl

theorem run_writing (f : StateT σ (Except ε) α) (calls : α → List Call) (before : List Call)
    (s : σ) : writing f calls before s = (fun r => (((), before ++ calls r.1), r.2)) <$> f s := by
  change ((f >>= fun a => pure (a, before)) >>= fun r => issue (calls r.1) r.2) s = _
  cases run : f s with
  | error e => rw [bind_of_error (bind_of_error run)]; rfl
  | ok r => rw [bind_of_ok (bind_of_ok run)]; rfl

/-- Whatever has been called before, a run that succeeds leaves the same elements open and has ended
none of them. -/
def LeavesStack (f : Writing (StateT σ (Except ε)) Unit) : Prop :=
  ∀ before s all t, f before s = .ok (((), all), t) → ∃ made, all = before ++ made ∧
    Balanced made ∧ ∀ w : Writer, (all.foldl Writer.call w).stack =
      (before.foldl Writer.call w).stack

theorem writing_leavesStack {f : StateT σ (Except ε) α} {calls : α → List Call}
    (balanced : ∀ a, Balanced (calls a)) : LeavesStack (writing f calls) := by
  intro before s all t h
  rw [run_writing] at h
  obtain ⟨⟨a, t'⟩, _, same⟩ := except_map_ok h
  obtain ⟨ended, rfl⟩ := Prod.mk.inj same
  obtain ⟨_, rfl⟩ := Prod.mk.inj ended
  refine ⟨calls a, rfl, balanced a, fun w => ?_⟩
  rw [List.foldl_append]
  exact (balanced_iff.mp (balanced a) _).1

end Writing

/-! ### Documents in two parts -/

/-- The calls for a document: its element, what stands in it before the body, and the body. -/
structure Draft where
  name : String
  attributes : Attributes
  head : List Call
  body : List Call

namespace Draft

/-- The text of a document whose body has been written one level deep. The end of the document
element is left to the writer. -/
def text (d : Draft) : String :=
  ((d.head.foldl Writer.call (({} : Writer).declaration.startTag d.name d.attributes)).raw
    (output 1 d.body)).finish

def inner (d : Draft) : List Call := d.head ++ d.body

/-- The calls that write the document as a whole. -/
def calls (d : Draft) : List Call := .start d.name d.attributes :: (d.inner ++ [.stop])

/-- No end in the body meets an empty stack, nothing is left open when it is finished, and all that
is written stands in one element, which is opened first and closed last. -/
structure IsBalanced (d : Draft) : Prop where
  ends : ∀ before after, d.body = before ++ .stop :: after →
    (before.foldl Writer.call { base := 1 }).stack ≠ []
  finished : (d.body.foldl Writer.call { base := 1 }).stack = []
  inside : Balanced d.inner
  single : described d.calls = [.element d.name d.attributes (described d.inner)]
  whole : d.text = (d.calls.foldl Writer.call ({} : Writer).declaration).text

end Draft

/-! ### What balanced calls describe -/

namespace Forest

variable {f : Forest} {c : Call} {calls : List Call} {level : Nat}

/-- A forest inside elements that have not ended. -/
def within (f : Forest) (outer : List Opened) : Forest := { f with stack := f.stack ++ outer }

theorem call_level (counted : c.levelAfter? f.stack.length = some level) :
    (f.call c).stack.length = level := by
  cases c with
  | stop =>
    obtain ⟨_ | ⟨e, opened⟩, content⟩ := f
    · cases counted
    · exact Option.some.inj counted
  | _ => exact Option.some.inj counted

theorem within_call (outer : List Opened) (counted : c.levelAfter? f.stack.length = some level) :
    (f.within outer).call c = (f.call c).within outer := by
  cases c with
  | stop =>
    obtain ⟨_ | ⟨e, opened⟩, content⟩ := f
    · cases counted
    · rfl
  | _ => rfl

theorem within_calls (outer : List Opened)
    (counted : calls.foldlM Call.levelAfter? f.stack.length = some level) :
    calls.foldl call (f.within outer) = (calls.foldl call f).within outer ∧
      (calls.foldl call f).stack.length = level := by
  induction calls generalizing f with
  | nil => exact ⟨rfl, Option.some.inj counted⟩
  | cons c cs ih =>
    obtain ⟨between, first, others⟩ := Option.bind_eq_some_iff.mp counted
    rw [List.foldl_cons, List.foldl_cons, within_call outer first]
    exact ih (call_level first ▸ others)

end Forest

theorem Balanced.described_enclose {calls : List Call} (h : Balanced calls) (name : String)
    (attributes : Attributes) : described (.start name attributes :: (calls ++ [.stop])) =
      [.element name attributes (described calls)] := by
  obtain ⟨inside, length⟩ := Forest.within_calls (f := {}) [⟨name, attributes, []⟩] h
  have ended := List.length_eq_zero_iff.mp length
  have entered : ({} : Forest).call (.start name attributes) =
      ({} : Forest).within [⟨name, attributes, []⟩] := rfl
  rw [described, List.foldl_cons, List.foldl_append, entered, inside, described]
  simp [Forest.call, Forest.leave, Forest.within, Forest.trees, Forest.closed, ended]

/-! ### Drafts of elements -/

namespace Draft

variable {d : Draft} {e : Element}

/-- The body is spliced in as if its calls had been made in the document. -/
theorem text_eq (head : Balanced d.head) (body : Balanced d.body) :
    d.text = (d.calls.foldl Writer.call ({} : Writer).declaration).text := by
  let opened := ({} : Writer).declaration.startTag d.name d.attributes
  have stack : (d.head.foldl Writer.call opened).stack = [d.name] := (balanced_iff.mp head _).1
  have deep : (d.head.foldl Writer.call opened).depth = 1 := by
    have base : (d.head.foldl Writer.call opened).base = 0 := Writer.calls_base _ _
    rw [Writer.depth, stack, base]
    rfl
  have spliced : (d.head.foldl Writer.call opened).raw (output 1 d.body) =
      d.inner.foldl Writer.call opened := by
    have same := Writer.run_balanced (d.head.foldl Writer.call opened)
      ((filterMap_calls d.body).symm ▸ body)
    rw [Writer.run_calls, Writer.step, Writer.run_calls, deep, ← List.foldl_append] at same
    exact same.symm
  have last : (d.inner.foldl Writer.call opened).endTag.stack = [] := by
    rw [inner, List.foldl_append, Writer.endTag, (balanced_iff.mp body _).1, stack]
  rw [text, spliced, ← Writer.finish_endTag, Writer.finish, last, Writer.endLines,
    String.append_empty, calls, List.foldl_cons, List.foldl_append]
  rfl

theorem isBalanced (head : Balanced d.head) (body : Balanced d.body) : d.IsBalanced where
  ends before after split bare := by
    have opened := (balanced_iff.mp body { base := 1 }).2 before after split
    simp [bare] at opened
  finished := (balanced_iff.mp body _).1
  inside := head.append body
  single := (head.append body).described_enclose _ _
  whole := text_eq head body

/-- The draft of an element: what stands in it is cut in two. -/
def of (name : String) (attributes : Attributes) (before after : List Element) : Draft where
  name
  attributes
  head := Element.scripts before
  body := Element.scripts after

variable {name : String} {attributes : Attributes} {before after : List Element}

theorem of_isBalanced : (of name attributes before after).IsBalanced :=
  isBalanced (scripts_balanced before) (scripts_balanced after)

/-- A draft has the text of the document that is written from the whole element. -/
theorem of_text : (of name attributes before after).text =
    (Element.node name attributes (before ++ after)).document := by
  have written := Element.write_script ({} : Writer).declaration
    (.node name attributes (before ++ after))
  have calls : (of name attributes before after).calls =
      (Element.node name attributes (before ++ after)).script := by
    simp [Draft.calls, inner, of]
  have ended := (balanced_iff.mp (script_balanced (.node name attributes (before ++ after)))
    ({} : Writer).declaration).1
  rw [of_isBalanced.whole, calls, Element.document, written, Writer.finish, ended]
  simp [Writer.declaration, Writer.raw, Writer.endLines]

end Draft

end RdfXmlMapping.Xml
