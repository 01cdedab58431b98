import Mathlib
import RdfXmlMapping.Proofs.Conformance.Query

/-!
What the check of prefixes sees of the text of any query (`checkPrefixes_exact`). It finds the
prefix of every name whose local part begins with a Latin letter or an underscore, and of no other.
-/

namespace RdfXmlMapping.Conformance.Query

open RdfXmlMapping.Query (Free IsWord Term Triple Pattern RowValue Projection line line_append
  brackets free_toString groupTriples branchTriples groupLines branchLines)
open Text (unlines Unbroken)

variable {a b e l rest x : List Char} {name p last : String} {c : Char} {skip : Nat}
  {atStart : Bool}

/-! ### Names in a line -/

/-- At some place of the line where a name may begin the scan finds one with this prefix. -/
def Sighted (name : String) (l : List Char) : Prop :=
  ∃ a x rest, l = a ++ x ∧ Open a ∧ scanUse? x = some (name, rest)

theorem scanUse?_taken (h : scanUse? x = some (name, rest)) :
    ∃ n d, x = n ++ ':' :: d :: rest ∧ name = .ofList n ∧ (isLetter d || d = '_') ∧
      ∀ c ∈ n ++ [':', d], separates c = false := by
  unfold scanUse? at h
  split at h
  next n d others found =>
    obtain ⟨whole, words⟩ := scanPrefix?_eq found
    split at h
    next first =>
      obtain ⟨rfl, rfl⟩ := Prod.mk.inj (Option.some.inj h)
      refine ⟨n, d, whole, rfl, first, fun c member => Bool.eq_false_iff.mpr fun separator => ?_⟩
      obtain ⟨other, hyphen⟩ := separates_word separator
      rcases List.mem_append.mp member with inside | inside
      · have part := words c inside
        rw [other, decide_eq_false hyphen] at part
        cases part
      · simp only [List.mem_cons, List.not_mem_nil, or_false] at inside
        rcases inside with rfl | rfl
        · revert separator
          decide
        · rcases Bool.or_eq_true _ _ |>.mp first with letter | underscore
          · have word : c.isAlphanum := Bool.or_eq_true _ _ |>.mpr (.inl letter)
            rw [Unicode.isWordChar_of_isAlphanum word] at other
            cases other
          · rw [of_decide_eq_true underscore] at separator
            revert separator
            decide
    next => cases h
  next => cases h

/-- No name begins with a separator. -/
theorem scanUse?_separates (separator : separates c) (cs : List Char) :
    scanUse? (c :: cs) = none := by
  cases found : scanUse? (c :: cs) with
  | none => rfl
  | some r =>
    obtain ⟨n, d, whole, _, _, free⟩ := scanUse?_taken found
    have first : c ∈ n ++ [':', d] := by
      cases n with
      | nil => simp [(List.cons.inj whole).1]
      | cons _ _ => simp [(List.cons.inj whole).1]
    rw [free c first] at separator
    cases separator

/-- No separator is among the characters that belong to a name. -/
theorem scanUse?_passed (h : scanUse? x = some (name, rest)) : rest.length < x.length ∧
    ∀ c ∈ x.take (x.length - rest.length), separates c = false := by
  obtain ⟨n, d, rfl, -, -, free⟩ := scanUse?_taken h
  refine ⟨by simp; omega, ?_⟩
  have whole : n ++ ':' :: d :: rest = (n ++ [':', d]) ++ rest := by simp
  rwa [whole, List.length_append, Nat.add_sub_cancel, List.take_left]

theorem open_tail {d : Char} (ready : Open (c :: d :: a)) : Open (d :: a) := by
  intro e last
  exact ready e (by rwa [List.getLast?_cons_cons])

/-- The scan goes over a name that it has found, without passing over the place of another. -/
theorem usesFrom_complete (passed : ∀ c ∈ l.take skip, separates c = false) (whole : l = a ++ x)
    (start : a = [] → skip = 0 ∧ atStart) (ready : Open a)
    (found : scanUse? x = some (name, rest)) :
    name ∈ usesFrom skip atStart l := by
  induction l generalizing skip atStart a with
  | nil =>
    obtain ⟨rfl, rfl⟩ := List.append_eq_nil_iff.mp whole.symm
    cases found
  | cons c cs ih =>
    -- The place lies further on, behind `k` characters that are passed over.
    have later {k : Nat} {d : Char} {a' : List Char} (more : a = c :: d :: a')
        (passed : ∀ c ∈ cs.take k, separates c = false) : name ∈ usesFrom k false cs := by
      subst more
      exact ih passed (List.cons.inj whole).2 (by rintro ⟨⟩) (open_tail ready)
    cases skip with
    | succ skip =>
      rw [List.take_succ_cons, List.forall_mem_cons] at passed
      rcases a with - | ⟨d, - | ⟨d', a'⟩⟩
      · cases (start rfl).1
      · have separator : separates c := by
          obtain rfl := (List.cons.inj whole).1
          exact ready c rfl
        rw [separator] at passed
        cases passed.1
      · obtain rfl := (List.cons.inj whole).1
        exact later rfl passed.2
    | zero =>
      rw [usesFrom]
      rcases a with - | ⟨d, - | ⟨d', a'⟩⟩
      · obtain rfl : c :: cs = x := whole
        rw [(start rfl).2, if_pos rfl, found]
        exact List.mem_cons_self
      · obtain ⟨rfl, rfl⟩ := List.cons.inj whole
        have separator : separates c := ready c rfl
        rw [scanUse?_separates separator, ite_self, if_pos separator]
        simp only [found, Option.none_or]
        exact List.mem_cons_self
      · obtain rfl := (List.cons.inj whole).1
        split
        next name' rest' other =>
          refine List.mem_cons_of_mem _ (later rfl ?_)
          rcases Option.or_eq_some_iff.mp other with here | ⟨-, after⟩
          · split at here
            next =>
              obtain ⟨shorter, free⟩ := scanUse?_passed here
              rw [List.length_cons] at shorter free
              rw [Nat.succ_sub (by omega), List.take_succ_cons, List.forall_mem_cons] at free
              exact free.2
            next => cases here
          · split at after
            next => exact (scanUse?_passed after).2
            next => cases after
        next => exact later (k := 0) rfl (by simp)

theorem usesFrom_sighted (member : name ∈ usesFrom skip atStart l)
    (start : atStart → a = []) : Sighted name (a ++ l) := by
  induction l generalizing skip atStart a with
  | nil => cases skip <;> cases member
  | cons c cs ih =>
    have onward {k : Nat} (member : name ∈ usesFrom k false cs) : Sighted name (a ++ c :: cs) := by
      rw [List.append_cons]
      exact ih member (by rintro ⟨⟩)
    cases skip with
    | succ skip => exact onward member
    | zero =>
      rw [usesFrom] at member
      split at member
      next name' rest found =>
        rcases List.mem_cons.mp member with rfl | member
        · rcases Option.or_eq_some_iff.mp found with here | ⟨-, after⟩
          · split at here
            next h => exact ⟨[], c :: cs, rest, by rw [start h], by rintro _ ⟨⟩, here⟩
            next => cases here
          · split at after
            next h =>
              exact ⟨a ++ [c], cs, rest, List.append_cons a c cs, by simpa [Open] using h, after⟩
            next => cases after
        · exact onward member
      next => exact onward member

/-- The scan of a line finds the prefixes of all names in it. -/
theorem mem_usesFrom : name ∈ usesFrom 0 true l ↔ Sighted name l := by
  constructor
  · intro member
    exact usesFrom_sighted (a := []) member fun _ => rfl
  · rintro ⟨a, x, rest, whole, ready, found⟩
    exact usesFrom_complete (by simp) whole (fun _ => ⟨rfl, rfl⟩) ready found

/-! ### Terms -/

/-- The text is a name: a prefix that is a word, and what may follow a namespace. -/
structure IsName (text p last : String) : Prop where
  written : text = p ++ ":" ++ last
  word : IsWord p
  letter : p.toList.head?.any isLetter
  localName : Iri.isLocalName last.toList

/-- An IRI in full, or a name for it. -/
inductive Spelled : String → Prop
  | full {iri : String} : Plain iri → Spelled ("<" ++ iri ++ ">")
  | short {text p last : String} : IsName text p last → Spelled text

def WellSpelled : Term → Prop
  | .var _ => True
  | .iri text => Spelled text
  | .type text => Spelled text

/-- The local name begins with a character that the check takes for the beginning of one. -/
def Visible (last : String) : Prop := last.toList.head?.any fun c => isLetter c || c = '_'

/-- The term is a name with this prefix whose local name is visible. -/
def SeenAs (name : String) (t : Term) : Prop := ∃ last, IsName t.text name last ∧ Visible last

theorem IsName.part (h : IsName name p last) (markup : Char) (member : markup ∈ markupChars) :
    markup ∉ last.toList :=
  not_mem_of_isPart (Iri.isLocalName_part h.localName) member

theorem IsName.filled (h : IsName name p last) : last.toList ≠ [] := by
  intro empty
  have named := h.localName
  rw [empty] at named
  cases named

theorem IsName.chars (h : IsName name p last) : name.toList = p.toList ++ ':' :: last.toList := by
  simp [h.written]

theorem IsName.unique {p' last' : String} (h : IsName name p last) (h' : IsName name p' last') :
    p = p' ∧ last = last' := by
  have free {q r : String} (h : IsName name q r) : ':' ∉ q.toList :=
    (isWord_free h.word).notMem (by simp)
  have cut := Text.segments_append (free h) last.toList
  rw [← h.chars, h'.chars, Text.segments_append (free h')] at cut
  have same : p = p' := String.toList_inj.mp (List.cons.inj cut).1.symm
  subst same
  refine ⟨rfl, String.toList_inj.mp ?_⟩
  exact (List.cons.inj (List.append_cancel_left (h.chars.symm.trans h'.chars))).2

/-! ### Lines -/

/-- A line with the terms in it, each where one may begin, and other words before, between and after
them. -/
inductive Phrase : List Term → String → Prop
  | empty : Phrase [] ""
  | bare {ts : List Term} {l w : String} :
      Phrase ts l → Free ['<', ':', '\n', '\r'] w → Phrase ts (l ++ w)
  | term {ts : List Term} {l : String} {t : Term} :
      Phrase ts l → Open l.toList → WellSpelled t → Phrase (ts ++ [t]) (l ++ t.text)

/-- Lines with the terms in them. -/
inductive Phrases : List Term → List String → Prop
  | nil : Phrases [] []
  | cons {ts us : List Term} {l : String} {ls : List String} :
      Phrase ts l → Phrases us ls → Phrases (ts ++ us) (l :: ls)

/-- A line with the terms in it, and what it is with its IRIs emptied: every colon in it belongs to
one of the names, and every name stands where it can be found. -/
structure Scanned (ts : List Term) (l : String) (e : List Char) : Prop where
  read : ∀ rest, emptyIris 0 (l.toList ++ rest) = e ++ emptyIris 0 rest
  unbroken : Unbroken e
  head : e.head? = l.toList.head?
  last : e.getLast? = l.toList.getLast?
  named : ∀ t ∈ ts, ∀ p last, IsName t.text p last →
    ∃ a b, e = a ++ (p.toList ++ ':' :: (last.toList ++ b)) ∧ Open a
  colons : ∀ a b, e = a ++ ':' :: b → ∃ t ∈ ts, ∃ p last before after, IsName t.text p last ∧
    a = before ++ p.toList ∧ Open before ∧ b = last.toList ++ after

variable {ts us : List Term} {t : Term} {w line' : String} {ls : List String}

/-- A word without colons is added, of which the scan sees `x`. -/
theorem Scanned.append {l : String} (h : Scanned ts l e) (passed : ∀ rest,
      emptyIris 0 (w.toList ++ rest) = x ++ emptyIris 0 rest)
    (unbroken : Unbroken x) (head : x.head? = w.toList.head?)
    (last : x.getLast? = w.toList.getLast?) (free : ':' ∉ x) : Scanned ts (l ++ w) (e ++ x) where
  read rest := by
    rw [String.toList_append, List.append_assoc, h.read, passed, List.append_assoc]
  unbroken := unbroken_append h.unbroken unbroken
  head := by rw [String.toList_append, List.head?_append, List.head?_append, h.head, head]
  last := by rw [String.toList_append, List.getLast?_append, List.getLast?_append, h.last, last]
  named t member p last name := by
    obtain ⟨a, b, whole, ready⟩ := h.named t member p last name
    exact ⟨a, b ++ x, by simp [whole], ready⟩
  colons a b same := by
    rcases append_eq_append_cons same with ⟨m, -, ends⟩ | ⟨m, whole, rest⟩
    · exact absurd (by rw [ends]; simp) free
    · obtain ⟨t, member, p, last, before, after, name, first, ready, second⟩ := h.colons a m whole
      exact ⟨t, member, p, last, before, after ++ x, name, first, ready, by simp [rest, second]⟩

/-- The term is one of those in the line without being a name. -/
theorem Scanned.add (h : Scanned ts line' e) (other : ∀ p last, ¬ IsName t.text p last) :
    Scanned (ts ++ [t]) line' e where
  read := h.read
  unbroken := h.unbroken
  head := h.head
  last := h.last
  named u member p last name := by
    rcases List.mem_append.mp member with before | new
    · exact h.named u before p last name
    · exact absurd (List.mem_singleton.mp new ▸ name) (other p last)
  colons a b same := by
    obtain ⟨u, member, rest⟩ := h.colons a b same
    exact ⟨u, List.mem_append_left _ member, rest⟩

/-- The colon of a name is the only one in it. -/
theorem IsName.cut (h : IsName name p last) {m b : List Char} (cut : name.toList = m ++ ':' :: b) :
    m = p.toList ∧ b = last.toList := by
  have word : ':' ∉ p.toList := (isWord_free h.word).notMem (by simp)
  rcases append_eq_append_cons (h.chars.symm.trans cut) with ⟨more, rfl, rest⟩ | ⟨more, whole, -⟩
  · cases more with
    | nil => exact ⟨List.append_nil _, (List.cons.inj rest).2.symm⟩
    | cons c more =>
      obtain ⟨-, rest⟩ := List.cons.inj rest
      exact absurd (by rw [rest]; simp) (h.part ':' (by decide))
  · exact absurd (by rw [whole]; simp) word

theorem Scanned.short {l : String} (h : Scanned ts l e) (ready : Open l.toList)
    (name : IsName t.text p last) : Scanned (ts ++ [t]) (l ++ t.text) (e ++ t.text.toList) := by
  have ready : Open e := by rwa [Open, h.last]
  have plain {c : Char} (word : c ∈ ['<', ':', '\n', '\r', ' ', '\x7b']) (part : c ∈ markupChars)
      (other : c ≠ ':') : c ∉ t.text.toList := by
    simp [name.chars, (isWord_free name.word).notMem word, name.part _ part, other]
  refine { read := fun rest => ?_, unbroken := ?_, head := ?_, last := ?_, named := ?_,
           colons := ?_ }
  · rw [String.toList_append, List.append_assoc, h.read, List.append_assoc,
      emptyIris_free (plain (by simp) (by decide) (by decide))]
  · exact unbroken_append h.unbroken ⟨plain (by simp) (by decide) (by decide),
      plain (by simp) (by decide) (by decide)⟩
  · rw [String.toList_append, List.head?_append, List.head?_append, h.head]
  · rw [String.toList_append, List.getLast?_append, List.getLast?_append, h.last]
  · intro u member q rest here
    rcases List.mem_append.mp member with before | new
    · obtain ⟨a, b, whole, ready⟩ := h.named u before q rest here
      exact ⟨a, b ++ t.text.toList, by simp [whole], ready⟩
    · obtain rfl := List.mem_singleton.mp new
      exact ⟨e, [], by rw [List.append_nil, here.chars], ready⟩
  · intro a b same
    rcases append_eq_append_cons same with ⟨m, rfl, ends⟩ | ⟨m, whole, rest⟩
    · obtain ⟨rfl, rfl⟩ := name.cut ends
      exact ⟨t, by simp, p, last, e, [], name, rfl, ready, by simp⟩
    · obtain ⟨u, member, q, r, before, after, here, first, ready, second⟩ := h.colons a m whole
      exact ⟨u, List.mem_append_left _ member, q, r, before, after ++ t.text.toList, here, first,
        ready, by simp [rest, second]⟩

/-- What is no name has an angle bracket or a question mark at its beginning. -/
theorem notName_of_head {text : String} {c : Char} (head : text.toList.head? = some c)
    (other : c.isAlphanum = false) (p last : String) : ¬ IsName text p last := by
  intro name
  have letter := name.letter
  rw [name.chars] at head
  cases read : p.toList with
  | nil =>
    rw [read] at letter
    cases letter
  | cons d ds =>
    rw [read] at head letter
    obtain rfl := Option.some.inj head
    rw [Char.isAlphanum, show d.isAlpha from letter] at other
    cases other

theorem scanned_var (n : Nat) (p last : String) : ¬ IsName (Term.var n).text p last :=
  notName_of_head (c := '?') (by rw [Term.text, String.toList_append]; rfl) (by decide) p last

/-- Every line of well-spelled terms can be scanned. -/
theorem Phrase.scanned {l : String} (h : Phrase ts l) : ∃ e, Scanned ts l e := by
  induction h with
  | empty =>
    exact ⟨[], fun _ => rfl, by simp [Unbroken], rfl, rfl, nofun, fun a b same => by simp at same⟩
  | @bare ts l w _ free ih =>
    obtain ⟨e, scanned⟩ := ih
    exact ⟨e ++ w.toList, scanned.append (emptyIris_free (free.notMem (by simp)))
      ⟨free.notMem (by simp), free.notMem (by simp)⟩ rfl rfl (free.notMem (by simp))⟩
  | @term ts l t _ ready spelled ih =>
    obtain ⟨e, scanned⟩ := ih
    have spelled : Spelled t.text ∨ ∃ n, t = .var n := by
      cases t with
      | var n => exact .inr ⟨n, rfl⟩
      | iri text | type text => exact .inl spelled
    rcases spelled with spelled | ⟨n, rfl⟩
    · generalize text : t.text = s at spelled
      cases spelled with
      | @full iri plain =>
        rw [← text]
        have chars : t.text.toList = '<' :: (iri.toList ++ ['>']) := by simp [text]
        refine ⟨e ++ ['<', '>'], (scanned.append (fun rest => ?_) (by simp [Unbroken]) ?_ ?_
          (by simp)).add (notName_of_head (c := '<') (by rw [chars]; rfl) (by decide))⟩
        · rw [chars, List.cons_append, List.append_assoc]
          exact emptyIris_full plain rest
        · rw [chars]
          rfl
        · simp [chars, List.getLast?_cons]
      | short name =>
        subst text
        exact ⟨_, scanned.short ready name⟩
    · have free : Free ['<', ':', '\n', '\r'] (Term.var n).text := (bare_var n).mono (by simp)
      exact ⟨_, (scanned.append (emptyIris_free (free.notMem (by simp)))
        ⟨free.notMem (by simp), free.notMem (by simp)⟩ rfl rfl (free.notMem (by simp))).add
          (scanned_var n)⟩

theorem scanUse?_name (h : IsName w p last) (visible : Visible last) (after : List Char) :
    ∃ rest, scanUse? (p.toList ++ ':' :: (last.toList ++ after)) = some (p, rest) := by
  cases read : last.toList with
  | nil => exact absurd read h.filled
  | cons c cs =>
    have first : isLetter c || c = '_' := by simpa [Visible, read] using visible
    refine ⟨cs ++ after, ?_⟩
    rw [scanUse?, scanPrefix?_append h.word h.letter]
    simp [first]

/-- The scan of a line finds exactly the names in it that are visible. -/
theorem Scanned.mem_uses {l : String} (h : Scanned ts l e) :
    name ∈ usesFrom 0 true e ↔ ∃ t ∈ ts, SeenAs name t := by
  rw [mem_usesFrom]
  constructor
  · rintro ⟨a, x, rest, rfl, ready, found⟩
    obtain ⟨n, d, rfl, rfl, visible, free⟩ := scanUse?_taken found
    obtain ⟨t, member, p, last, before, after, here, first, ready', second⟩ :=
      h.colons (a ++ n) (d :: rest) (List.append_assoc ..).symm
    have same : n = p.toList := append_inj_of_open first ready ready'
      (fun c member => free c (List.mem_append_left _ member)) (separates_isWord here.word)
    obtain ⟨c, cs, read⟩ := List.exists_cons_of_ne_nil here.filled
    rw [read] at second
    obtain rfl := (List.cons.inj second).1
    refine ⟨t, member, last, ?_, by simpa [Visible, read] using visible⟩
    rwa [same, String.ofList_toList]
  · rintro ⟨t, member, last, here, visible⟩
    obtain ⟨a, b, rfl, ready⟩ := h.named t member name last here
    obtain ⟨rest, found⟩ := scanUse?_name here visible b
    exact ⟨a, _, rest, rfl, ready, found⟩

/-! ### Lines of a query -/

theorem Phrase.free {l : String} (free : Free ['<', ':', '\n', '\r'] l) : Phrase [] l := by
  have line := Phrase.empty.bare free
  rwa [String.empty_append] at line

theorem Phrases.append {ls' : List String} (h : Phrases ts ls) (h' : Phrases us ls') :
    Phrases (ts ++ us) (ls ++ ls') := by
  induction h with
  | nil => exact h'
  | cons first _ ih =>
    rw [List.append_assoc]
    exact .cons first ih

theorem Phrases.single {l : String} (h : Phrase ts l) : Phrases ts [l] :=
  List.append_nil ts ▸ .cons h .nil

/-- What the scan finds in lines, and which lines it looks at. -/
theorem Phrases.scanned (h : Phrases ts ls) : ∃ es,
    emptyIris 0 (unlines (ls.map String.toList)) = unlines es ∧
      es.map List.head? = ls.map (·.toList.head?) ∧ (∀ e ∈ es, Unbroken e) ∧
      ∀ name, name ∈ es.flatMap (usesFrom 0 true) ↔ ∃ t ∈ ts, SeenAs name t := by
  induction h with
  | nil => exact ⟨[], rfl, rfl, nofun, by simp⟩
  | @cons ts us l ls first _ ih =>
    obtain ⟨e, here⟩ := first.scanned
    obtain ⟨es, same, heads, unbroken, found⟩ := ih
    have broken := emptyIris_free (l := ['\n']) (by decide) (unlines (ls.map String.toList))
    refine ⟨e :: es, ?_, ?_, List.forall_mem_cons.mpr ⟨here.unbroken, unbroken⟩, fun name => ?_⟩
    · rw [List.map_cons, Text.unlines_cons, Text.unlines_cons, here.read, ← same]
      exact congrArg (e ++ ·) broken
    · rw [List.map_cons, List.map_cons, here.head, heads]
    · rw [List.flatMap_cons, List.mem_append, here.mem_uses, found]
      simp only [List.mem_append, or_and_right, exists_or]

def terms (t : Triple) : List Term := [t.subject, t.predicate, t.object]

/-- The term where it can be seen in a template, in which the statement of a class has no IRI. -/
def templateTerms : Term → List Term
  | .type _ => []
  | t => [t]

theorem Phrase.indent (depth : Nat) : Phrase [] (line depth "") :=
  .free (Query.free_indent (by decide))

theorem Phrase.templateTerm {l : String} (h : Phrase ts l) (ready : Open l.toList)
    (spelled : WellSpelled t) : Phrase (ts ++ templateTerms t) (l ++ t.templateText) := by
  cases t with
  | type text =>
    rw [templateTerms, List.append_nil]
    exact h.bare (w := "a") (by decide)
  | var n | iri text => exact h.term ready spelled

/-- The triple as a line, its terms written by `write`. -/
theorem Phrase.triple (write : Term → String) (seen : Term → List Term) {triple : Triple}
    (goesOn : ∀ {ts : List Term} {l : String} {t : Term}, Phrase ts l → Open l.toList →
      WellSpelled t → Phrase (ts ++ seen t) (l ++ write t))
    (spelled : ∀ t ∈ terms triple, WellSpelled t) (depth : Nat) :
    Phrase ((terms triple).flatMap seen) (line depth (write triple.subject ++ " " ++
      write triple.predicate ++ " " ++ write triple.object ++ " .")) := by
  simp only [terms, List.forall_mem_cons] at spelled
  obtain ⟨subject, predicate, object, -⟩ := spelled
  have blank : " ".toList.getLast?.any separates := by decide
  have first := (goesOn (.indent depth) (open_indent depth) subject).bare (w := " ") (by decide)
  have second := (goesOn first (open_append blank) predicate).bare (w := " ") (by decide)
  have third := (goesOn second (open_append blank) object).bare (w := " .") (by decide)
  rw [← line_eq] at third
  simp only [line_append]
  simpa [terms] using third

/-- The terms of triples, as they are written in conditions. -/
def triplesTerms (triples : List Triple) : List Term := triples.flatMap terms

theorem Phrases.bracket {s : String} (member : s ∈ brackets) (depth : Nat) (h : Phrases ts ls) :
    Phrases ts (line depth s :: ls) := by
  have free : ∀ s ∈ brackets, Free ['<', ':', '\n', '\r'] s := by decide
  have here : Phrase [] (line depth s) := by
    rw [line_eq]
    exact (Phrase.indent depth).bare (free s member)
  exact .cons here h

mutual

theorem patternPhrases (pattern : Pattern) (depth : Nat)
    (spelled : ∀ t ∈ triplesTerms pattern.triples, WellSpelled t) :
    Phrases (triplesTerms pattern.triples) (pattern.lines depth) := by
  match pattern with
  | .triple t =>
    have here := Phrase.triple Term.text (fun t => [t]) Phrase.term
      (by simpa [Query.Pattern.triples, triplesTerms] using spelled) depth
    rw [List.flatMap_singleton'] at here
    rw [Query.Pattern.triples, triplesTerms, List.flatMap_singleton]
    exact Phrases.single here
  | .optional group =>
    have inside := groupPhrases group (depth + 1) spelled
    have last : Phrases [] [line depth "\x7d"] := Phrases.nil.bracket (by decide) depth
    have whole := (inside.append last).bracket (s := "OPTIONAL \x7b") (by decide) depth
    rwa [List.append_nil] at whole
  | .union [] => exact .nil
  | .union (b :: bs) =>
    rw [Query.Pattern.triples, branchTriples, triplesTerms, List.flatMap_append,
      List.forall_mem_append] at spelled
    have inside := groupPhrases b (depth + 1) spelled.1
    have later := (branchPhrases bs depth spelled.2).bracket (s := "\x7d") (by decide) depth
    have whole := (inside.append later).bracket (s := "\x7b") (by decide) depth
    rwa [triplesTerms, triplesTerms, ← List.flatMap_append] at whole

theorem groupPhrases (group : List Pattern) (depth : Nat)
    (spelled : ∀ t ∈ triplesTerms (groupTriples group), WellSpelled t) :
    Phrases (triplesTerms (groupTriples group)) (groupLines depth group) := by
  match group with
  | [] => exact .nil
  | p :: ps =>
    rw [groupTriples, triplesTerms, List.flatMap_append, List.forall_mem_append] at spelled
    rw [groupTriples, triplesTerms, List.flatMap_append]
    exact (patternPhrases p depth spelled.1).append (groupPhrases ps depth spelled.2)

theorem branchPhrases (branches : List (List Pattern)) (depth : Nat)
    (spelled : ∀ t ∈ triplesTerms (branchTriples branches), WellSpelled t) :
    Phrases (triplesTerms (branchTriples branches)) (branchLines depth branches) := by
  match branches with
  | [] => exact .nil
  | b :: bs =>
    rw [branchTriples, triplesTerms, List.flatMap_append, List.forall_mem_append] at spelled
    rw [branchTriples, triplesTerms, List.flatMap_append]
    have inside := groupPhrases b (depth + 1) spelled.1
    have later := (branchPhrases bs depth spelled.2).bracket (s := "\x7d") (by decide) depth
    have whole := (inside.append later).bracket (s := "\x7b") (by decide) depth
    exact whole.bracket (s := "UNION") (by decide) depth

end

/-! ### Columns -/

theorem Phrase.ofTerms (row : Nat) {term : Term} {others : List Term} {l : String}
    (spelled : ∀ t ∈ term :: others, WellSpelled t) (h : Phrase ts l) (ready : Open l.toList) :
    Phrase (ts ++ term :: others) (l ++ (RowValue.ofTerms row term others).text) := by
  induction others generalizing term row l ts with
  | nil => exact h.term ready (spelled term List.mem_cons_self)
  | cons next others ih =>
    obtain ⟨first, spelled⟩ := List.forall_mem_cons.mp spelled
    have blank : ", ".toList.getLast?.any separates := by decide
    have number :
        Free ['<', ':', '\n', '\r'] ("IF(?" ++ Query.rowVariable ++ " = " ++ toString row) :=
      Query.Free.append (by decide) (free_toString (by decide) row)
    have condition := (h.bare number).bare (w := ", ") (by decide)
    have here := (condition.term (open_append blank) first).bare (w := ", ") (by decide)
    have later := (ih (row + 1) spelled here (open_append blank)).bare (w := ")") (by decide)
    change Phrase _ (l ++ ("IF(?" ++ Query.rowVariable ++ " = " ++ toString row ++ ", " ++
      term.text ++ ", " ++ (RowValue.ofTerms (row + 1) next others).text ++ ")"))
    simpa only [String.append_assoc, List.append_assoc, List.singleton_append] using later

theorem Phrase.column {term : Term} {others : List Term} {column : String} (word : IsWord column)
    (spelled : ∀ t ∈ term :: others, WellSpelled t) : Phrase (term :: others)
      (line 1 ("BIND(" ++ (RowValue.ofTerms 0 term others).text ++ " AS ?" ++ column ++ ")")) := by
  have bracket : "BIND(".toList.getLast?.any separates := by decide
  have start : Phrase [] (line 1 "" ++ "BIND(") := (Phrase.indent 1).bare (by decide)
  have value := (start.ofTerms 0 spelled (open_append bracket)).bare (w := " AS ?") (by decide)
  have named := (value.bare (Query.free_of_all word (by decide))).bare (w := ")") (by decide)
  rw [← line_eq] at named
  simp only [line_append]
  exact named

variable {q : RdfXmlMapping.Query} {bindings : Bindings}

theorem Phrases.columns (words : bindings.AreWords) (triples : List Triple)
    (spelled : ∀ t ∈ triplesTerms triples, WellSpelled t) : ∃ ts,
    (∀ t, t ∈ ts ↔ t ∈ triplesTerms triples) ∧
      Phrases ts ((Projection.ofTemplate? triples).elim [] (·.lines bindings)) := by
  cases triples with
  | nil => exact ⟨[], by simp [triplesTerms], .nil⟩
  | cons first others =>
    have place {f : Triple → Term} (inside : ∀ u, f u ∈ terms u) :
        ∀ t ∈ f first :: others.map f, WellSpelled t := by
      rw [← List.map_cons, List.forall_mem_map]
      exact fun u member => spelled _ (List.mem_flatMap.mpr ⟨u, member, inside u⟩)
    have blank : Free ['<', ':', '\n', '\r'] (line 1 "") := Query.free_indent (by decide)
    have subject : Free ['<', ':', '\n', '\r'] bindings.subject :=
      Query.free_of_all words.subject (by decide)
    have object : Free ['<', ':', '\n', '\r'] bindings.object :=
      Query.free_of_all words.object (by decide)
    have rows : Phrase [] (line 1 ("VALUES ?" ++ Query.rowVariable ++ " \x7b " ++
        " ".intercalate ((List.range (others.length + 1)).map toString) ++ " \x7d")) := by
      rw [line_eq]
      refine .free (blank.append (.append (.append (by decide) ?_) (by decide)))
      refine Query.free_intercalate (by decide) fun w member => ?_
      obtain ⟨n, -, rfl⟩ := List.mem_map.mp member
      exact free_toString (by decide) n
    have filter : Phrase [] (line 1 ("FILTER(BOUND(?" ++ bindings.subject ++ ") && BOUND(?" ++
        bindings.object ++ "))")) := by
      rw [line_eq]
      exact .free (blank.append
        (.append (.append (.append (.append (by decide) subject) (by decide)) object) (by decide)))
    refine ⟨_, fun t => ?_, .cons rows (.cons (.column words.subject (place (by simp [terms])))
      (.cons (.column words.predicate (place (by simp [terms])))
        (.cons (.column words.object (place (by simp [terms]))) (.single filter))))⟩
    simp only [triplesTerms, terms, List.nil_append, List.append_nil, List.mem_append,
      List.mem_cons, List.mem_map, List.mem_flatMap, List.flatMap_cons]
    grind

/-! ### The whole text -/

/-- The text of a query in the form has the term in it. -/
inductive Occurs (q : RdfXmlMapping.Query) : QueryForm → Term → Prop
  | pattern {form : QueryForm} {term : Term} :
      term ∈ triplesTerms (groupTriples q.pattern) → Occurs q form term
  | template {term : Term} : term ∈ triplesTerms q.template →
      (∀ text, term ≠ .type text) → Occurs q .construct term
  | column {term : Term} : term ∈ triplesTerms q.template → Occurs q .select term

/-- All terms of the query are IRIs in full or names. -/
def Proper (q : RdfXmlMapping.Query) : Prop :=
  (∀ t ∈ triplesTerms (groupTriples q.pattern), WellSpelled t) ∧
    ∀ t ∈ triplesTerms q.template, WellSpelled t

theorem Phrases.template (triples : List Triple)
    (spelled : ∀ t ∈ triplesTerms triples, WellSpelled t) :
    Phrases ((triplesTerms triples).flatMap templateTerms)
      (triples.map fun t => line 1 t.templateText) := by
  induction triples with
  | nil => exact .nil
  | cons t triples ih =>
    rw [triplesTerms, List.flatMap_cons, List.forall_mem_append] at spelled
    rw [triplesTerms, List.flatMap_cons, List.flatMap_append]
    exact .cons (Phrase.triple _ _ Phrase.templateTerm spelled.1 1) (ih spelled.2)

theorem mem_templateTerms {u : Term} : u ∈ templateTerms t ↔ u = t ∧ ∀ text, u ≠ .type text := by
  cases t with
  | var n | iri text => simp +contextual [templateTerms]
  | type text => simp +contextual [templateTerms]

theorem bodyLines_phrases (words : bindings.AreWords) (proper : Proper q) (form : QueryForm) :
    ∃ ts, (∀ t, t ∈ ts ↔ Occurs q form t) ∧ Phrases ts (Query.bodyLines q bindings form) := by
  have bracket {s : String} (free : Free ['<', ':', '\n', '\r'] s) : Phrases [] [s] :=
    .single (.free free)
  have pattern := groupPhrases q.pattern 1 proper.1
  cases form with
  | construct =>
    refine ⟨_, fun t => ?_, (((Phrases.cons (.free (l := "CONSTRUCT \x7b") (by decide))
      (Phrases.template q.template proper.2)).append ((bracket (s := "\x7d") (by decide)).append
        (bracket (s := "WHERE \x7b") (by decide)))).append pattern).append (bracket (by decide))⟩
    simp only [List.nil_append, List.append_nil, List.mem_append, List.mem_flatMap,
      mem_templateTerms]
    constructor
    · rintro (⟨u, member, rfl, other⟩ | member)
      · exact .template member other
      · exact .pattern member
    · intro occurs
      cases occurs with
      | pattern member => exact .inr member
      | template member other => exact .inl ⟨t, member, rfl, other⟩
  | select =>
    obtain ⟨ts, same, columns⟩ := Phrases.columns words q.template proper.2
    have subject : Free ['<', ':', '\n', '\r'] bindings.subject :=
      Query.free_of_all words.subject (by decide)
    have predicate : Free ['<', ':', '\n', '\r'] bindings.predicate :=
      Query.free_of_all words.predicate (by decide)
    have object : Free ['<', ':', '\n', '\r'] bindings.object :=
      Query.free_of_all words.object (by decide)
    have head : Free ['<', ':', '\n', '\r'] ("SELECT DISTINCT ?" ++ bindings.subject ++ " ?" ++
        bindings.predicate ++ " ?" ++ bindings.object) :=
      .append (.append (.append (.append (.append (by decide) subject) (by decide)) predicate)
        (by decide)) object
    refine ⟨_, fun t => ?_,
      ((((bracket head).append (bracket (s := "WHERE \x7b") (by decide))).append
      pattern).append columns).append (bracket (by decide))⟩
    simp only [List.nil_append, List.append_nil, List.mem_append, same]
    constructor
    · rintro (member | member)
      · exact .pattern member
      · exact .column member
    · intro occurs
      cases occurs with
      | pattern member => exact .inl member
      | column member => exact .inr member

/-! ### The head -/

/-- What precedes the end of a line is emptied by itself. -/
theorem emptyIris_break (h rest : List Char) (short : skip ≤ h.length) :
    ∃ before, emptyIris skip (h ++ '\n' :: rest) = before ++ '\n' :: emptyIris 0 rest := by
  induction h generalizing skip with
  | nil =>
    obtain rfl : skip = 0 := by simpa using short
    exact ⟨[], by rw [List.nil_append, emptyIris, if_neg (by decide)]; rfl⟩
  | cons c cs ih =>
    cases skip with
    | succ skip => exact ih (by simpa using short)
    | zero =>
      have further : ∃ before, c :: emptyIris 0 (cs ++ '\n' :: rest) =
          before ++ '\n' :: emptyIris 0 rest := by
        obtain ⟨before, same⟩ := @ih 0 (by omega)
        exact ⟨c :: before, by rw [same]; rfl⟩
      rw [List.cons_append, emptyIris]
      split
      · rw [Text.span_stop (by simp [show Unicode.isBlank '\n' from by decide])]
        dsimp only
        split
        next closed =>
          have shorter : (cs.takeWhile fun c => c ≠ '<' && c ≠ '>' && !Unicode.isBlank c).length + 1
              ≤ cs.length := by
            have whole := congrArg List.length (List.takeWhile_append_dropWhile
              (p := fun c => c ≠ '<' && c ≠ '>' && !Unicode.isBlank c) (l := cs))
            cases left : cs.dropWhile (fun c => c ≠ '<' && c ≠ '>' && !Unicode.isBlank c) with
            | nil =>
              rw [left] at closed
              simp at closed
            | cons d ds =>
              rw [left, List.length_append, List.length_cons] at whole
              omega
          obtain ⟨before, same⟩ := ih shorter
          exact ⟨'<' :: '>' :: before, by rw [same]; rfl⟩
        next => exact further
      · exact further

theorem emptyIris_unlines_append (hs : List (List Char)) (rest : List Char) :
    ∃ before, (before = [] ∨ ∃ b, before = b ++ ['\n']) ∧
      emptyIris 0 (unlines hs ++ rest) = before ++ emptyIris 0 rest := by
  induction hs using List.reverseRecOn with
  | nil => exact ⟨[], .inl rfl, rfl⟩
  | append_singleton hs h _ =>
    obtain ⟨before, same⟩ := emptyIris_break (unlines hs ++ h) rest (Nat.zero_le _)
    refine ⟨before ++ ['\n'], .inr ⟨before, rfl⟩, ?_⟩
    rw [Text.unlines_append, List.append_assoc, show unlines [h] = h ++ ['\n'] by simp [unlines]]
    simpa using same

theorem uses_eq (query : String) : uses query =
    ((Text.lines (emptyIris 0 query.toList)).filter fun l => !declarationWord.isPrefixOf l).flatMap
      (usesFrom 0 true) := rfl

theorem not_declaration {l : List Char} (other : l.head? ≠ some 'P') :
    (!declarationWord.isPrefixOf l) = true := by
  cases l with
  | nil => rfl
  | cons c cs =>
    have apart : ('P' == c) = false := beq_eq_false_iff_ne.mpr fun same => other (by rw [same]; rfl)
    simp [declarationWord, List.isPrefixOf, apart]

/-- A line that declares a prefix is passed over. -/
theorem emptyIris_declarationLine {d : String × String} (h : Declarable d) (rest : List Char) :
    emptyIris 0 ((declarationLine d).toList ++ rest) =
      (declarationWord ++ ' ' :: (d.1.toList ++ ": <>".toList)) ++ emptyIris 0 rest := by
  have line : (declarationLine d).toList ++ rest =
      (declarationWord ++ ' ' :: (d.1.toList ++ ": ".toList)) ++
        ('<' :: (d.2.toList ++ '>' :: rest)) := by
    simp [declarationLine, declarationWord]
  have free : '<' ∉ declarationWord ++ ' ' :: (d.1.toList ++ ": ".toList) := by
    have word := (isWord_free h.word).notMem (c := '<') (by simp)
    simp [declarationWord, word]
  rw [line, emptyIris_free free, emptyIris_full h.plain]
  simp

theorem emptyIris_declarationLines {ds : List (String × String)} (h : ∀ d ∈ ds, Declarable d)
    (rest : List Char) : ∃ es, (∀ e ∈ es, Unbroken e ∧ declarationWord.isPrefixOf e) ∧
      emptyIris 0 (unlines ((ds.map declarationLine).map String.toList) ++ rest) =
        unlines es ++ emptyIris 0 rest := by
  induction ds with
  | nil => exact ⟨[], nofun, rfl⟩
  | cons d ds ih =>
    obtain ⟨first, others⟩ := List.forall_mem_cons.mp h
    obtain ⟨es, each, same⟩ := ih others
    have word := isWord_free first.word
    have broken := emptyIris_free (l := ['\n']) (by decide)
      (unlines ((ds.map declarationLine).map String.toList) ++ rest)
    refine ⟨(declarationWord ++ ' ' :: (d.1.toList ++ ": <>".toList)) :: es,
      List.forall_mem_cons.mpr ⟨⟨⟨?_, ?_⟩, ?_⟩, each⟩, ?_⟩
    · simp [declarationWord, word.notMem]
    · simp [declarationWord, word.notMem]
    · exact List.isPrefixOf_iff_prefix.mpr (List.prefix_append _ _)
    · rw [List.map_cons, List.map_cons, Text.unlines_cons, List.append_assoc, List.cons_append,
        emptyIris_declarationLine first, Text.unlines_cons]
      rw [List.singleton_append, List.singleton_append] at broken
      rw [broken, same]
      simp

/-! ### The whole text -/

/-- The lines after the declarations. -/
def linesAfter (q : RdfXmlMapping.Query) (bindings : Bindings) (form : QueryForm) : List String :=
  (if q.prefixes.isEmpty then [] else [""]) ++ Query.bodyLines q bindings form

theorem render_split (q : RdfXmlMapping.Query) (bindings : Bindings) (form : QueryForm) :
    (q.render form bindings).toList = unlines ((q.prefixes.map declarationLine ++
      linesAfter q bindings form).map String.toList) := by
  rw [Query.render_toList, headLines_eq, linesAfter, List.append_assoc]

theorem linesAfter_head? (form : QueryForm) :
    ∀ l ∈ linesAfter q bindings form, l.toList.head? ≠ some 'P' := by
  intro l member
  rcases List.mem_append.mp member with last | body
  · obtain rfl := eq_empty_of_mem last
    decide
  · exact body_head? form l body

theorem linesAfter_phrases (words : bindings.AreWords) (proper : Proper q) (form : QueryForm) :
    ∃ ts, (∀ t, t ∈ ts ↔ Occurs q form t) ∧ Phrases ts (linesAfter q bindings form) := by
  obtain ⟨ts, same, phrases⟩ := bodyLines_phrases words proper form
  refine ⟨ts, same, ?_⟩
  rw [linesAfter]
  split
  · exact phrases
  · exact .cons .empty phrases

theorem Spelled.unbroken {text : String} (h : Spelled text) : '\n' ∉ text.toList := by
  cases h with
  | full plain => simp [(plain_free plain).notMem]
  | short name =>
    simp [name.chars, (isWord_free name.word).notMem, name.part '\n' (by decide)]

theorem Phrases.unbroken (h : Phrases ts ls) : ∀ l ∈ ls, '\n' ∉ l.toList := by
  have line {ts : List Term} {l : String} (h : Phrase ts l) : '\n' ∉ l.toList := by
    induction h with
    | empty => decide
    | bare _ free ih => simp [ih, free.notMem]
    | @term _ _ t _ _ spelled ih =>
      have here : '\n' ∉ t.text.toList := by
        cases t with
        | var n => exact (bare_var n).notMem (by simp)
        | iri text | type text => exact spelled.unbroken
      simp [ih, here]
  induction h with
  | nil => nofun
  | cons first _ ih => exact List.forall_mem_cons.mpr ⟨line first, ih⟩

theorem mem_lines_after {before : List Char} {es : List (List Char)}
    (start : before = [] ∨ ∃ b, before = b ++ ['\n']) (unbroken : ∀ e ∈ es, Unbroken e) :
    es ⊆ Text.lines (before ++ unlines es) := by
  rcases start with rfl | ⟨b, rfl⟩
  · rw [List.nil_append, Text.lines_unlines unbroken]
    exact List.Subset.refl _
  · have pieces : Text.segments '\n' (unlines es ++ []) = es ++ [[]] :=
      Text.segments_unlines (fun e member => (unbroken e member).1) (by simp)
    have cut : Text.segments '\n' (b ++ ['\n'] ++ unlines es) =
        Text.segments '\n' b ++ es ++ [[]] := by
      rw [List.append_nil] at pieces
      rw [List.append_assoc, List.singleton_append, Text.segments_cut, pieces, List.append_assoc]
    intro e member
    unfold Text.lines
    rw [cut]
    simp only [List.getLast?_append, List.getLast?_singleton, Option.some_or, if_true,
      List.dropLast_concat, List.mapIdx_append, List.mem_append]
    obtain ⟨i, short, rfl⟩ := List.mem_iff_getElem.mp member
    refine .inr (List.mem_mapIdx.mpr ⟨i, short, if_neg fun both => ?_⟩)
    have last := (Bool.and_eq_true _ _ ▸ both).2
    exact (unbroken _ member).2 (List.mem_of_getLast? (of_decide_eq_true last))

theorem mem_declared {ds table : List (String × String)} :
    name ∈ (ds.foldl (fun table d => table.filter (·.1 != d.1) ++ [d]) table).map (·.1) ↔
      name ∈ table.map (·.1) ∨ name ∈ ds.map (·.1) := by
  induction ds generalizing table with
  | nil => simp
  | cons d ds ih =>
    rw [List.foldl_cons, ih, List.map_append, List.mem_append, List.map_cons, List.mem_cons]
    by_cases same : name = d.1
    · simp [same]
    · have kept : name ∈ (table.filter (·.1 != d.1)).map (·.1) ↔ name ∈ table.map (·.1) := by
        simp only [List.mem_map, List.mem_filter, bne_iff_ne]
        grind
      simp [kept, same]

theorem checkPrefixes_pass_iff {query : String} {declared : List (String × String)} :
    (checkPrefixes query declared).severity = .pass ↔
      ∀ name ∈ uses query, name ∈ declared.map (·.1) := by
  have sorted (texts : List String) : Text.sorted texts = [] ↔ texts = [] := by
    rw [Text.sorted, List.eq_nil_iff_forall_not_mem, List.eq_nil_iff_forall_not_mem]
    simp
  have undeclared : Text.sorted (((uses query).filter fun p => !declared.any (·.1 == p)).map
      (· ++ ":")) = [] ↔ ∀ name ∈ uses query, name ∈ declared.map (·.1) := by
    rw [sorted]
    simp
  rw [← undeclared]
  unfold checkPrefixes
  dsimp only
  split
  next none => exact iff_of_true rfl none
  next some => exact iff_of_false (by simp [Finding.failed]) some

variable {form : QueryForm}

theorem declared_render (words : bindings.AreWords) (proper : Proper q)
    (delimited : ∀ d ∈ q.prefixes, Delimited d) :
    name ∈ (declarations (q.render form bindings)).map (·.1) ↔ name ∈ q.prefixes.map (·.1) := by
  obtain ⟨ts, -, phrases⟩ := linesAfter_phrases words proper form
  rw [declarations, render_split, declarationsFrom_eq delimited fun l member =>
    ⟨phrases.unbroken l member, linesAfter_head? form l member⟩, mem_declared]
  simp

/-- Where no namespace breaks a declaration, the check sees the prefixes of all visible names. -/
theorem seen_used (words : bindings.AreWords) (proper : Proper q) {t : Term}
    (occurs : Occurs q form t) (seen : SeenAs name t) : name ∈ uses (q.render form bindings) := by
  obtain ⟨ts, same, phrases⟩ := linesAfter_phrases words proper form
  obtain ⟨es, emptied, heads, unbroken, found⟩ := phrases.scanned
  obtain ⟨before, start, whole⟩ := emptyIris_unlines_append
    ((q.prefixes.map declarationLine).map String.toList)
    (unlines ((linesAfter q bindings form).map String.toList))
  obtain ⟨e, member, here⟩ := List.mem_flatMap.mp ((found name).mpr ⟨t, (same t).mpr occurs, seen⟩)
  rw [uses_eq, render_split, List.map_append, Text.unlines_append, whole, emptied]
  refine List.mem_flatMap.mpr
    ⟨e, List.mem_filter.mpr ⟨mem_lines_after start unbroken member, ?_⟩, here⟩
  refine not_declaration fun declares => ?_
  have first : e.head? ∈ (linesAfter q bindings form).map (·.toList.head?) :=
    heads ▸ List.mem_map_of_mem member
  obtain ⟨l, inside, head⟩ := List.mem_map.mp first
  exact linesAfter_head? form l inside (head.trans declares)

theorem mem_uses_render (words : bindings.AreWords) (proper : Proper q)
    (declarable : ∀ d ∈ q.prefixes, Declarable d) : name ∈ uses (q.render form bindings) ↔
      ∃ t, Occurs q form t ∧ SeenAs name t := by
  refine ⟨fun used => ?_, fun ⟨t, occurs, seen⟩ => seen_used words proper occurs seen⟩
  obtain ⟨ts, same, phrases⟩ := linesAfter_phrases words proper form
  obtain ⟨es, emptied, -, unbroken, found⟩ := phrases.scanned
  obtain ⟨hs, heads, whole⟩ := emptyIris_declarationLines declarable
    (unlines ((linesAfter q bindings form).map String.toList))
  rw [uses_eq, render_split, List.map_append, Text.unlines_append, whole, emptied,
    ← Text.unlines_append, Text.lines_unlines] at used
  · obtain ⟨e, member, here⟩ := List.mem_flatMap.mp used
    obtain ⟨inside, other⟩ := List.mem_filter.mp member
    rcases List.mem_append.mp inside with head | body
    · rw [(heads e head).2] at other
      cases other
    · obtain ⟨t, among, seen⟩ := (found name).mp (List.mem_flatMap.mpr ⟨e, body, here⟩)
      exact ⟨t, (same t).mp among, seen⟩
  · intro e member
    rcases List.mem_append.mp member with head | body
    · exact (heads e head).1
    · exact unbroken e body

/-- If the check of prefixes passes the text of a query, then the prefix of every name in it whose
local name begins with a Latin letter or an underscore is one of the query, where no namespace ends
a declaration early. Where the namespaces can stand between angle brackets, it passes exactly if
this is so: other names are not seen. -/
theorem checkPrefixes_exact (words : bindings.AreWords) (proper : Proper q)
    (delimited : ∀ d ∈ q.prefixes, Delimited d) (form : QueryForm) :
    ((checkPrefixes (q.render form bindings) (declarations (q.render form bindings))).severity =
        .pass → ∀ t, Occurs q form t → ∀ p last, IsName t.text p last → Visible last →
          p ∈ q.prefixes.map (·.1)) ∧
    ((∀ d ∈ q.prefixes, Plain d.2) →
      ((checkPrefixes (q.render form bindings) (declarations (q.render form bindings))).severity =
        .pass ↔ ∀ t, Occurs q form t → ∀ p last, IsName t.text p last → Visible last →
          p ∈ q.prefixes.map (·.1))) := by
  simp only [checkPrefixes_pass_iff, declared_render words proper delimited]
  refine ⟨fun passed t occurs p last named visible =>
    passed p (seen_used words proper occurs ⟨last, named, visible⟩), fun plain => ⟨?_, ?_⟩⟩
  · exact fun passed t occurs p last named visible =>
      passed p (seen_used words proper occurs ⟨last, named, visible⟩)
  · intro declared name used
    have declarable : ∀ d ∈ q.prefixes, Declarable d := fun d member =>
      ⟨(delimited d member).word, (delimited d member).letter, plain d member⟩
    obtain ⟨t, occurs, last, named, visible⟩ := (mem_uses_render words proper declarable).mp used
    exact declared t occurs name last named visible

theorem proper_carts : Proper cartsQuery := by
  have type : IsName "ns0:type" "ns0" "type" := ⟨by decide, by decide, by decide, by decide⟩
  have wheels : IsName "ns1:wheels" "ns1" "wheels" :=
    ⟨by decide, by decide, by decide, by decide⟩
  have plain : Plain "urn:cart" := by decide
  have cart : Spelled "<urn:cart>" := .full plain
  constructor <;> simp [triplesTerms, terms, cartsQuery, groupTriples, Query.Pattern.triples,
    WellSpelled, Spelled.short type, Spelled.short wheels, cart]

theorem checkPrefixes_exact_carts :
    (checkPrefixes (cartsQuery.render .construct {})
      (declarations (cartsQuery.render .construct {}))).severity = .pass ∧
    ∀ t, Occurs cartsQuery .construct t → ∀ p last, IsName t.text p last → Visible last →
      p ∈ ["ns0", "ns1"] := by
  have words : Bindings.AreWords {} := ⟨by decide, by decide, by decide⟩
  have delimited : ∀ d ∈ cartsQuery.prefixes, Delimited d := by
    simp only [cartsQuery, List.forall_mem_cons]
    exact ⟨⟨by decide, by decide, by decide⟩, ⟨by decide, by decide, by decide⟩, nofun⟩
  have passed : (checkPrefixes (cartsQuery.render .construct {})
    (declarations (cartsQuery.render .construct {}))).severity = .pass := by
    rw [checkPrefixes, declarations, uses, render_split]
    decide +kernel
  exact ⟨passed, (checkPrefixes_exact words proper_carts delimited .construct).1 passed⟩

/-- A query for what somebody has written, by a name whose prefix is not declared. -/
def letters : RdfXmlMapping.Query :=
  let wrote : Triple := ⟨.var 0, .iri "ns0:\u00e9crit", .var 1⟩
  { prefixes := [], template := [wrote], pattern := [.triple wrote], variableCount := 2 }

/-- The check does not see the name, as it does not begin with a Latin letter. -/
theorem prefix_overlooked : Occurs letters .construct (.iri "ns0:\u00e9crit") ∧
    IsName "ns0:\u00e9crit" "ns0" "\u00e9crit" ∧ "ns0" ∉ letters.prefixes.map (·.1) ∧
    (checkPrefixes (letters.render .construct {})
      (declarations (letters.render .construct {}))).severity = .pass := by
  refine ⟨.pattern (by decide), ⟨by decide, by decide, by decide, by decide⟩, by decide, ?_⟩
  rw [checkPrefixes, declarations, uses, render_split]
  decide +kernel

end RdfXmlMapping.Conformance.Query
