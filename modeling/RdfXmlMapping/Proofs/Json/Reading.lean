import Mathlib.Data.List.DropRight
import RdfXmlMapping.Json.Numeral
import RdfXmlMapping.Json.Printer
import RdfXmlMapping.Json.Reader
import RdfXmlMapping.Json.Text
import RdfXmlMapping.Proofs.Text.Lines

/-!
Texts and values read back. Each character of a text is written as one piece, itself or an escape,
and no piece is taken for the end of the text (`scanText_quote`). A number of at most 64 bits is
read digit by digit, up to what cannot belong to a number (`scanUnsigned_count`). The text of a
value whose numbers are counts is read as that value, without a fault and to its end
(`scan_render`).
-/

namespace RdfXmlMapping.Json

/-! ### Texts and counts -/

section

variable {c : Char} {cs rest : List Char}

/-- What the pieces after a first one are read as, with that one in front. -/
theorem scanPieces_plain (quote : c ≠ '"') (slash : c ≠ '\\') (visible : 0x20 ≤ c.toNat) :
    scanPieces (c :: rest) = (.char c :: (scanPieces rest).1, (scanPieces rest).2) := by
  have printed : ¬ c.toNat < 0x20 := by omega
  rw [scanPieces.eq_def]
  split
  all_goals simp_all

theorem scanPieces_simple {e d : Char} (other : e ≠ 'u') (escape : simpleEscape? e = some d) :
    scanPieces ('\\' :: e :: rest) = (.char d :: (scanPieces rest).1, (scanPieces rest).2) := by
  rw [scanPieces.eq_def]
  split
  all_goals grind

theorem hexValue?_hexDigit {n : Nat} (small : n < 16) : hexValue? (hexDigit n) = some n := by
  have all : ∀ n < 16, hexValue? (hexDigit n) = some n := by decide
  exact all n small

/-- A control character is written with the two digits of its number. -/
theorem scanPieces_control {n : Nat} (control : n < 0x20) :
    scanPieces ('\\' :: 'u' :: '0' :: '0' :: hexDigit (n / 16) :: hexDigit (n % 16) :: rest) =
      (.unit n :: (scanPieces rest).1, (scanPieces rest).2) := by
  have digits : hexUnit? '0' '0' (hexDigit (n / 16)) (hexDigit (n % 16)) = some n := by
    have zero : hexValue? '0' = some 0 := rfl
    rw [hexUnit?, zero, hexValue?_hexDigit (by omega : n / 16 < 16),
      hexValue?_hexDigit (by omega : n % 16 < 16)]
    exact congrArg some (by omega)
  rw [scanPieces, digits]

/-- The piece that a character is written as. -/
def pieceOf (c : Char) : Piece :=
  if c.toNat < 0x20 ∧ c ∉ ['\x08', '\x0c', '\n', '\r', '\t'] then .unit c.toNat else .char c

theorem scanPieces_escapeChar (c : Char) :
    scanPieces (escapeChar c ++ rest) =
      (pieceOf c :: (scanPieces rest).1, (scanPieces rest).2) := by
  unfold escapeChar
  split
  case h_8 quote slash back feed line turn tab =>
    have others : c ∉ ['\x08', '\x0c', '\n', '\r', '\t'] := by simp_all
    split
    next control =>
      rw [pieceOf, if_pos ⟨control, others⟩]
      exact scanPieces_control control
    next visible =>
      rw [pieceOf, if_neg fun both => visible both.1]
      exact scanPieces_plain quote slash (Nat.le_of_not_lt visible)
  all_goals exact scanPieces_simple (by decide) rfl

theorem scanPieces_quote (cs : List Char) :
    scanPieces (cs.flatMap escapeChar ++ '"' :: rest) = (cs.map pieceOf, .ok rest) := by
  induction cs with
  | nil => rfl
  | cons c cs ih =>
    rw [List.flatMap_cons, List.append_assoc, scanPieces_escapeChar, ih]
    rfl

/-- No unit that is written is part of a pair. -/
theorem decodePieces_pieceOf (cs : List Char) : decodePieces none (cs.map pieceOf) = .ok cs := by
  induction cs with
  | nil => rfl
  | cons c cs ih =>
    rw [List.map_cons, pieceOf]
    split
    next control =>
      -- A control character is far from the units that make up pairs.
      have trailing : isTrailing c.toNat = false := by simp [isTrailing]; omega
      have leading : isLeading c.toNat = false := by simp [isLeading]; omega
      rw [decodePieces.eq_def]
      simp only [trailing, leading, ih, Char.ofNat_toNat, Bool.false_eq_true, if_false]
      rfl
    next =>
      rw [decodePieces, ih]
      rfl

theorem scanText_quote (s : String) :
    scanText (s.toList.flatMap escapeChar ++ '"' :: rest) = (.ok s, .ok rest) := by
  rw [scanText, scanPieces_quote]
  change ((decodePieces none _).map String.ofList, _) = _
  rw [decodePieces_pieceOf, Except.map, String.ofList_toList]

/-! ### Counts -/

/-- What can follow a number: nothing, or a character that is no part of one. -/
def EndsNumber (rest : List Char) : Prop :=
  ∀ c ∈ rest.head?, c.isDigit = false ∧ c ≠ '.' ∧ c ≠ 'e' ∧ c ≠ 'E'

theorem le_ofDigitChars (ds : List Char) (n : Nat) : n ≤ Nat.ofDigitChars 10 ds n := by
  rw [Nat.ofDigitChars_eq_ofDigitChars_zero]
  exact Nat.le_add_right_of_le (Nat.le_mul_of_pos_left n (Nat.pow_pos (by decide)))

/-- Digits are taken in as long as the number that they make is not too large. -/
theorem foldl_pushInteger (ds : List Char) (n : Nat)
    (small : Nat.ofDigitChars 10 ds n ≤ maxSignificand) :
    ds.foldl Scaled.pushInteger { significand := n } =
      { significand := Nat.ofDigitChars 10 ds n } := by
  induction ds generalizing n with
  | nil => rfl
  | cons d ds ih =>
    have next : Nat.ofDigitChars 10 (d :: ds) n =
        Nat.ofDigitChars 10 ds (n * 10 + digitValue d) := by
      rw [Nat.ofDigitChars_cons, Nat.mul_comm]
      rfl
    rw [next] at small ⊢
    have room : n * 10 + digitValue d ≤ maxSignificand :=
      (le_ofDigitChars ds _).trans small
    rw [List.foldl_cons, Scaled.pushInteger, if_neg Bool.false_ne_true,
      if_neg (Nat.not_lt.mpr room)]
    exact ih _ small

theorem eq_zero_of_toDigits {n : Nat} (zero : (Nat.toDigits 10 n).head? = some '0') : n = 0 := by
  induction n using Nat.strongRecOn with
  | ind n ih =>
    rw [Nat.toDigits_eq_if (by decide)] at zero
    split at zero
    next small =>
      have only : ∀ n < 10, n.digitChar = '0' → n = 0 := by decide
      exact only n small (Option.some.inj zero)
    next large =>
      rw [List.head?_append, List.head?_eq_some_head Nat.toDigits_ne_nil, Option.some_or,
        ← List.head?_eq_some_head Nat.toDigits_ne_nil] at zero
      have shorter := ih (n / 10) (by omega) zero
      omega

/-- No number but zero begins with the digit zero. -/
theorem toDigits_leading {n : Nat} {d : Char} {ds : List Char} :
    Nat.toDigits 10 n ≠ '0' :: d :: ds := by
  intro digits
  obtain rfl := eq_zero_of_toDigits (n := n) (by rw [digits]; rfl)
  have one : Nat.toDigits 10 0 = ['0'] := rfl
  cases one.symm.trans digits

theorem scanUnsigned_count {n : Nat} (small : n ≤ maxSignificand) (ends : EndsNumber rest) :
    scanUnsigned false ((toString n).toList ++ rest) = ⟨.ok (.integer n), none, rest⟩ := by
  have digits : spanDigits ((toString n).toList ++ rest) = (Nat.toDigits 10 n, rest) := by
    rw [show toString n = n.repr from rfl, Nat.toList_repr]
    refine Text.span_append (fun c member => ?_) fun c first => (ends c first).1
    exact Nat.isDigit_of_mem_toDigits (by decide) (by decide) member
  have whole : Nat.ofDigitChars 10 (Nat.toDigits 10 n) 0 = n :=
    Nat.ofDigitChars_toDigits (by decide) (by decide)
  have taken : (Nat.toDigits 10 n).foldl Scaled.pushInteger {} = { significand := n } := by
    have read := foldl_pushInteger (Nat.toDigits 10 n) 0 (by rw [whole]; exact small)
    rwa [whole] at read
  rw [scanUnsigned, digits]
  split
  next none => exact absurd (Prod.mk.inj none).1 Nat.toDigits_ne_nil
  next _ none => exact absurd (Prod.mk.inj none).1 Nat.toDigits_ne_nil
  next leading => exact absurd (Prod.mk.inj leading).1 toDigits_leading
  next ds after _ _ same =>
    obtain ⟨rfl, rfl⟩ := Prod.mk.inj same
    rw [taken]
    dsimp only
    -- Neither a fraction nor an exponent follows.
    split
    · exact absurd rfl (ends _ rfl).2.1
    · exact absurd rfl (ends _ rfl).2.2.1
    · exact absurd rfl (ends _ rfl).2.2.2
    · rfl

end

/-! ### Values -/

variable {cs rest : List Char} {v : Value} {n : Nat}

mutual

/-- The document that a value is read as. -/
def Value.doc : Value → Doc
  | .null => .null
  | .bool b => .bool b
  | .number n => .number (.ok n) none
  | .string s => .string (.ok s) none
  | .array items => .array (docs items) none
  | .object members => .object (memberDocs members) none

/-- The documents of items. -/
def docs : List Value → List Doc
  | [] => []
  | v :: vs => v.doc :: docs vs

/-- The documents of members. -/
def memberDocs : List (String × Value) → List (Except Fault String × Doc)
  | [] => []
  | (k, v) :: ms => (.ok k, v.doc) :: memberDocs ms

end

mutual

/-- All numbers of a value are counts of at most 64 bits. -/
def Value.Counted : Value → Prop
  | .number n => ∃ k ≤ maxSignificand, n = .integer (k : Nat)
  | .array items => ItemsCounted items
  | .object members => MembersCounted members
  | _ => True

/-- All numbers of items are counts. -/
def ItemsCounted : List Value → Prop
  | [] => True
  | v :: vs => v.Counted ∧ ItemsCounted vs

/-- All numbers of members are counts. -/
def MembersCounted : List (String × Value) → Prop
  | [] => True
  | (_, v) :: ms => v.Counted ∧ MembersCounted ms

end

/-! ### Blanks -/

@[simp] theorem trimStart_trimStart (cs : List Char) : trimStart (trimStart cs) = trimStart cs := by
  unfold trimStart
  exact List.dropWhile_idempotent _ _

theorem trimStart_newline (depth : Nat) (cs : List Char) :
    trimStart (newline depth ++ cs) = trimStart cs := by
  refine List.dropWhile_append_of_pos fun c member => ?_
  rcases List.mem_cons.mp member with rfl | blank
  · rfl
  · rw [(List.mem_replicate.mp blank).2]
    rfl

theorem trimStart_cons {c : Char} (visible : isSpace c = false) :
    trimStart (c :: cs) = c :: cs :=
  List.dropWhile_cons_of_neg (Bool.eq_false_iff.mp visible)

theorem scanValue_trimStart (fuel : Nat) (cs : List Char) :
    scanValue fuel (trimStart cs) = scanValue fuel cs := by
  cases fuel with
  | zero => rfl
  | succ fuel => rw [scanValue, scanValue, trimStart_trimStart]

theorem scanValue_blank (fuel : Nat) (cs : List Char) :
    scanValue fuel (' ' :: cs) = scanValue fuel cs := by
  rw [← scanValue_trimStart, ← scanValue_trimStart fuel cs]
  rfl

theorem scanItems_trimStart (fuel : Nat) (cs : List Char) :
    scanItems fuel (trimStart cs) = scanItems fuel cs := by
  cases fuel with
  | zero => rfl
  | succ fuel => rw [scanItems, scanItems, scanValue_trimStart]

theorem scanMembers_trimStart (fuel : Nat) (cs : List Char) :
    scanMembers fuel (trimStart cs) = scanMembers fuel cs := by
  cases fuel with
  | zero => rfl
  | succ fuel => rw [scanMembers, scanMembers, trimStart_trimStart]

/-! ### Single values -/

theorem digit_apart {d : Char} (digit : d.isDigit) :
    isSpace d = false ∧ d ∉ ['n', 't', 'f', '-', '"', '[', ']', '\x7b', '\x7d'] := by
  refine ⟨?_, fun member => ?_⟩
  · simp only [isSpace, Bool.or_eq_false_iff, decide_eq_false_iff_not]
    refine ⟨⟨⟨?_, ?_⟩, ?_⟩, ?_⟩ <;> (rintro rfl; revert digit; decide)
  · simp only [List.mem_cons, List.not_mem_nil, or_false] at member
    rcases member with rfl | rfl | rfl | rfl | rfl | rfl | rfl | rfl | rfl <;>
      (revert digit; decide)

/-- A count begins with a digit. -/
theorem count_head (n : Nat) : ∃ d ds, (toString n).toList = d :: ds ∧ d.isDigit := by
  rw [show toString n = n.repr from rfl, Nat.toList_repr]
  cases digits : Nat.toDigits 10 n with
  | nil => exact absurd digits Nat.toDigits_ne_nil
  | cons d ds =>
    have member : d ∈ Nat.toDigits 10 n := by simp [digits]
    exact ⟨d, ds, rfl, Nat.isDigit_of_mem_toDigits (by decide) (by decide) member⟩

theorem scanValue_count (fuel : Nat) (small : n ≤ maxSignificand) (ends : EndsNumber rest) :
    scanValue (fuel + 1) ((toString n).toList ++ rest) =
      (.number (.ok (.integer n)) none, some rest) := by
  have read : scanNumber false ((toString n).toList ++ rest) =
      (.number (.ok (.integer n)) none, some rest) := by
    rw [scanNumber, scanUnsigned_count small ends]
    rfl
  obtain ⟨d, ds, digits, digit⟩ := count_head n
  obtain ⟨visible, apart⟩ := digit_apart digit
  rw [digits, List.cons_append] at read ⊢
  rw [scanValue, trimStart_cons visible]
  split
  all_goals grind

/-- A value begins neither with a blank nor with the end of an array. -/
theorem render_head (depth : Nat) (counted : v.Counted) :
    ∃ c cs, render depth v = c :: cs ∧ isSpace c = false ∧ c ≠ ']' := by
  match v with
  | .null | .bool true | .bool false | .array [] | .object [] => exact ⟨_, _, rfl, rfl, by decide⟩
  | .string _ | .array (_ :: _) | .object (_ :: _) => exact ⟨_, _, rfl, rfl, by decide⟩
  | .number n =>
    obtain ⟨k, _, rfl⟩ := counted
    obtain ⟨d, ds, digits, digit⟩ := count_head k
    obtain ⟨visible, apart⟩ := digit_apart digit
    exact ⟨d, ds, digits, visible, by rintro rfl; simp at apart⟩

/-! ### Containers -/

@[simp] theorem newline_length (depth : Nat) : (newline depth).length = 2 * depth + 1 := by
  simp [newline]

theorem renderItems_cons (depth : Nat) (v : Value) (vs : List Value) : renderItems depth (v :: vs) =
    ',' :: (newline depth ++ (render depth v ++ renderItems depth vs)) := by
  simp [renderItems]

theorem renderMembers_cons (depth : Nat) (k : String) (v : Value) (ms : List (String × Value)) :
    renderMembers depth ((k, v) :: ms) = ',' :: (newline depth ++
      (quote k ++ ':' :: ' ' :: (render depth v ++ renderMembers depth ms))) := by
  simp [renderMembers]

theorem quote_head (s : String) (cs : List Char) :
    trimStart (quote s ++ cs) = '"' :: (s.toList.flatMap escapeChar ++ '"' :: cs) := by
  rw [quote, List.cons_append, List.cons_append, List.append_assoc, trimStart_cons rfl]
  rfl

theorem scanValue_quote (fuel : Nat) (s : String) :
    scanValue (fuel + 1) (quote s ++ rest) = (.string (.ok s) none, some rest) := by
  rw [scanValue, quote_head]
  change scanString _ = _
  rw [scanString, scanText_quote]

section

variable {after inner : List Char} {fuel : Nat} {c : Char} {k : String} {d : Doc}
  {ds : List Doc} {ms : List (Except Fault String × Doc)}

theorem scanValue_array (first : (trimStart inner).head? = some c) (inside : c ≠ ']')
    (items : scanItems fuel inner = (ds, none, some rest)) :
    scanValue (fuel + 1) ('[' :: inner) = (.array ds none, some rest) := by
  obtain ⟨cs, first⟩ := List.head?_eq_some_iff.mp first
  rw [← scanItems_trimStart, first] at items
  rw [scanValue, trimStart_cons rfl]
  simp [first, inside, items]

theorem scanValue_object (first : (trimStart inner).head? = some c) (inside : c ≠ '\x7d')
    (members : scanMembers fuel inner = (ms, none, some rest)) :
    scanValue (fuel + 1) ('\x7b' :: inner) = (.object ms none, some rest) := by
  obtain ⟨cs, first⟩ := List.head?_eq_some_iff.mp first
  rw [← scanMembers_trimStart, first] at members
  rw [scanValue, trimStart_cons rfl]
  simp [first, inside, members]

theorem scanItems_last (item : scanValue fuel cs = (d, some after))
    (last : trimStart after = ']' :: rest) :
    scanItems (fuel + 1) cs = ([d], none, some rest) := by
  simp [scanItems, item, last]

theorem scanItems_next (item : scanValue fuel cs = (d, some after))
    (next : trimStart after = ',' :: inner)
    (items : scanItems fuel inner = (ds, none, some rest)) :
    scanItems (fuel + 1) cs = (d :: ds, none, some rest) := by
  simp [scanItems, item, next, items]

theorem scanMembers_last (value : scanValue fuel cs = (d, some after))
    (last : trimStart after = '\x7d' :: rest) :
    scanMembers (fuel + 1) (quote k ++ ':' :: ' ' :: cs) = ([(.ok k, d)], none, some rest) := by
  rw [scanMembers, quote_head]
  simp [scanText_quote, trimStart_cons (show isSpace ':' = false from rfl), scanValue_blank, value,
    last]

theorem scanMembers_next (value : scanValue fuel cs = (d, some after))
    (next : trimStart after = ',' :: inner)
    (members : scanMembers fuel inner = (ms, none, some rest)) :
    scanMembers (fuel + 1) (quote k ++ ':' :: ' ' :: cs) = ((.ok k, d) :: ms, none, some rest) := by
  rw [scanMembers, quote_head]
  simp [scanText_quote, trimStart_cons (show isSpace ':' = false from rfl), scanValue_blank, value,
    next, members]

end

theorem endsNumber_newline (depth : Nat) : EndsNumber (newline depth ++ rest) := by
  rintro c ⟨⟩
  decide

theorem endsNumber_comma : EndsNumber (',' :: rest) := by
  rintro c ⟨⟩
  decide

mutual

-- The induction is on what is written. Each level of a text takes two steps, that of a value and
-- that of the items or members it is one of, and at least one character: hence twice the length.

/-- A value is read as itself; a text of so many characters nests no deeper than the fuel. -/
theorem scanValue_render : ∀ (v : Value) (depth fuel : Nat) (rest : List Char), v.Counted →
    2 * (render depth v).length ≤ fuel → EndsNumber rest →
    scanValue fuel (render depth v ++ rest) = (v.doc, some rest)
  | v, depth, 0, rest, counted, room, _ => by
    obtain ⟨c, cs, text, -⟩ := render_head depth counted
    simp [text] at room
  | .null, _, fuel + 1, rest, _, _, _ => rfl
  | .bool true, _, fuel + 1, rest, _, _, _ => rfl
  | .bool false, _, fuel + 1, rest, _, _, _ => rfl
  | .number n, depth, fuel + 1, rest, counted, _, ends => by
    obtain ⟨k, small, rfl⟩ := counted
    exact scanValue_count fuel small ends
  | .string s, depth, fuel + 1, rest, _, _, _ => scanValue_quote fuel s
  | .array [], _, fuel + 1, rest, _, _, _ => rfl
  | .array (v :: vs), depth, fuel + 1, rest, counted, room, _ => by
    obtain ⟨c, cs, text, visible, inside⟩ := render_head (depth + 1) counted.1
    have items := scanItems_render (v :: vs) (depth + 1) depth fuel _ rest counted
      (renderItems_cons ..) (by simp [render] at room ⊢; omega)
    refine (congrArg _ ?_).trans (scanValue_array ?_ inside items)
    · simp [render]
    · rw [List.append_assoc, trimStart_newline, text]
      exact congrArg List.head? (trimStart_cons visible)
  | .object [], _, fuel + 1, rest, _, _, _ => rfl
  | .object ((k, v) :: ms), depth, fuel + 1, rest, counted, room, _ => by
    have members := scanMembers_render ((k, v) :: ms) (depth + 1) depth fuel _ rest counted
      (renderMembers_cons ..) (by simp [render] at room ⊢; omega)
    refine (congrArg _ ?_).trans (scanValue_object ?_ (c := '"') (by decide) members)
    · simp [render]
    · rw [List.append_assoc, trimStart_newline, List.append_assoc, quote_head]
      rfl

/-- Items are read to the end of their array; `text` is what stands after its beginning or after a
comma. -/
theorem scanItems_render : ∀ (vs : List Value) (depth outer fuel : Nat) (text rest : List Char),
    ItemsCounted vs → renderItems depth vs = ',' :: text → 2 * text.length ≤ fuel →
    scanItems fuel (text ++ (newline outer ++ ']' :: rest)) = (docs vs, none, some rest)
  | [], _, _, _, _, _, _, written, _ => by cases written
  | v :: vs, depth, outer, 0, text, rest, counted, written, room => by
    obtain rfl := (List.cons.inj ((renderItems_cons ..).symm.trans written)).2
    simp only [List.length_append, newline_length] at room
    omega
  | [v], depth, outer, fuel + 1, text, rest, counted, written, room => by
    obtain rfl := (List.cons.inj ((renderItems_cons ..).symm.trans written)).2
    rw [← scanItems_trimStart, List.append_assoc, trimStart_newline, scanItems_trimStart,
      List.append_assoc]
    refine scanItems_last (scanValue_render v depth fuel _ counted.1 ?_ ?_) ?_
    · simp at room
      omega
    · exact endsNumber_newline outer
    · exact (trimStart_newline ..).trans (trimStart_cons rfl)
  | v :: w :: vs, depth, outer, fuel + 1, text, rest, counted, written, room => by
    obtain rfl := (List.cons.inj ((renderItems_cons ..).symm.trans written)).2
    rw [← scanItems_trimStart, List.append_assoc, trimStart_newline, scanItems_trimStart,
      List.append_assoc]
    have items := scanItems_render (w :: vs) depth outer fuel _ rest counted.2
      (renderItems_cons ..) (by simp [renderItems_cons] at room ⊢; omega)
    refine scanItems_next (scanValue_render v depth fuel _ counted.1 ?_ ?_) ?_ items
    · simp at room
      omega
    · rw [renderItems_cons]
      exact endsNumber_comma
    · rw [renderItems_cons]
      exact trimStart_cons rfl

/-- Members are read to the end of their object. -/
theorem scanMembers_render : ∀ (ms : List (String × Value)) (depth outer fuel : Nat)
    (text rest : List Char), MembersCounted ms → renderMembers depth ms = ',' :: text →
    2 * text.length ≤ fuel →
    scanMembers fuel (text ++ (newline outer ++ '\x7d' :: rest)) =
      (memberDocs ms, none, some rest)
  | [], _, _, _, _, _, _, written, _ => by cases written
  | (k, v) :: ms, depth, outer, 0, text, rest, counted, written, room => by
    obtain rfl := (List.cons.inj ((renderMembers_cons ..).symm.trans written)).2
    simp at room
  | [(k, v)], depth, outer, fuel + 1, text, rest, counted, written, room => by
    obtain rfl := (List.cons.inj ((renderMembers_cons ..).symm.trans written)).2
    rw [← scanMembers_trimStart, List.append_assoc, trimStart_newline, scanMembers_trimStart]
    simp only [List.append_assoc, List.cons_append]
    refine scanMembers_last (scanValue_render v depth fuel _ counted.1 ?_ ?_) ?_
    · simp at room
      omega
    · exact endsNumber_newline outer
    · exact (trimStart_newline ..).trans (trimStart_cons rfl)
  | (k, v) :: (l, w) :: ms, depth, outer, fuel + 1, text, rest, counted, written, room => by
    obtain rfl := (List.cons.inj ((renderMembers_cons ..).symm.trans written)).2
    rw [← scanMembers_trimStart, List.append_assoc, trimStart_newline, scanMembers_trimStart]
    simp only [List.append_assoc, List.cons_append]
    have members := scanMembers_render ((l, w) :: ms) depth outer fuel _ rest counted.2
      (renderMembers_cons ..) (by simp [renderMembers_cons] at room ⊢; omega)
    refine scanMembers_next (scanValue_render v depth fuel _ counted.1 ?_ ?_) ?_ members
    · simp at room
      omega
    · rw [renderMembers_cons]
      exact endsNumber_comma
    · rw [renderMembers_cons]
      exact trimStart_cons rfl

end

/-- The text of a value is read as the value, and nothing else stands in it. -/
theorem scan_render (counted : v.Counted) : scan (render 0 v) = (v.doc, none) := by
  have read := scanValue_render v 0 (2 * (render 0 v).length + 2) [] counted (by omega) nofun
  rw [List.append_nil] at read
  rw [scan, read]
  rfl

end RdfXmlMapping.Json
