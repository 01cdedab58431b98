import Mathlib
import RdfXmlMapping.Model.Build
import RdfXmlMapping.Proofs.ClassNames
import RdfXmlMapping.Proofs.PrefixTable
import RdfXmlMapping.Proofs.Unicode.Ranges
import RdfXmlMapping.Xml.Reference

/-!
The names made from labels and cut from IRIs against the names of XML documents. The former are told
by what is alphabetic or numeric, the latter by ranges of code points, and over all characters the
two differ in a few ranges: a name is well-formed iff its label has no character of these
(`names_wellFormed_iff`).
-/

namespace RdfXmlMapping

open Unicode (inRanges)

/-! ### Characters -/

namespace Xml

/-- A character that may begin a name without a colon. -/
def isNCNameStart (c : Char) : Bool := isNameStart c && c ≠ ':'

/-- A character that may stand in a name without a colon. -/
def isNCNamePart (c : Char) : Bool := isNamePart c && c ≠ ':'

/-- A name without a colon, as namespaces in XML require it of a prefix and of what follows it. -/
def IsNCName (text : String) : Prop :=
  ∃ c cs, text.toList = c :: cs ∧ isNCNameStart c ∧ ∀ d ∈ cs, isNCNamePart d

theorem isNamePart_of_isDigit {c : Char} (digit : c.isDigit) : isNamePart c := by
  have bounds : 48 ≤ c.toNat ∧ c.toNat ≤ 57 := by
    simpa [Char.isDigit, UInt32.le_iff_toNat_le] using digit
  have inside : inRanges namePartRanges c.toNat :=
    Unicode.inRanges_of_mem (by decide) (List.mem_cons_of_mem _ List.mem_cons_self)
      bounds.1 bounds.2
  rw [isNamePart, inside, Bool.or_true]

theorem isNCNamePart_of_isDigit {c : Char} (digit : c.isDigit) : isNCNamePart c := by
  have colon : c ≠ ':' := by
    rintro rfl
    cases digit
  rw [isNCNamePart, Bool.and_eq_true, decide_eq_true_eq]
  exact ⟨isNamePart_of_isDigit digit, colon⟩

theorem isNCName_append {base more : String} (nonempty : base.toList ≠ [])
    (part : ∀ c ∈ more.toList, isNCNamePart c) : IsNCName (base ++ more) ↔ IsNCName base := by
  unfold IsNCName
  rw [String.toList_append]
  cases found : base.toList with
  | nil => exact absurd found nonempty
  | cons c cs =>
    constructor <;> rintro ⟨_, _, same, start, rest⟩ <;> obtain ⟨rfl, rfl⟩ := List.cons.inj same
    · exact ⟨c, cs, rfl, start, fun d member => rest d (List.mem_append_left _ member)⟩
    · exact ⟨c, _, rfl, start, List.forall_mem_append.mpr ⟨rest, part⟩⟩

end Xml

namespace NCName

/-- Ranges of alphabetic code points that no XML name has: the ordinal and micro signs, letters in
circles. -/
def strayLetterRanges : List (Nat × Nat) :=
  [(0xAA, 0xAA), (0xB5, 0xB5), (0xBA, 0xBA), (0x24B6, 0x24E9)]

/-- Ranges of numeric code points that no XML name has: superscript digits, fractions, numbers in
circles or parentheses. -/
def strayNumberRanges : List (Nat × Nat) :=
  [(0xB2, 0xB3), (0xB9, 0xB9), (0xBC, 0xBE), (0x2460, 0x249B), (0x24EA, 0x24FF), (0x2776, 0x2793)]

/-- Ranges of alphabetic code points that may stand in an XML name but not begin one: combining
letters. -/
def markRanges : List (Nat × Nat) := [(0x345, 0x345), (0x363, 0x36F)]

def isStray (c : Char) : Bool :=
  inRanges strayLetterRanges c.toNat || inRanges strayNumberRanges c.toNat

def isMark (c : Char) : Bool := inRanges markRanges c.toNat

variable {c : Char}

/-- Of the alphabetic characters all but marks and strays begin names. -/
theorem alphabetic_cases (h : Unicode.isAlphabetic c) :
    Xml.isNameStart c ∨ isMark c ∨ isStray c := by
  have all : Unicode.contains (Unicode.merged [Xml.nameStartRanges, markRanges, strayLetterRanges])
      Unicode.alphabeticRanges := by decide +kernel
  obtain ⟨table, member, inside⟩ :=
    Unicode.inRanges_merged (by decide) (Unicode.inRanges_of_contains all h)
  simp only [List.mem_cons, List.not_mem_nil, or_false] at member
  obtain rfl | rfl | rfl := member
  · exact .inl inside
  · exact .inr (.inl inside)
  · exact .inr (.inr ((Bool.or_eq_true _ _).mpr (.inl inside)))

/-- Of the numeric characters all but strays stand in names. -/
theorem numeric_cases (h : Unicode.isNumeric c) : Xml.isNamePart c ∨ isStray c := by
  have all : Unicode.contains (Unicode.merged
      [Xml.nameStartRanges, Xml.namePartRanges, strayNumberRanges]) Unicode.numericRanges := by
    decide +kernel
  obtain ⟨table, member, inside⟩ :=
    Unicode.inRanges_merged (by decide) (Unicode.inRanges_of_contains all h)
  simp only [List.mem_cons, List.not_mem_nil, or_false] at member
  rw [Xml.isNamePart, isStray, Bool.or_eq_true, Bool.or_eq_true]
  obtain rfl | rfl | rfl := member
  · exact .inl (.inl inside)
  · exact .inl (.inr inside)
  · exact .inr (.inr inside)

theorem isMark_letter (h : isMark c) : Unicode.isAlphabetic c := by
  have letters : Unicode.contains Unicode.alphabeticRanges markRanges := by decide +kernel
  exact Unicode.inRanges_of_contains letters h

theorem isMark_part (h : isMark c) : Xml.isNamePart c ∧ Xml.isNameStart c = false := by
  have inside : Unicode.contains Xml.namePartRanges markRanges := by decide
  have outside : Unicode.apart markRanges Xml.nameStartRanges := by decide
  exact ⟨(Bool.or_eq_true _ _).mpr (.inr (Unicode.inRanges_of_contains inside h)),
    Unicode.inRanges_apart outside h⟩

theorem isStray_alphanumeric (h : isStray c) : isAlphanumeric c := by
  have letters : Unicode.contains Unicode.alphabeticRanges strayLetterRanges := by decide +kernel
  have numbers : Unicode.contains Unicode.numericRanges strayNumberRanges := by decide +kernel
  rw [isStray, Bool.or_eq_true] at h
  exact (Bool.or_eq_true _ _).mpr
    (h.imp (Unicode.inRanges_of_contains letters) (Unicode.inRanges_of_contains numbers))

theorem isStray_outside (h : isStray c) : Xml.isNamePart c = false := by
  have apart : ∀ table ∈ [strayLetterRanges, strayNumberRanges],
      Unicode.apart table Xml.nameStartRanges ∧ Unicode.apart table Xml.namePartRanges := by decide
  simp only [List.forall_mem_cons] at apart
  rw [Xml.isNamePart, Bool.or_eq_false_iff]
  rcases (Bool.or_eq_true _ _).mp h with letter | number
  · exact ⟨Unicode.inRanges_apart apart.1.1 letter, Unicode.inRanges_apart apart.1.2 letter⟩
  · exact ⟨Unicode.inRanges_apart apart.2.1.1 number, Unicode.inRanges_apart apart.2.1.2 number⟩

theorem ne_colon_of_isPart (part : isPart c) : c ≠ ':' := by
  rintro rfl
  cases part.symm.trans (isPart_markup (by decide))

/-- What a name made here may hold is what an XML name may hold, strays apart. -/
theorem isNCNamePart_iff (part : isPart c) : Xml.isNCNamePart c ↔ isStray c = false := by
  rw [Xml.isNCNamePart, Bool.and_eq_true, decide_eq_true_eq, and_iff_left (ne_colon_of_isPart part)]
  refine ⟨fun inside => Bool.eq_false_iff.mpr fun stray => ?_, fun plain => ?_⟩
  · cases inside.symm.trans (isStray_outside stray)
  · simp only [isPart, isAlphanumeric, Bool.or_eq_true, decide_eq_true_eq] at part
    rcases part with (((letter | number) | rfl) | rfl) | rfl
    · rcases alphabetic_cases letter with start | mark | stray
      · exact (Bool.or_eq_true _ _).mpr (.inl start)
      · exact (isMark_part mark).1
      · cases plain.symm.trans stray
    · exact (numeric_cases number).resolve_right (Bool.eq_false_iff.mp plain)
    all_goals decide

/-- What a name made here may begin with is what an XML name may begin with, marks and strays
apart. -/
theorem isNCNameStart_iff (start : isStart c) :
    Xml.isNCNameStart c ↔ isMark c = false ∧ isStray c = false := by
  rw [Xml.isNCNameStart, Bool.and_eq_true, decide_eq_true_eq,
    and_iff_left (ne_colon_of_isPart (isPart_of_isStart start))]
  refine ⟨fun inside => ⟨?_, ?_⟩, fun ⟨unmarked, plain⟩ => ?_⟩
  · refine Bool.eq_false_iff.mpr fun mark => ?_
    cases inside.symm.trans (isMark_part mark).2
  · refine Bool.eq_false_iff.mpr fun stray => ?_
    have part : Xml.isNamePart c := (Bool.or_eq_true _ _).mpr (.inl inside)
    cases part.symm.trans (isStray_outside stray)
  · rw [isStart, Bool.or_eq_true, decide_eq_true_eq] at start
    obtain letter | rfl := start
    · rcases alphabetic_cases letter with begins | mark | stray
      · exact begins
      · cases unmarked.symm.trans mark
      · cases plain.symm.trans stray
    · decide

theorem isPart_of_isStray (h : isStray c) : isPart c := by
  simp [isPart, isStray_alphanumeric h]

theorem isStart_of_isMark (h : isMark c) : isStart c := by simp [isStart, isMark_letter h]

theorem isStray_replaceInvalid (c : Char) : isStray (replaceInvalid c) = isStray c := by
  unfold replaceInvalid
  split
  · rfl
  next outside =>
    exact .trans (by decide) (Bool.eq_false_iff.mpr fun h => outside (isPart_of_isStray h)).symm

theorem isMark_replaceInvalid (c : Char) : isMark (replaceInvalid c) = isMark c := by
  unfold replaceInvalid
  split
  · rfl
  next outside =>
    refine .trans (by decide) (Bool.eq_false_iff.mpr fun h => outside ?_).symm
    exact isPart_of_isStart (isStart_of_isMark h)

end NCName

/-! ### Names -/

def NCName.NameableChars (cs : List Char) : Prop :=
  (∀ c ∈ cs, isStray c = false) ∧ ∀ c ∈ cs.head?, isMark c = false

instance (cs : List Char) : Decidable (NCName.NameableChars cs) :=
  decidable_of_iff ((cs.all fun c => !NCName.isStray c) ∧ cs.head?.all fun c => !NCName.isMark c)
    (by simp [NCName.NameableChars, Option.all_eq_true])

/-- A text whose name is an XML name: none of its characters is a stray, and it does not begin with
a mark. -/
def Nameable (text : String) : Prop := NCName.NameableChars text.toList

instance (text : String) : Decidable (Nameable text) :=
  inferInstanceAs (Decidable (NCName.NameableChars _))

variable {text : String}

theorem isNCName_iff_nameable (h : isNCName text) : Xml.IsNCName text ↔ Nameable text := by
  rw [isNCName] at h
  rw [Xml.IsNCName, Nameable, NCName.NameableChars]
  generalize text.toList = cs at h ⊢
  cases cs with
  | nil => cases h
  | cons c cs =>
    obtain ⟨start, others⟩ := (Bool.and_eq_true _ _).mp h
    have parts : (∀ d ∈ cs, Xml.isNCNamePart d) ↔ ∀ d ∈ cs, NCName.isStray d = false :=
      forall₂_congr fun d member => NCName.isNCNamePart_iff (List.all_eq_true.mp others d member)
    constructor
    · rintro ⟨_, _, same, begins, rest⟩
      obtain ⟨rfl, rfl⟩ := List.cons.inj same
      obtain ⟨unmarked, plain⟩ := (NCName.isNCNameStart_iff start).mp begins
      exact ⟨List.forall_mem_cons.mpr ⟨plain, parts.mp rest⟩, by simpa using unmarked⟩
    · rintro ⟨plain, unmarked⟩
      obtain ⟨first, rest⟩ := List.forall_mem_cons.mp plain
      exact ⟨c, cs, rfl, (NCName.isNCNameStart_iff start).mpr ⟨by simpa using unmarked, first⟩,
        parts.mpr rest⟩

namespace NCName

variable {cs : List Char}

theorem isNCNameChars_withStart (part : ∀ c ∈ cs, isPart c) : isNCNameChars (withStart cs) := by
  cases cs with
  | nil => decide
  | cons c cs =>
    rw [withStart]
    split
    next start =>
      rw [isNCNameChars, Bool.and_eq_true, List.all_eq_true]
      exact ⟨start, fun d member => part d (List.mem_cons_of_mem _ member)⟩
    next =>
      rw [isNCNameChars, Bool.and_eq_true, List.all_eq_true]
      exact ⟨by decide, part⟩

theorem nameableChars_map (cs : List Char) :
    NameableChars (cs.map replaceInvalid) ↔ NameableChars cs := by
  simp only [NameableChars, List.forall_mem_map, List.head?_map, Option.mem_map,
    forall_exists_index, and_imp, forall_apply_eq_imp_iff₂, isStray_replaceInvalid,
    isMark_replaceInvalid]

/-- An underscore is put before no mark. -/
theorem nameableChars_withStart (cs : List Char) :
    NameableChars (withStart cs) ↔ NameableChars cs := by
  have plain : isStray '_' = false := by decide
  have unmarked : isMark '_' = false := by decide
  cases cs with
  | nil => simp [withStart, NameableChars, plain, unmarked]
  | cons c cs =>
    rw [withStart]
    split
    · rfl
    next other =>
      have free : isMark c = false := Bool.eq_false_iff.mpr fun h => other (isStart_of_isMark h)
      simp [NameableChars, plain, unmarked, free]

end NCName

/-- Every label makes a name in the sense of the program. -/
theorem isNCName_toNCName (label : String) : isNCName (toNCName label) := by
  rw [isNCName, toNCName, String.toList_ofList]
  exact NCName.isNCNameChars_withStart (List.forall_mem_map.mpr fun c _ => replaceInvalid_part c)

theorem nameable_toNCName (label : String) : Nameable (toNCName label) ↔ Nameable label := by
  rw [Nameable, toNCName, String.toList_ofList, NCName.nameableChars_withStart,
    NCName.nameableChars_map, Nameable]

theorem toNCName_wellFormed (label : String) : Xml.IsNCName (toNCName label) ↔ Nameable label :=
  (isNCName_iff_nameable (isNCName_toNCName label)).trans (nameable_toNCName label)

/-- A number behind a name leaves it well-formed or not. -/
theorem ClassNames.choice_wellFormed (label : String) (n : Nat) :
    Xml.IsNCName (choice (toNCName label) n) ↔ Nameable label := by
  cases n with
  | zero => exact toNCName_wellFormed label
  | succ n =>
    have digits : ∀ c ∈ (toString (n + 2)).toList, Xml.isNCNamePart c := fun c member =>
      Xml.isNCNamePart_of_isDigit (toString_digits _ c member)
    exact (Xml.isNCName_append (toNCName_ne_nil label) digits).trans (toNCName_wellFormed label)

theorem ClassNames.get_wellFormed {m : Model} {c : Class} (known : m.Knows c) :
    Xml.IsNCName ((ClassNames.ofModel m).get c) ↔ Nameable c.label := by
  obtain ⟨n, read⟩ := ClassNames.get_choice known
  rw [read]
  exact ClassNames.choice_wellFormed c.label n

theorem PrefixTable.qualify_wellFormed {t u : PrefixTable} {iri name : String} (sound : t.Sound)
    (stem : Xml.IsNCName t.stem) (h : t.qualify iri = (some name, u)) :
    ∃ uri own last, Iri.split? iri = some (uri, last) ∧ (uri, own) ∈ u.entries ∧
      name = own ++ ":" ++ last ∧ Xml.IsNCName own ∧ (Xml.IsNCName last ↔ Nameable last) := by
  obtain ⟨uri, own, last, cut, more, present, rfl⟩ := qualify_some h
  refine ⟨uri, own, last, cut, present, rfl, ?_, isNCName_iff_nameable (Iri.split?_isNCName cut)⟩
  obtain ⟨n, _, rfl⟩ := (more.sound sound).named (uri, own) present
  have nonempty : u.stem.toList ≠ [] := by
    obtain ⟨c, cs, begins, _⟩ := stem
    rw [more.stem, begins]
    exact List.cons_ne_nil c cs
  refine (Xml.isNCName_append nonempty fun c member => ?_).mpr (more.stem ▸ stem)
  exact Xml.isNCNamePart_of_isDigit (toString_digits _ c member)

/-- Which of the names are names of XML documents: those made from a label, the names for types with
their numbers, the local name of an IRI, and the name for a predicate that consists of a prefix and
such a local name. A label that is a name already stays as it is. -/
theorem names_wellFormed_iff (label iri : String) :
    (Xml.IsNCName (toNCName label) ↔ Nameable label) ∧
    (isNCName label → toNCName label = label) ∧
    (∀ t : ClassNames, Xml.IsNCName (t.reserve (toNCName label)).1 ↔ Nameable label) ∧
    (∀ (m : Model) c, m.Knows c → c.label = label →
      (Xml.IsNCName ((ClassNames.ofModel m).get c) ↔ Nameable label)) ∧
    (∀ uri last, Iri.split? iri = some (uri, last) →
      iri = uri ++ last ∧ (Xml.IsNCName last ↔ Nameable last)) ∧
    ∀ (t u : PrefixTable) name, t.Sound → Xml.IsNCName t.stem → t.qualify iri = (some name, u) →
      ∃ uri own last, Iri.split? iri = some (uri, last) ∧ (uri, own) ∈ u.entries ∧
        name = own ++ ":" ++ last ∧ Xml.IsNCName own ∧ (Xml.IsNCName last ↔ Nameable last) := by
  refine ⟨toNCName_wellFormed label, toNCName_of_isNCName,
    fun _ => ClassNames.choice_wellFormed label _, ?_, ?_,
    fun _ _ _ => PrefixTable.qualify_wellFormed⟩
  · rintro m c known rfl
    exact ClassNames.get_wellFormed known
  · intro uri last cut
    exact ⟨(Iri.split?_append cut).1, isNCName_iff_nameable (Iri.split?_isNCName cut)⟩

/-- The superscript two is kept as if it were a digit. -/
theorem name_not_wellFormed : toNCName "m²" = "m²" ∧ ¬ Xml.IsNCName (toNCName "m²") ∧
    Iri.split? "https://ex.org/m²" = some ("https://ex.org/", "m²") ∧ ¬ Xml.IsNCName "m²" := by
  have kept : toNCName "m²" = "m²" := toNCName_of_isNCName (by decide +kernel)
  have stray : ¬ Xml.IsNCName (toNCName "m²") := (toNCName_wellFormed "m²").not.mpr (by decide)
  exact ⟨kept, stray, by decide +kernel, kept ▸ stray⟩

def plot : Class := Class.make "Plot" "Plot of land"

/-- A land register whose class has a label that is no name yet. -/
def landRegister : Model := (Model.make "register" "land").declaring plot

/-- The table after the first namespace. -/
def firstPrefix : PrefixTable :=
  { stem := "ns", entries := [("https://ex.org/ns#", "ns0")], next := 1 }

set_option maxRecDepth 20000 in
theorem names_wellFormed_landRegister : landRegister.Knows plot ∧
    Xml.IsNCName ((ClassNames.ofModel landRegister).get plot) ∧
    Iri.split? "https://ex.org/ns#area" = some ("https://ex.org/ns#", "area") ∧
    Xml.IsNCName "area" ∧
    PrefixTable.qualify { stem := "ns" } "https://ex.org/ns#area" = (some "ns0:area", firstPrefix) ∧
    Xml.IsNCName "ns0" ∧ isNCName "Plot_2" ∧ toNCName "Plot_2" = "Plot_2" := by
  obtain ⟨_, _, _, classes, locals, predicates⟩ :=
    names_wellFormed_iff "Plot of land" "https://ex.org/ns#area"
  have known : landRegister.Knows plot := rfl
  have cut : Iri.split? "https://ex.org/ns#area" = some ("https://ex.org/ns#", "area") := rfl
  have name : isNCName "Plot_2" := rfl
  have stem : Xml.IsNCName "ns" :=
    ⟨'n', ['s'], rfl, by decide, List.forall_mem_singleton.mpr (by decide)⟩
  have asked : PrefixTable.qualify { stem := "ns" } "https://ex.org/ns#area" =
      (some "ns0:area", firstPrefix) := rfl
  obtain ⟨_, own, _, _, present, _, begins, _⟩ :=
    predicates _ _ _ (PrefixTable.sound_empty "ns" []) stem asked
  obtain ⟨_, rfl⟩ := Prod.mk.inj (List.mem_singleton.mp present)
  have kept : toNCName "Plot_2" = "Plot_2" := (names_wellFormed_iff "Plot_2" "").2.1 name
  exact ⟨known, (classes _ _ known rfl).mpr (by decide), cut, (locals _ _ cut).2.mpr (by decide),
    asked, begins, name, kept⟩

end RdfXmlMapping
