import RdfXmlMapping.NCName
import RdfXmlMapping.Proofs.Fresh

/-!
What names are made of. The name made from a label, and the local name of an IRI, hold no character
that has a meaning in markup.
-/

namespace RdfXmlMapping

/-- Characters that end a name, or give what stands around it a meaning of its own. -/
def markupChars : List Char :=
  [':', ' ', '\t', '\n', '\r', '<', '>', '&', '"', '\'', '/', '=', '!', '?']

theorem isPart_markup {c : Char} (markup : c ∈ markupChars) : NCName.isPart c = false := by
  have none : markupChars.all fun c => !NCName.isPart c := by decide
  simpa using List.all_eq_true.mp none c markup

theorem not_mem_of_isPart {cs : List Char} (part : ∀ c ∈ cs, NCName.isPart c) {c : Char}
    (markup : c ∈ markupChars) : c ∉ cs := by
  intro member
  have inside := part c member
  rw [isPart_markup markup] at inside
  cases inside

theorem isNCNameChars_part {cs : List Char} (h : NCName.isNCNameChars cs) :
    ∀ c ∈ cs, NCName.isPart c := by
  cases cs with
  | nil => simp
  | cons c cs =>
    obtain ⟨start, others⟩ := (Bool.and_eq_true _ _).mp h
    refine List.forall_mem_cons.mpr ⟨NCName.isPart_of_isStart start, ?_⟩
    exact List.all_eq_true.mp others

theorem NCName.isPart_of_isDigit {c : Char} (digit : c.isDigit) : NCName.isPart c := by
  have bounds : 48 ≤ c.toNat ∧ c.toNat ≤ 57 := by
    simpa [Char.isDigit, UInt32.le_iff_toNat_le] using digit
  have numeric : Unicode.isNumeric c := by
    show Unicode.inRanges ((0x30, 0x39) :: _) c.toNat
    rw [Unicode.inRanges, if_neg (by omega), if_pos bounds.2]
  simp [NCName.isPart, NCName.isAlphanumeric, numeric]

theorem withStart_part {cs : List Char} (part : ∀ c ∈ cs, NCName.isPart c) :
    ∀ c ∈ NCName.withStart cs, NCName.isPart c := by
  have underscore : NCName.isPart '_' := by decide
  cases cs with
  | nil => simpa [NCName.withStart] using underscore
  | cons c cs =>
    rw [NCName.withStart]
    split
    · exact part
    · exact List.forall_mem_cons.mpr ⟨underscore, part⟩

theorem replaceInvalid_part (c : Char) : NCName.isPart (NCName.replaceInvalid c) := by
  unfold NCName.replaceInvalid
  split
  · assumption
  · decide

theorem toNCName_part (label : String) : ∀ c ∈ (toNCName label).toList, NCName.isPart c := by
  rw [toNCName, String.toList_ofList]
  exact withStart_part (List.forall_mem_map.mpr fun c _ => replaceInvalid_part c)

theorem toNCName_ne_nil (label : String) : (toNCName label).toList ≠ [] := by
  rw [toNCName, String.toList_ofList]
  cases label.toList.map NCName.replaceInvalid with
  | nil => simp [NCName.withStart]
  | cons c cs =>
    rw [NCName.withStart]
    split <;> simp

theorem Iri.isLocalName_part {cs : List Char} (h : Iri.isLocalName cs) :
    ∀ c ∈ cs, NCName.isPart c :=
  isNCNameChars_part ((Bool.and_eq_true _ _).mp h).1

/-- An IRI that can be cut is cut behind its last delimiter. -/
theorem Iri.split?_chars {iri uri last : String} (h : Iri.split? iri = some (uri, last)) :
    iri.toList.reverse.dropWhile (!Iri.isDelimiter ·) ≠ [] ∧
      uri.toList = (iri.toList.reverse.dropWhile (!Iri.isDelimiter ·)).reverse ∧
      last.toList = (iri.toList.reverse.takeWhile (!Iri.isDelimiter ·)).reverse ∧
      Iri.isLocalName last.toList := by
  unfold Iri.split? at h
  split at h
  next cut =>
    split at h
    next isLocal =>
      obtain ⟨rfl, rfl⟩ := Prod.mk.inj (Option.some.inj h)
      unfold Iri.splitChars? at cut
      split at cut
      · cases cut
      next before filled =>
        obtain ⟨rfl, rfl⟩ := Prod.mk.inj (Option.some.inj cut)
        exact ⟨filled, String.toList_ofList, String.toList_ofList, by rwa [String.toList_ofList]⟩
    next => cases h
  next => cases h

theorem Iri.split?_isNCName {iri uri last : String} (h : Iri.split? iri = some (uri, last)) :
    isNCName last := by
  obtain ⟨-, -, -, isLocal⟩ := Iri.split?_chars h
  exact ((Bool.and_eq_true _ _).mp isLocal).1

/-- Namespace and local name make the IRI. -/
theorem Iri.split?_append {iri uri last : String} (h : Iri.split? iri = some (uri, last)) :
    iri = uri ++ last ∧ ∀ c ∈ last.toList, NCName.isPart c := by
  obtain ⟨-, before, after, isLocal⟩ := Iri.split?_chars h
  refine ⟨?_, Iri.isLocalName_part isLocal⟩
  have whole : iri.toList.reverse.takeWhile (!Iri.isDelimiter ·) ++
      iri.toList.reverse.dropWhile (!Iri.isDelimiter ·) = iri.toList.reverse :=
    List.takeWhile_append_dropWhile
  rw [← String.toList_inj, String.toList_append, before, after, ← List.reverse_append, whole,
    List.reverse_reverse]

/-- The namespace of an IRI ends in a delimiter. -/
theorem Iri.split?_delimiter {iri uri last : String} (h : Iri.split? iri = some (uri, last)) :
    ∃ c ∈ uri.toList.getLast?, Iri.isDelimiter c := by
  obtain ⟨filled, before, -, -⟩ := Iri.split?_chars h
  have stops := List.head_dropWhile_not (p := (!Iri.isDelimiter ·)) (l := iri.toList.reverse) filled
  refine ⟨_, ?_, by simpa using stops⟩
  rw [before, List.getLast?_reverse]
  exact List.head?_eq_some_head filled

/-! ### Numbered names -/

theorem toString_digits (n : Nat) : ∀ c ∈ (toString n).toList, c.isDigit := by
  intro c inside
  rw [show toString n = n.repr from rfl, Nat.toList_repr] at inside
  exact Nat.isDigit_of_mem_toDigits (by omega) (by omega) inside

end RdfXmlMapping
