import RdfXmlMapping.Conformance.Query
import RdfXmlMapping.Proofs.Query.Text
import RdfXmlMapping.Proofs.Unicode.Ranges

/-!
Characters of words and characters between them: no character is both (`separates_word`).
-/

namespace RdfXmlMapping.Unicode

theorem isBlank_word {c : Char} (h : isBlank c) : isWordChar c = false := by
  have blanks : ∀ r ∈ blankRanges, ∀ n ∈ List.range' r.1 (r.2 + 1 - r.1),
      (inRanges alphabeticRanges n || inRanges wordExtraRanges n) = false := by decide +kernel
  obtain ⟨r, member, low, high⟩ := mem_of_inRanges h
  exact blanks r member c.toNat (List.mem_range'_1.mpr (by omega))

theorem isAlphanum_range {c : Char} (h : c.isAlphanum) : (65 ≤ c.toNat ∧ c.toNat ≤ 90) ∨
    (97 ≤ c.toNat ∧ c.toNat ≤ 122) ∨ (48 ≤ c.toNat ∧ c.toNat ≤ 57) := by
  unfold Char.isAlphanum Char.isAlpha Char.isUpper Char.isLower Char.isDigit at h
  simp only [Bool.or_eq_true, Bool.and_eq_true, decide_eq_true_eq, ge_iff_le,
    UInt32.le_iff_toNat_le] at h
  rw [← or_assoc]
  exact h

theorem isWordChar_of_isAlphanum {c : Char} (h : c.isAlphanum) : isWordChar c := by
  rw [isWordChar, Bool.or_eq_true]
  rcases isAlphanum_range h with ⟨low, high⟩ | ⟨low, high⟩ | ⟨low, high⟩
  · exact .inl (inRanges_cons low high)
  · left
    show inRanges (_ :: (0x61, 0x7A) :: _) c.toNat
    rw [inRanges, if_neg (by omega), if_neg (by omega)]
    exact inRanges_cons low high
  · exact .inr (inRanges_cons low high)

end RdfXmlMapping.Unicode

namespace RdfXmlMapping.Conformance.Query

open RdfXmlMapping.Query (Free IsWord)
open Unicode (isWordChar)

variable {text : String}

theorem separates_word {c : Char} (h : separates c) : isWordChar c = false ∧ c ≠ '-' := by
  simp only [separates, Bool.or_eq_true, decide_eq_true_eq] at h
  rcases h with (((blank | rfl) | rfl) | rfl) | rfl
  · refine ⟨Unicode.isBlank_word blank, ?_⟩
    rintro rfl
    revert blank
    decide
  all_goals exact ⟨by decide, by decide⟩

theorem isWord_wordChar (h : IsWord text) : ∀ c ∈ text.toList, isWordChar c := by
  intro c inside
  rcases h c inside with letter | rfl
  · exact Unicode.isWordChar_of_isAlphanum letter
  · decide

theorem isBlank_isWordChar {c : Char} (h : isWordChar c) : Unicode.isBlank c = false := by
  rw [Bool.eq_false_iff]
  intro blank
  rw [Unicode.isBlank_word blank] at h
  cases h

theorem isWord_free (h : IsWord text) : Free ['<', ':', '\n', '\r', ' ', '\x7b'] text :=
  Query.free_of_all h (by decide)

theorem plain_free (h : Plain text) : Free ['<', '>', '\n', '\r', ' '] text := by
  exact Query.free_of_all h (by decide)

end RdfXmlMapping.Conformance.Query
