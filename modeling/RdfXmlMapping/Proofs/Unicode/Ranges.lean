import Mathlib.Data.List.Sort
import RdfXmlMapping.Unicode.Ranges

/-! Which code points lie in ranges, and ranges that lie in others. -/

namespace RdfXmlMapping.Unicode

variable {ranges outer : List (Nat × Nat)} {n : Nat}

theorem mem_of_inRanges (h : inRanges ranges n) : ∃ r ∈ ranges, r.1 ≤ n ∧ n ≤ r.2 := by
  induction ranges with
  | nil => cases h
  | cons r rest ih =>
    obtain ⟨first, last⟩ := r
    rw [inRanges] at h
    split at h
    · cases h
    · split at h
      · exact ⟨_, List.mem_cons_self, by omega, by omega⟩
      · obtain ⟨r, member, inside⟩ := ih h
        exact ⟨r, List.mem_cons_of_mem _ member, inside⟩

theorem inRanges_cons {first last : Nat} {rest : List (Nat × Nat)} (low : first ≤ n)
    (high : n ≤ last) : inRanges ((first, last) :: rest) n := by
  rw [inRanges, if_neg (by omega), if_pos high]

/-- Ranges in order, as a search in them needs them: it ends at a range that starts above the code
point. -/
def Ordered (ranges : List (Nat × Nat)) : Prop := ranges.Pairwise fun r s => r.1 ≤ s.1 ∧ r.2 < s.1

instance : Decidable (Ordered ranges) := inferInstanceAs (Decidable (List.Pairwise _ _))

theorem inRanges_of_mem (ordered : Ordered ranges) {r : Nat × Nat} (member : r ∈ ranges)
    (low : r.1 ≤ n) (high : n ≤ r.2) : inRanges ranges n := by
  induction ordered with
  | nil => cases member
  | @cons s rest before _ ih =>
    rcases List.mem_cons.mp member with rfl | later
    · exact inRanges_cons low high
    · have above := before r later
      rw [inRanges, if_neg (by omega), if_neg (by omega)]
      exact ih later

/-- The ranges of several tables in one. -/
def merged (tables : List (List (Nat × Nat))) : List (Nat × Nat) :=
  tables.flatten.insertionSort fun r s => r.1 ≤ s.1

theorem inRanges_merged {tables : List (List (Nat × Nat))} (ordered : ∀ t ∈ tables, Ordered t)
    (h : inRanges (merged tables) n) : ∃ t ∈ tables, inRanges t n := by
  obtain ⟨r, member, low, high⟩ := mem_of_inRanges h
  rw [merged, List.mem_insertionSort, List.mem_flatten] at member
  obtain ⟨t, among, member⟩ := member
  exact ⟨t, among, inRanges_of_mem (ordered t among) member low high⟩

/-- Whether a search in the ranges finds all code points from `low` to `high`. They may lie in
several ranges that follow on each other. -/
def covers : List (Nat × Nat) → Nat → Nat → Bool
  | [], low, high => Nat.blt high low
  | (first, last) :: rest, low, high =>
    Nat.blt high low || Nat.ble first low && covers rest (max low (last + 1)) high

theorem inRanges_of_covers {low high : Nat} (h : covers ranges low high) (above : low ≤ n)
    (below : n ≤ high) : inRanges ranges n := by
  induction ranges generalizing low with
  | nil =>
    have empty : high < low := by simpa [covers, Nat.blt_eq] using h
    omega
  | cons r rest ih =>
    obtain ⟨first, last⟩ := r
    simp only [covers, Bool.or_eq_true, Bool.and_eq_true, Nat.blt_eq, Nat.ble_eq] at h
    obtain empty | ⟨begun, others⟩ := h
    · omega
    · by_cases inside : n ≤ last
      · exact inRanges_cons (Nat.le_trans begun above) inside
      · rw [inRanges, if_neg (by omega), if_neg inside]
        exact ih others (by omega)

/-- Whether all code points of the inner ranges lie in the outer ones. -/
def contains (outer inner : List (Nat × Nat)) : Bool := inner.all fun r => covers outer r.1 r.2

theorem inRanges_of_contains {inner : List (Nat × Nat)} (all : contains outer inner)
    (h : inRanges inner n) : inRanges outer n := by
  obtain ⟨r, member, low, high⟩ := mem_of_inRanges h
  exact inRanges_of_covers (List.all_eq_true.mp all r member) low high

/-- Whether no code point lies in ranges of both lists. -/
def apart (left right : List (Nat × Nat)) : Bool :=
  left.all fun r => right.all fun s => Nat.blt r.2 s.1 || Nat.blt s.2 r.1

theorem inRanges_apart {left right : List (Nat × Nat)} (h : apart left right)
    (inside : inRanges left n) : inRanges right n = false := by
  rw [Bool.eq_false_iff]
  intro both
  obtain ⟨r, member, low, high⟩ := mem_of_inRanges inside
  obtain ⟨s, among, below, above⟩ := mem_of_inRanges both
  have one := List.all_eq_true.mp (List.all_eq_true.mp h r member) s among
  simp only [Bool.or_eq_true, Nat.blt_eq] at one
  omega

end RdfXmlMapping.Unicode
