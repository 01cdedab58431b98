import Mathlib.Data.List.Nodup
import Mathlib.Data.List.Perm.Subperm
import RdfXmlMapping.ClassNames
import RdfXmlMapping.Import.Table
import RdfXmlMapping.PrefixTable
import Std.Data.String.ToNat

/-!
The first free name of a numbered family is free: more names than are taken have been tried. So the
search for it ends without a bound on the tries (`fresh_stops`).
-/

namespace RdfXmlMapping

variable {name : Nat → String} {taken : List String}

theorem taken_of_freshFrom (tries start : Nat)
    (h : name (freshFrom name taken tries start) ∈ taken) :
    ∀ i ≤ tries, name (start + i) ∈ taken := by
  induction tries generalizing start with
  | zero =>
    intro i bound
    obtain rfl : i = 0 := by omega
    exact h
  | succ tries ih =>
    unfold freshFrom at h
    split at h
    next first =>
      intro i bound
      cases i with
      | zero => exact List.contains_iff_mem.mp first
      | succ i =>
        have rest := ih (start + 1) h i (by omega)
        rwa [show start + 1 + i = start + (i + 1) by omega] at rest
    next free => exact absurd (List.contains_iff_mem.mpr h) free

theorem fresh_free (injective : Function.Injective name) (taken : List String) (start : Nat) :
    name (fresh name taken start) ∉ taken := by
  intro h
  have all := taken_of_freshFrom _ _ h
  let tried := (List.range (taken.length + 1)).map fun i => name (start + i)
  have distinct : tried.Nodup := List.Nodup.map
    (fun i j same => Nat.add_left_cancel (injective same)) List.nodup_range
  have inside : tried ⊆ taken := by
    intro n member
    obtain ⟨i, small, rfl⟩ := List.mem_map.mp member
    exact all i (by have := List.mem_range.mp small; omega)
  -- One name more has been tried than names are taken.
  have few := (List.subperm_of_subset distinct inside).length_le
  simp only [tried, List.length_map, List.length_range] at few
  omega

/-- Trying one number after the other, with no bound on the tries, stops at the first whose name is
not taken. -/
inductive Stops (name : Nat → String) (taken : List String) : (start stop : Nat) → Prop
  | here {start : Nat} : name start ∉ taken → Stops name taken start start
  | later {start stop : Nat} : name start ∈ taken → Stops name taken (start + 1) stop →
      Stops name taken start stop

theorem freshFrom_stops {tries start : Nat}
    (free : name (freshFrom name taken tries start) ∉ taken) :
    Stops name taken start (freshFrom name taken tries start) := by
  induction tries generalizing start with
  | zero => exact .here free
  | succ tries ih =>
    unfold freshFrom at free ⊢
    split
    next used =>
      rw [if_pos used] at free
      exact .later (List.contains_iff_mem.mp used) (ih free)
    next unused => exact .here fun used => unused (List.contains_iff_mem.mpr used)

theorem fresh_stops (injective : Function.Injective name) (taken : List String) (start : Nat) :
    Stops name taken start (fresh name taken start) :=
  freshFrom_stops (fresh_free injective taken start)

/-- The search stops at the least number from the start on whose name is free. -/
theorem Stops.least {start stop : Nat} (h : Stops name taken start stop) :
    start ≤ stop ∧ name stop ∉ taken ∧ ∀ k, start ≤ k → k < stop → name k ∈ taken := by
  induction h with
  | here free => exact ⟨Nat.le_refl _, free, fun k later earlier => absurd later (by omega)⟩
  | @later start stop used _ ih =>
    obtain ⟨bound, free, passed⟩ := ih
    refine ⟨by omega, free, fun k later earlier => ?_⟩
    rcases Nat.eq_or_lt_of_le later with rfl | beyond
    · exact used
    · exact passed k beyond earlier

theorem toString_injective {m n : Nat} (h : toString m = toString n) : m = n :=
  Nat.repr_injective h

namespace ClassNames

theorem choice_injective (base : String) : Function.Injective (choice base) := by
  have longer (n : Nat) : base ≠ base ++ toString (n + 2) := by
    intro same
    have empty : Nat.repr (n + 2) = "" := String.append_eq_left_iff.mp same.symm
    have digits := Nat.isNat_repr (n + 2)
    exact (String.isNat_iff.mp digits).1 empty
  intro m n same
  cases m <;> cases n
  · rfl
  · exact absurd same (longer _)
  · exact absurd same.symm (longer _)
  · have := toString_injective ((String.append_right_inj _).mp same)
    omega

end ClassNames

theorem Import.Table.numbered_injective : Function.Injective numbered := by
  intro m n same
  exact toString_injective ((String.append_right_inj _).mp same)

end RdfXmlMapping
