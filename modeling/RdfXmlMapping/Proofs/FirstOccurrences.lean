import Mathlib.Data.List.Induction

/-!
Lists that are searched by a key and grow at their end: what stays as it is, and what the first
occurrences are.
-/

namespace RdfXmlMapping

/-- Steps that only add to the end of a list leave its beginning as it is. -/
theorem foldl_prefix {σ α β : Type} {f : σ → α → σ} {view : σ → List β}
    (step : ∀ s x, view s <+: view (f s x)) (s : σ) (xs : List α) :
    view s <+: view (xs.foldl f s) := by
  induction xs generalizing s with
  | nil => exact List.prefix_refl _
  | cons x xs ih => exact (step s x).trans (ih (f s x))

/-- A key that some element has is found at the first element that has it. -/
theorem find?_key {α β : Type} [BEq β] [LawfulBEq β] (key : α → β) {xs : List α} {k : β}
    (present : ∃ x ∈ xs, key x = k) : ∃ x ∈ xs, key x = k ∧ xs.find? (key · == k) = some x := by
  obtain ⟨x, member, same⟩ := present
  have found : (xs.find? (key · == k)).isSome :=
    List.find?_isSome.mpr ⟨x, member, beq_iff_eq.mpr same⟩
  obtain ⟨first, found⟩ := Option.isSome_iff_exists.mp found
  exact ⟨first, List.mem_of_find?_eq_some found, beq_iff_eq.mp (List.find?_some found :), found⟩

theorem find?_key_none {α β : Type} [BEq β] [LawfulBEq β] {key : α → β} {xs : List α} {k : β}
    (absent : ¬ ∃ x ∈ xs, key x = k) : xs.find? (key · == k) = none :=
  List.find?_eq_none.mpr fun x member same => absent ⟨x, member, beq_iff_eq.mp same⟩

theorem eraseDups_seen {α : Type} [BEq α] [LawfulBEq α] {seen : List α} {x : α} (h : x ∈ seen) :
    (seen ++ [x]).eraseDups = seen.eraseDups := by
  simp [List.eraseDups_append, List.removeAll, h]

theorem eraseDups_new {α : Type} [BEq α] [LawfulBEq α] {seen : List α} {x : α} (h : x ∉ seen) :
    (seen ++ [x]).eraseDups = seen.eraseDups ++ [x] := by
  simp [List.eraseDups_append, List.eraseDups_cons, List.removeAll, h]

theorem eraseDups_nodup {α : Type} [BEq α] [LawfulBEq α] (xs : List α) : xs.eraseDups.Nodup := by
  induction size : xs.length using Nat.strongRecOn generalizing xs with
  | ind size ih =>
    cases xs with
    | nil => simp
    | cons x xs =>
      have fewer := List.length_filter_le (fun y => !y == x) xs
      rw [List.eraseDups_cons, List.nodup_cons]
      refine ⟨by simp [List.mem_eraseDups], ih _ ?_ _ rfl⟩
      rw [← size, List.length_cons]
      omega

/-- Of the elements that agree in a key the first one is kept. -/
theorem eraseDupsBy_snoc {α β : Type} [BEq β] [LawfulBEq β] [DecidableEq β] (key : α → β)
    (xs : List α) (x : α) : (xs ++ [x]).eraseDupsBy (key · == key ·) =
      xs.eraseDupsBy (key · == key ·) ++ if key x ∈ xs.map key then [] else [x] := by
  induction hn : xs.length using Nat.strongRecOn generalizing xs with
  | ind n ih =>
    cases xs with
    | nil => simp [List.eraseDupsBy_cons]
    | cons y ys =>
      have fewer : (ys.filter fun z => decide ((key z == key y) = false)).length < n := by
        have := List.length_filter_le (fun z => decide ((key z == key y) = false)) ys
        simp only [List.length_cons] at hn
        omega
      rw [List.cons_append, List.eraseDupsBy_cons, List.eraseDupsBy_cons, List.filter_append]
      by_cases same : key x = key y
      · simp [same]
      · have kept : [x].filter (fun z => decide ((key z == key y) = false)) = [x] := by simp [same]
        rw [kept, ih _ fewer _ rfl, List.cons_append]
        have among : key x ∈ (ys.filter fun z => decide ((key z == key y) = false)).map key ↔
            key x ∈ (y :: ys).map key := by
          simp only [List.mem_map, List.mem_filter, List.mem_cons]
          constructor
          · rintro ⟨z, ⟨member, _⟩, equal⟩
            exact ⟨z, .inr member, equal⟩
          · rintro ⟨z, rfl | member, equal⟩
            · exact absurd equal.symm same
            · exact ⟨z, ⟨member, by simpa [equal] using same⟩, equal⟩
        simp only [among]

theorem mem_map_eraseDupsBy {α β : Type} [BEq β] [LawfulBEq β] [DecidableEq β] (key : α → β)
    (xs : List α) (k : β) : k ∈ (xs.eraseDupsBy (key · == key ·)).map key ↔ k ∈ xs.map key := by
  induction xs using List.reverseRecOn with
  | nil => simp
  | append_singleton xs x ih =>
    rw [eraseDupsBy_snoc, List.map_append, List.map_append, List.mem_append, List.mem_append, ih]
    by_cases old : key x ∈ xs.map key
    · rw [if_pos old]
      refine ⟨fun member => .inl (member.resolve_right List.not_mem_nil), fun member => .inl ?_⟩
      exact member.elim id fun last => List.mem_singleton.mp last ▸ old
    · rw [if_neg old]

end RdfXmlMapping
