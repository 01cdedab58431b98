import RdfXmlMapping.Import.Resolve
import RdfXmlMapping.Proofs.FirstOccurrences
import RdfXmlMapping.Proofs.Fresh

/-!
Tables of imports. A document is entered once, at the first use of its reference, and no two entries
share a prefix. The entries are the documents in the order of their first registration, and none
ever changes (`registrations_account`).
-/

namespace RdfXmlMapping.Import

theorem Outlook.resolve_some {o : Outlook} {m : Model} {c : Class} {d : Descriptor}
    (h : o.resolve m c = .ok (some d)) : m.isForeign c = true := by
  unfold resolve at h
  split at h
  · cases h
  next foreign => simpa using foreign

theorem Outlook.resolve_none {o : Outlook} {m : Model} {c : Class}
    (h : o.resolve m c = .ok none) : m.isForeign c = false := by
  unfold resolve at h
  split at h
  next own => simpa using own
  next =>
    dsimp only at h
    split at h <;> cases h

theorem Outlook.resolve_published {o : Outlook} {m : Model} {c : Class} {d : Descriptor}
    (h : o.resolve m c = .ok (some d)) : ∃ manifest ∈ o.manifests, ∃ p ∈ manifest.publications,
      p.kind = o.kind ∧ d.ownPrefix = p.nsPrefix := by
  unfold resolve at h
  split at h
  · cases h
  · dsimp only at h
    split at h
    · cases h
    next p found =>
      obtain rfl := Option.some.inj (Except.ok.inj h)
      obtain ⟨manifest, member, first⟩ := List.exists_of_findSome?_eq_some found
      have kind := List.find?_some first
      simp only [Bool.and_eq_true, decide_eq_true_eq] at kind
      exact ⟨manifest, (List.mem_filter.mp member).1, p, List.mem_of_find?_eq_some first,
        kind.1, rfl⟩

namespace Table

variable {t u : Table} {d : Descriptor} {e : Entry} {bound : Option String} {next : Nat}

/-- A prefix that an import may be given: its own, or one made from a number. -/
def Suits (d : Descriptor) (p : String) : Prop := d.ownPrefix = some p ∨ ∃ n, p = numbered n

/-- What the registration of an import does: the entry and the table after it. -/
inductive Registered (t : Table) (d : Descriptor) : Entry → Table → Prop
  | known {e : Entry} : e ∈ t.entries → e.descriptor.reference = d.reference → Registered t d e t
  | new {bound : Option String} {next : Nat} :
      (∀ e ∈ t.entries, e.descriptor.reference ≠ d.reference) →
      bound.isSome = d.uri.isSome → (∀ p, bound = some p → p ∉ t.taken ∧ Suits d p) →
      Registered t d ⟨d, bound⟩ { t with entries := t.entries ++ [⟨d, bound⟩], next }

/-- The prefix of a document that is new, and the first number not tried after it. Without a
namespace there is no prefix. The document's own is taken if it is free; else numbers are tried from
the first one on that has not been tried before. -/
inductive Chosen (t : Table) (d : Descriptor) : Option String → Nat → Prop
  | none : d.uri = none → Chosen t d none t.next
  | own {p : String} : d.uri.isSome → d.ownPrefix = some p → p ∉ t.taken →
      Chosen t d (some p) t.next
  | numbered {n : Nat} : d.uri.isSome → (∀ p, d.ownPrefix = some p → p ∈ t.taken) →
      Stops numbered t.taken t.next n → Chosen t d (some (numbered n)) (n + 1)

theorem choosePrefix_chosen (t : Table) (d : Descriptor) :
    Chosen t d (t.choosePrefix d).1 (t.choosePrefix d).2 := by
  have stops := fresh_stops numbered_injective t.taken t.next
  unfold choosePrefix
  split
  next absent => exact .none absent
  next present own =>
    split
    next used =>
      refine .numbered (by simp [present]) (fun p named => ?_) stops
      obtain rfl := Option.some.inj (own.symm.trans named)
      exact List.contains_iff_mem.mp used
    next free =>
      exact .own (by simp [present]) own fun used => free (List.contains_iff_mem.mpr used)
  next present unnamed =>
    refine .numbered (by simp [present]) (fun p named => ?_) stops
    cases unnamed.symm.trans named

theorem chosen_bound (h : Chosen t d bound next) : bound.isSome = d.uri.isSome := by
  cases h with
  | none absent => rw [absent]
  | own present _ _ => exact present.symm
  | numbered present _ _ => exact present.symm

theorem chosen_free (h : Chosen t d bound next) : ∀ p ∈ bound, p ∉ t.taken := by
  cases h with
  | none _ => simp
  | own _ _ free => simpa using free
  | numbered _ _ stops => simpa using stops.least.2.1

theorem chosen_suits (h : Chosen t d bound next) : ∀ p ∈ bound, Suits d p := by
  cases h with
  | none _ => simp
  | own _ own _ => simpa using .inl own
  | numbered _ _ _ => simpa using .inr ⟨_, rfl⟩

theorem choosePrefix_free (h : t.choosePrefix d = (bound, next)) :
    bound.isSome = d.uri.isSome ∧ ∀ p, bound = some p → p ∉ t.taken ∧ Suits d p := by
  have chosen := choosePrefix_chosen t d
  rw [h] at chosen
  exact ⟨chosen_bound chosen, fun p same => ⟨chosen_free chosen p same, chosen_suits chosen p same⟩⟩

theorem register_registered (t : Table) (d : Descriptor) :
    Registered t d (t.register d).1 (t.register d).2 := by
  unfold register
  split
  next e found =>
    exact .known (List.mem_of_find?_eq_some found) (beq_iff_eq.mp (List.find?_some found :))
  next absent =>
    obtain ⟨some_iff, free⟩ := choosePrefix_free (t := t) (d := d) rfl
    refine .new (fun e member same => ?_) some_iff free
    exact List.find?_eq_none.mp absent e member (beq_iff_eq.mpr same)

theorem registered_mem (h : Registered t d e u) :
    e ∈ u.entries ∧ e.descriptor.reference = d.reference := by
  cases h with
  | known member same => exact ⟨member, same⟩
  | new _ _ _ => exact ⟨List.mem_append_right _ List.mem_cons_self, rfl⟩

theorem registered_prefix (h : Registered t d e u) : t.entries <+: u.entries := by
  cases h with
  | known _ _ => exact List.prefix_refl _
  | new _ _ _ => exact List.prefix_append _ _

theorem registered_entry {f : Entry} (h : Registered t d e u) (member : f ∈ u.entries) :
    f ∈ t.entries ∨ f.descriptor = d := by
  cases h with
  | known _ _ => exact .inl member
  | new _ _ _ =>
    rcases List.mem_append.mp member with old | last
    · exact .inl old
    · exact .inr (List.mem_singleton.mp last ▸ rfl)

theorem registered_reserved (h : Registered t d e u) : u.reserved = t.reserved := by
  cases h with
  | known _ _ => rfl
  | new _ _ _ => rfl

/-- What holds of every table that registrations lead to. -/
structure Sound (t : Table) : Prop where
  /-- A prefix is bound exactly to a namespace. -/
  bound : ∀ e ∈ t.entries, e.bound.isSome = e.descriptor.uri.isSome
  references : (t.entries.map (·.descriptor.reference)).Nodup
  prefixes : (t.entries.filterMap (·.bound)).Nodup
  free : ∀ e ∈ t.entries, ∀ p, e.bound = some p → p ∉ t.reserved ∧ Suits e.descriptor p

theorem sound_empty (reserved : List String) : Sound { reserved } where
  bound := fun _ member => by cases member
  references := List.nodup_nil
  prefixes := List.nodup_nil
  free := fun _ member => by cases member

theorem Sound.unique {e f : Entry} (sound : Sound t) (left : e ∈ t.entries)
    (right : f ∈ t.entries) (same : e.descriptor.reference = f.descriptor.reference) : e = f :=
  List.inj_on_of_nodup_map sound.references left right same

theorem sound_registered (sound : Sound t) (h : Registered t d e u) : Sound u := by
  cases h with
  | known _ _ => exact sound
  | @new bound next other some_iff free =>
    refine ⟨?_, ?_, ?_, ?_⟩
    · intro e member
      rcases List.mem_append.mp member with old | last
      · exact sound.bound e old
      · obtain rfl := List.mem_singleton.mp last
        exact some_iff
    · rw [List.map_append]
      refine List.Nodup.append sound.references (List.nodup_singleton _) ?_
      intro reference old last
      obtain ⟨e, member, rfl⟩ := List.mem_map.mp old
      exact other e member (List.mem_singleton.mp last)
    · rw [List.filterMap_append]
      cases bound with
      | none => simpa using sound.prefixes
      | some p =>
        refine List.Nodup.append sound.prefixes (List.nodup_singleton _) ?_
        intro q old last
        obtain rfl := List.mem_singleton.mp last
        exact (free q rfl).1 (List.mem_append_right _ old)
    · intro e member p same
      rcases List.mem_append.mp member with old | last
      · exact sound.free e old p same
      · obtain rfl := List.mem_singleton.mp last
        obtain ⟨free, suits⟩ := free p same
        exact ⟨fun reserved => free (List.mem_append_left _ reserved), suits⟩

/-! ### All registrations -/

/-- The table after documents have been registered one after the other. -/
def registered (reserved : List String) (ds : List Descriptor) : Table :=
  ds.foldl (fun t d => (t.register d).2) { reserved }

/-- What the registration of a document gives: the entry there is, or a new one behind all
others. -/
structure Registers (t : Table) (d : Descriptor) : Prop where
  again : ∀ e ∈ t.entries, e.descriptor.reference = d.reference → t.register d = (e, t)
  new : (∀ e ∈ t.entries, e.descriptor.reference ≠ d.reference) → ∃ bound next,
    Chosen t d bound next ∧
      t.register d = (⟨d, bound⟩, { t with entries := t.entries ++ [⟨d, bound⟩], next })

/-- What a table is after the registration of documents one after the other. -/
structure Account (reserved : List String) (ds : List Descriptor) (t : Table) : Prop where
  descriptors : t.entries.map (·.descriptor) = ds.eraseDupsBy (·.reference == ·.reference)
  sound : Sound t
  /-- The prefix made from a number that has been tried is taken. -/
  tried : ∀ n < t.next, numbered n ∈ t.taken
  reserved : t.reserved = reserved

variable {reserved : List String} {ds later : List Descriptor}

theorem register_registers (references : (t.entries.map (·.descriptor.reference)).Nodup)
    (d : Descriptor) : Registers t d where
  again := by
    intro e member same
    obtain ⟨f, present, first, found⟩ :=
      find?_key (fun e : Entry => e.descriptor.reference) ⟨e, member, same⟩
    obtain rfl := List.inj_on_of_nodup_map references present member (first.trans same.symm)
    rw [register, found]
  new := by
    intro unknown
    have absent : t.entries.find? (·.descriptor.reference == d.reference) = none :=
      find?_key_none fun ⟨e, member, same⟩ => unknown e member same
    refine ⟨_, _, choosePrefix_chosen t d, ?_⟩
    rw [register, absent]

/-- The numbers tried for the prefix of a document are taken, the last one by the document. -/
theorem chosen_tried (h : Chosen t d bound next) (tried : ∀ n < t.next, numbered n ∈ t.taken) :
    ∀ n < next, numbered n ∈ t.taken ∨ bound = some (numbered n) := by
  intro n small
  cases h with
  | none _ => exact .inl (tried n small)
  | own _ _ _ => exact .inl (tried n small)
  | @numbered last _ _ stops =>
    obtain ⟨_, _, passed⟩ := stops.least
    rcases Nat.lt_or_ge n t.next with old | new
    · exact .inl (tried n old)
    · rcases Nat.eq_or_lt_of_le (Nat.lt_succ_iff.mp small) with rfl | earlier
      · exact .inr rfl
      · exact .inl (passed n new earlier)

theorem registered_append (reserved : List String) (ds later : List Descriptor) :
    registered reserved (ds ++ later) =
      later.foldl (fun t d => (t.register d).2) (registered reserved ds) := List.foldl_append

theorem account_empty (reserved : List String) : Account reserved [] { reserved } where
  descriptors := rfl
  sound := sound_empty reserved
  tried := fun n small => absurd small (Nat.not_lt_zero n)
  reserved := rfl

/-- The entry of a document that has been registered before is there. -/
theorem Account.reference_mem (h : Account reserved ds t) (reference : String) :
    (∃ e ∈ t.entries, e.descriptor.reference = reference) ↔ reference ∈ ds.map (·.reference) := by
  rw [← mem_map_eraseDupsBy, ← h.descriptors, List.map_map, List.mem_map]
  rfl

theorem account_register (h : Account reserved ds t) (d : Descriptor) :
    Account reserved (ds ++ [d]) (t.register d).2 := by
  have sound := sound_registered h.sound (register_registered t d)
  have registers := register_registers h.sound.references d
  by_cases known : ∃ e ∈ t.entries, e.descriptor.reference = d.reference
  · obtain ⟨e, member, same⟩ := known
    have old := (h.reference_mem d.reference).mp ⟨e, member, same⟩
    rw [registers.again e member same]
    refine { h with descriptors := ?_ }
    rw [eraseDupsBy_snoc Descriptor.reference, if_pos old, List.append_nil]
    exact h.descriptors
  · have new := mt (h.reference_mem d.reference).mpr known
    obtain ⟨bound, next, chosen, made⟩ :=
      registers.new fun e member same => known ⟨e, member, same⟩
    rw [made] at sound ⊢
    refine ⟨?_, sound, fun n small => ?_, h.reserved⟩
    · rw [eraseDupsBy_snoc Descriptor.reference, if_neg new, List.map_append, h.descriptors]
      rfl
    · rw [taken, List.filterMap_append, ← List.append_assoc]
      refine (chosen_tried chosen h.tried n small).elim (List.mem_append_left _) fun own => ?_
      exact List.mem_append_right _ (by simp [own])

theorem account_registered (reserved : List String) (ds : List Descriptor) :
    Account reserved ds (registered reserved ds) := by
  induction ds using List.reverseRecOn with
  | nil => exact account_empty reserved
  | append_singleton ds d ih =>
    rw [registered_append]
    exact account_register ih d

/-- Every sequence of registrations leads to a table with one entry for each document, in the order
of their first registration. A document that is registered again finds its entry, and the prefix of
a new one is chosen by the rule; no entry changes later, and the search for a number always ends. -/
theorem registrations_account (reserved : List String) (ds : List Descriptor) :
    Account reserved ds (registered reserved ds) ∧
      (∀ d, Registers (registered reserved ds) d) ∧
      (∀ later, (registered reserved ds).entries <+: (registered reserved (ds ++ later)).entries) ∧
      ∀ start, ∃ stop, Stops numbered (registered reserved ds).taken start stop := by
  have account := account_registered reserved ds
  refine ⟨account, register_registers account.sound.references, fun later => ?_, fun start => ?_⟩
  · rw [registered_append]
    exact foldl_prefix (fun t d => registered_prefix (register_registered t d)) _ later
  · exact ⟨_, fresh_stops numbered_injective _ start⟩

end Table

end RdfXmlMapping.Import
