import Mathlib.Data.List.Perm.Subperm
import RdfXmlMapping.Proofs.ClassNames
import RdfXmlMapping.Proofs.Import.Table
import RdfXmlMapping.Schema.Generate

/-!
What is known while a schema grows. Whatever is referred to is declared already or waits to be, each
once; `Kept` says so, and every step of the generation preserves it. A reference stays good while
the schema grows, as nothing is ever forgotten.
-/

namespace RdfXmlMapping.Schema

open Xml (QName)

variable {m : Model} {x : Plan} {done : List Pending} {r s t u : Progress}

/-! ### Growth -/

/-- Nothing that one state knows is lost in the other. -/
structure Grows (s t : Progress) : Prop where
  names : t.names.names = s.names.names
  imports : s.imports.entries ⊆ t.imports.entries
  types : s.types ⊆ t.types
  groups : s.groups ⊆ t.groups
  placeholders : s.placeholders ⊆ t.placeholders
  languageText : s.usesLanguageText → t.usesLanguageText

theorem Grows.refl (s : Progress) : Grows s s :=
  ⟨rfl, List.Subset.refl _, List.Subset.refl _, List.Subset.refl _, List.Subset.refl _, id⟩

theorem Grows.trans (first : Grows s t) (second : Grows t u) : Grows s u where
  names := second.names.trans first.names
  imports := List.Subset.trans first.imports second.imports
  types := List.Subset.trans first.types second.types
  groups := List.Subset.trans first.groups second.groups
  placeholders := List.Subset.trans first.placeholders second.placeholders
  languageText := second.languageText ∘ first.languageText

theorem Grows.get (h : Grows s t) (c : Class) : t.names.get c = s.names.get c :=
  ClassNames.get_congr h.names c

/-! ### Requests -/

def Pending.Proper (m : Model) : Pending → Prop
  | .type c | .group c => m.Owns c
  | .placeholder _ => True

def Progress.Requested (s : Progress) : Pending → Prop
  | .type c => c.iri ∈ s.types
  | .group c => c.iri ∈ s.groups
  | .placeholder name => ∃ key, (key, name) ∈ s.placeholders

/-- Every declaration that has been asked for is done or pending, and no declaration is asked for
twice. -/
structure Queue (m : Model) (done : List Pending) (s : Progress) : Prop where
  proper : ∀ p ∈ done ++ s.pending, p.Proper m
  once : (done ++ s.pending).Nodup
  requested : ∀ p, p.Proper m → (s.Requested p ↔ p ∈ done ++ s.pending)

theorem Queue.push {p : Pending} (h : Queue m done s) (proper : p.Proper m)
    (new : ¬ s.Requested p) (pending : t.pending = s.pending ++ [p])
    (requested : ∀ q, q.Proper m → (t.Requested q ↔ s.Requested q ∨ q = p)) :
    Queue m done t := by
  have longer : done ++ t.pending = done ++ s.pending ++ [p] := by
    rw [pending, List.append_assoc]
  refine ⟨?_, ?_, fun q good => ?_⟩
  · rw [longer]
    intro q member
    rcases List.mem_append.mp member with old | last
    · exact h.proper q old
    · exact List.mem_singleton.mp last ▸ proper
  · rw [longer]
    refine List.Nodup.append h.once (List.nodup_singleton p) ?_
    intro q old last
    obtain rfl := List.mem_singleton.mp last
    exact new ((h.requested q proper).mpr old)
  · rw [longer, List.mem_append, List.mem_singleton, requested q good, h.requested q good]

theorem Queue.same (h : Queue m done s) (pending : t.pending = s.pending)
    (requested : ∀ q, t.Requested q ↔ s.Requested q) : Queue m done t where
  proper := pending ▸ h.proper
  once := pending ▸ h.once
  requested := fun q good => pending ▸ (requested q).trans (h.requested q good)

theorem Queue.pop {p : Pending} {rest : List Pending} (h : Queue m done s)
    (pending : s.pending = p :: rest) :
    Queue m (done ++ [p]) { s with pending := rest } := by
  have same : done ++ [p] ++ rest = done ++ s.pending := by simp [pending]
  exact ⟨same ▸ h.proper, same ▸ h.once, fun q good => same ▸ h.requested q good⟩

/-! ### Made-up types -/

def placeholderKey (plan : ChoicePlan) : String := " ".intercalate (plan.candidates.map (·.iri))

/-- The key of the made-up type of a property, if it has one. -/
def keyOf? (m : Model) (p : Property) : Option String :=
  match m.shapeOf p with
  | .ok (.choice plan) => if plan.isPlaceholder then some (placeholderKey plan) else none
  | _ => none

/-- A type made up for a choice, named after its candidates. -/
def MadeUp (m : Model) (name : String) : Prop :=
  ∃ p plan label n, m.Declares p ∧ m.shapeOf p = .ok (.choice plan) ∧
    plan.base = .placeholder label ∧ name = ClassNames.choice (toNCName label) n

/-- The keys and names of the types made up so far, whose names are among those that are taken. -/
structure Placeholders (m : Model) (taken : List String) (entries : List (String × String)) :
    Prop where
  keys : (entries.map (·.1)).Nodup
  made : ∀ e ∈ entries, (∃ p, m.Declares p ∧ keyOf? m p = some e.1) ∧ MadeUp m e.2 ∧
    e.2 ∈ taken ∧ e.2 ∉ (ClassNames.ofModel m).taken

theorem Placeholders.length_le {taken : List String} {entries : List (String × String)}
    (h : Placeholders m taken entries) : entries.length ≤ m.propertyCount := by
  let keys := (m.classes.flatMap (·.properties)).filterMap (keyOf? m)
  have inside : entries.map (·.1) ⊆ keys := by
    intro key member
    obtain ⟨e, present, rfl⟩ := List.mem_map.mp member
    obtain ⟨p, ⟨c, among, declared⟩, read⟩ := (h.made e present).1
    exact List.mem_filterMap.mpr ⟨p, List.mem_flatMap.mpr ⟨c, among, declared⟩, read⟩
  calc entries.length
    _ = (entries.map (·.1)).length := (List.length_map ..).symm
    _ ≤ keys.length := (List.subperm_of_subset h.keys inside).length_le
    _ ≤ m.propertyCount := List.length_filterMap_le ..

/-! ### The invariant -/

/-- What holds of a schema while it grows. -/
structure Kept (x : Plan) (done : List Pending) (s : Progress) : Prop where
  names : s.names.names = (ClassNames.ofModel x.model).names
  taken : (ClassNames.ofModel x.model).taken ⊆ s.names.taken
  imports : s.imports.Sound
  reserved : s.imports.reserved = reservedPrefixes x.target
  origins : ∀ e ∈ s.imports.entries, ∃ c, x.model.Knows c ∧
    x.outlook.resolve x.model c = .ok (some e.descriptor)
  queue : Queue x.model done s
  placeholders : Placeholders x.model s.names.taken s.placeholders

theorem Kept.get (h : Kept x done s) (c : Class) :
    s.names.get c = (ClassNames.ofModel x.model).get c := ClassNames.get_congr h.names c

/-- At most one type and one group are asked for of each class, and one made-up type for each
property. -/
theorem Kept.length_lt (h : Kept x done s) :
    (done ++ s.pending).length < Plan.declarationLimit x.model := by
  let all := x.model.classes.map Pending.type ++ x.model.classes.map Pending.group ++
    s.placeholders.map fun e => Pending.placeholder e.2
  have inside : done ++ s.pending ⊆ all := by
    intro p member
    have proper := h.queue.proper p member
    have requested := (h.queue.requested p proper).mpr member
    simp only [all, List.mem_append, List.mem_map]
    cases p with
    | type c => exact .inl (.inl ⟨c, Model.knows_mem proper.1, rfl⟩)
    | group c => exact .inl (.inr ⟨c, Model.knows_mem proper.1, rfl⟩)
    | placeholder name =>
      obtain ⟨key, present⟩ := requested
      exact .inr ⟨_, present, rfl⟩
  have few := (List.subperm_of_subset h.queue.once inside).length_le
  have made := h.placeholders.length_le
  simp only [all, List.length_append, List.length_map] at few
  rw [Plan.declarationLimit, List.length_append]
  omega

/-- A step that loses nothing and preserves the invariant. -/
structure Step (x : Plan) (s t : Progress) : Prop where
  grows : Grows s t
  kept : ∀ done, Kept x done s → Kept x done t

theorem Step.refl (x : Plan) (s : Progress) : Step x s s := ⟨.refl s, fun _ => id⟩

theorem Step.trans (first : Step x s t) (second : Step x t u) : Step x s u :=
  ⟨first.grows.trans second.grows, fun done => second.kept done ∘ first.kept done⟩

/-- What each of several steps ensures holds after all of them, if growth preserves it. -/
theorem runs_step {α β : Type} {f : α → Build β} {P : Progress → β → Prop}
    (mono : ∀ s t y, Grows s t → P s y → P t y) {xs : List α} {ys : List β}
    (runs : Runs f xs ys s t)
    (each : ∀ a ∈ xs, ∀ y s t, f a s = .ok (y, t) → Step x s t ∧ P t y) :
    Step x s t ∧ ∀ y ∈ ys, P t y := by
  obtain ⟨steps, holds⟩ := runs_grow (G := Step x) (P := fun s _ y => P s y) (Step.refl x)
    (fun _ _ _ => Step.trans) (fun _ _ _ y step => mono _ _ y step.grows) runs each
  refine ⟨steps, fun y member => ?_⟩
  obtain ⟨_, _, good⟩ := forall₂_mem_right holds member
  exact good

end RdfXmlMapping.Schema
