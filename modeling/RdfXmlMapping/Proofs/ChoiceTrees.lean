import Mathlib
import RdfXmlMapping.Lifting.Generate
import RdfXmlMapping.Lowering.Generate
import RdfXmlMapping.Proofs.Model.SpliceCircles
import RdfXmlMapping.Schema.Generate

/-!
Choices as trees. What a choice says of its candidates looks at one parent only, but no ancestry of
a model that documents are generated for goes in a circle, so that the parents lead from every
candidate to one that has none: the root, if the choice has one (`choice_is_tree`).
-/

namespace RdfXmlMapping

/-- The parent that a choice records for a candidate, if it derives from another one. -/
def ChoicePlan.parentOf? (plan : ChoicePlan) (c : Class) : Option Class :=
  (plan.derived.find? (·.cls.iri == c.iri)).map (·.parent)

/-- Where some steps lead from a candidate, each to the parent recorded for the one before. -/
def ChoicePlan.ascend (plan : ChoicePlan) : Nat → Class → Option Class
  | 0, c => some c
  | n + 1, c => (plan.parentOf? c).bind (plan.ascend n)

/-- The recorded parents lead from one candidate to another, by way of candidates alone. -/
def ChoicePlan.Reaches (plan : ChoicePlan) (c d : Class) : Prop :=
  ∃ n, plan.ascend n c = some d ∧ ∀ k ≤ n, ∃ e ∈ plan.candidates, plan.ascend k c = some e

variable {m : Model} {p : Property} {plan : ChoicePlan} {c d root : Class} {cs : List Class}

theorem ChoicePlan.Reaches.here (member : c ∈ plan.candidates) : plan.Reaches c c :=
  ⟨0, rfl, fun k none => ⟨c, member, by rw [Nat.le_zero.mp none]; rfl⟩⟩

theorem ChoicePlan.Reaches.up (member : c ∈ plan.candidates) (parent : plan.parentOf? c = some d)
    (h : plan.Reaches d root) : plan.Reaches c root := by
  obtain ⟨n, ends, inside⟩ := h
  have step (k : Nat) : plan.ascend (k + 1) c = plan.ascend k d := by
    rw [ascend, parent, Option.bind_some]
  refine ⟨n + 1, (step n).trans ends, fun k fewer => ?_⟩
  cases k with
  | zero => exact ⟨c, member, rfl⟩
  | succ k => exact step k ▸ inside k (Nat.le_of_succ_le_succ fewer)

namespace Model

theorem parent?_none (h : m.parent? c = .ok none) : c.parents = [] := by
  unfold parent? at h
  split at h
  next none => exact none
  · obtain ⟨_, _, same⟩ := except_map_ok h
    cases same
  · cases h

/-- A candidate that is not refused has no parent, or it has one among the candidates. -/
theorem parent_among (known : ∀ c ∈ cs, m.Knows c) (sound : ∀ e, ¬ m.Refuses p cs c e)
    (above : m.ParentOf c d) : c.parents = [d.iri] ∧ d ∈ cs := by
  have named := parent?_parents above
  refine ⟨named, ?_⟩
  rcases m.parents_cases p cs c with ⟨e, refused⟩ | none | ⟨d', member, one⟩
  · exact absurd refused (sound e)
  · rw [named] at none
    cases none
  · have same : d'.iri = d.iri := by simpa [named] using one.symm
    exact knows_eq (known d' member) (parent?_knows above) same ▸ member

theorem parentless_candidate (known : ∀ c ∈ cs, m.Knows c)
    (sound : ∀ c ∈ cs, ∀ e, ¬ m.Refuses p cs c e) (climbs : m.Climbs c) (member : c ∈ cs) :
    ∃ top ∈ cs, top.parents = [] := by
  induction climbs with
  | top none => exact ⟨_, member, parent?_none none⟩
  | up above _ ih => exact ih (parent_among known (sound _ member) above).2

/-- What the choice records for a candidate with a parent is that parent. -/
theorem parentOf?_derived (known : ∀ c ∈ plan.candidates, m.Knows c)
    (derived : List.Forall₂ (Derivation.Records plan.candidates) cs plan.derived)
    (part : cs ⊆ plan.candidates) (member : c ∈ cs) (parent : d ∈ plan.candidates)
    (named : c.parents = [d.iri]) : plan.parentOf? c = some d := by
  obtain ⟨r, present, records⟩ := forall₂_mem_left derived member
  cases found : plan.derived.find? (·.cls.iri == c.iri) with
  | none => exact absurd (by simp [records.cls]) (List.find?_eq_none.mp found r present)
  | some r' =>
    obtain ⟨c', among, records'⟩ := forall₂_mem_right derived (List.mem_of_find?_eq_some found)
    have same : r'.cls.iri = c.iri := beq_iff_eq.mp (List.find?_some found :)
    rw [records'.cls] at same
    obtain rfl := knows_eq (known c' (part among)) (known c (part member)) same
    have parents : r'.parent.iri = d.iri := by simpa [records'.named] using named
    rw [ChoicePlan.parentOf?, found, Option.map_some,
      knows_eq (known _ records'.parent) (known d parent) parents]

theorem parentOf?_root (known : ∀ c ∈ plan.candidates, m.Knows c)
    (distinct : plan.candidates.Nodup) (member : root ∈ plan.candidates)
    (derived : List.Forall₂ (Derivation.Records plan.candidates) (plan.candidates.erase root)
      plan.derived) : plan.parentOf? root = none := by
  rw [ChoicePlan.parentOf?, Option.map_eq_none_iff, List.find?_eq_none]
  intro r present same
  obtain ⟨c, among, records⟩ := forall₂_mem_right derived present
  obtain ⟨other, inside⟩ := distinct.mem_erase_iff.mp among
  rw [records.cls] at same
  exact other (knows_eq (known c inside) (known root member) (beq_iff_eq.mp same))

theorem reaches_root (known : ∀ c ∈ plan.candidates, m.Knows c)
    (sound : ∀ c ∈ plan.candidates, ∀ e, ¬ m.Refuses p plan.candidates c e)
    (alone : plan.candidates.filter (·.parents.isEmpty) = [root])
    (derived : List.Forall₂ (Derivation.Records plan.candidates) (plan.candidates.erase root)
      plan.derived) (climbs : m.Climbs c) (member : c ∈ plan.candidates) : plan.Reaches c root := by
  induction climbs with
  | @top c none =>
    have top : c ∈ plan.candidates.filter (·.parents.isEmpty) :=
      List.mem_filter.mpr ⟨member, by simp [parent?_none none]⟩
    rw [alone] at top
    exact List.mem_singleton.mp top ▸ .here member
  | @up c d above _ ih =>
    obtain ⟨named, parent⟩ := parent_among known (sound c member) above
    have other : c ≠ root := by
      rintro rfl
      have top := (List.mem_filter.mp (alone ▸ List.mem_singleton_self c :
        c ∈ plan.candidates.filter (·.parents.isEmpty))).2
      simp [named] at top
    have among := (List.mem_erase_of_ne other).mpr member
    exact .up member (parentOf?_derived known derived List.erase_subset among parent named)
      (ih parent)

/-- Documents are generated only for a model whose spliced properties have passed their check, and
of such a model every choice has a candidate without a parent; if it has a root, that is one, and
from each derived candidate the recorded parents lead to it, by way of candidates. -/
theorem choice_is_tree (m : Model) :
    (∀ s : Source, s.model = m → ∀ e, m.checkSplicing = .error e → Schema.generate s = .error e ∧
      Lifting.generate s = .error e ∧ Lowering.generate s = .error e) ∧
    (m.checkSplicing = .ok () → ∀ p plan, m.shapeOf p = .ok (.choice plan) →
      (∃ c ∈ plan.candidates, c.parents = []) ∧
      ∀ root derived, plan.base = .rooted root derived →
        root.parents = [] ∧ plan.parentOf? root = none ∧
        ∀ d ∈ derived, plan.Reaches d.cls root) := by
  refine ⟨?_, fun checked p plan h => ?_⟩
  · rintro s rfl e refused
    refine ⟨?_, ?_, ?_⟩
    · rw [Schema.generate, refused]
      rfl
    · rw [Lifting.generate, refused]
      rfl
    · rw [Lowering.generate, refused]
      rfl
  cases (m.shapeOf_iff p _).mp h with
  | choice _ same several sound based =>
    have known : ∀ c ∈ plan.candidates, m.Knows c := same ▸ namedClasses_knows
    have climbs (c : Class) (member : c ∈ plan.candidates) : m.Climbs c :=
      checkSplicing_climbs checked (known c member)
    obtain ⟨first, member⟩ := List.exists_mem_of_length_pos (Nat.lt_of_lt_of_le Nat.two_pos several)
    refine ⟨parentless_candidate known sound (climbs first member) member, ?_⟩
    rintro root derived base
    cases based with
    | placeholder _ base' => cases base.symm.trans base'
    | rooted root' alone base' derives =>
      obtain ⟨rfl, rfl⟩ := ChoiceBase.rooted.inj (base.symm.trans base')
      obtain ⟨among, top⟩ := List.mem_filter.mp (alone ▸ List.mem_singleton_self root :
        root ∈ plan.candidates.filter (·.parents.isEmpty))
      have distinct : plan.candidates.Nodup := same ▸ eraseDups_nodup _
      refine ⟨List.isEmpty_iff.mp top, parentOf?_root known distinct among derives, ?_⟩
      intro d present
      obtain ⟨c, inside, records⟩ := forall₂_mem_right derives present
      have candidate := List.mem_of_mem_erase inside
      exact records.cls ▸ reaches_root known sound alone derives (climbs c candidate) candidate

def vessel : Class := Class.make "Vessel" "Vessel"

def craft : Class := (Class.make "Craft" "Craft").extending "Vessel"

def tug : Class := (Class.make "Tug" "Tug").extending "Craft"

def moored : Property :=
  (Property.make "moored" "https://ex.org/moored").association "Tug"
    |>.association "Craft" |>.association "Vessel"

/-- What lies at a quay, the most special sort first. -/
def moorings : Model :=
  (Model.make "moorings" "port").declaring ((Class.make "Quay" "Quay").declaring moored)
    |>.declaring vessel |>.declaring craft |>.declaring tug

def berth : ChoicePlan where
  candidates := [tug, craft, vessel]
  base := .rooted vessel [⟨tug, craft⟩, ⟨craft, vessel⟩]

theorem choice_is_tree_moorings : moorings.checkSplicing = .ok () ∧
    moorings.shapeOf moored = .ok (.choice berth) ∧ (∃ c ∈ berth.candidates, c.parents = []) ∧
    berth.Reaches tug vessel ∧ berth.ascend 2 tug = some vessel := by
  have accepted : moorings.checkSplicing = .ok () := by cbv
  have found : moorings.shapeOf moored = .ok (.choice berth) := rfl
  obtain ⟨top, tree⟩ := (choice_is_tree moorings).2 accepted moored berth found
  obtain ⟨_, _, leads⟩ := tree vessel berth.derived rfl
  exact ⟨accepted, found, top, leads ⟨tug, craft⟩ (by simp [berth, ChoicePlan.derived]), by decide⟩

end Model

end RdfXmlMapping
