import Mathlib
import RdfXmlMapping.Model.Build
import RdfXmlMapping.Proofs.Model.Circles

/-!
What the search for circles decides: it finds none exactly if all classes that the roots lead to can
be resolved and none of them leads to itself, and a class that it names leads to itself
(`checkAcyclic_exact`). On how many ways a class is reached does not matter.
-/

namespace RdfXmlMapping.Model

open Relation (ReflTransGen TransGen)

variable {m : Model} {c d e : Class} {p : Property} {path done : List String} {iri : String}

/-- `d` is named as a parent of `c`, or its instances are among the values that some property of `c`
asks for. -/
def Edge (m : Model) (c d : Class) : Prop :=
  (∃ iri ∈ c.parents, m.find? iri = some d) ∨ ∃ p ∈ c.properties, m.Associates p d

/-- Some candidate of the roots leads to the class. -/
def Encountered (m : Model) (c : Class) : Prop := ∃ r, m.Entry r ∧ ReflTransGen m.Edge r c

/-- At most one parent is named, and it is a class of the model; all properties can be described. -/
structure Resolved (m : Model) (c : Class) : Prop where
  single : c.parents.length ≤ 1
  parent : ∀ iri ∈ c.parents, ∃ d, m.find? iri = some d
  shapes : ∀ p ∈ c.properties, ∃ shape, m.shapeOf p = .ok shape

/-! ### Edges and steps -/

theorem parent?_succeeds_iff : (∃ parent, m.parent? c = .ok parent) ↔
    c.parents.length ≤ 1 ∧ ∀ iri ∈ c.parents, ∃ d, m.find? iri = some d := by
  unfold parent?
  split
  next none => simp [none]
  next iri one =>
    unfold lookUp
    cases found : m.find? iri with
    | none => simp [one, found]
    | some d => simp [one, found]
  next no_parent several =>
    match named : c.parents with
    | [] => exact absurd named no_parent
    | [iri] => exact absurd named (several iri)
    | _ :: _ :: _ => simp

theorem successors_succeeds_iff : (∃ next, m.successors c = .ok next) ↔ m.Resolved c := by
  constructor
  · rintro ⟨next, found⟩
    obtain ⟨parent, _, above, _, _, shaped⟩ := successors_ok found
    obtain ⟨single, known⟩ := parent?_succeeds_iff.mp ⟨parent, above⟩
    exact ⟨single, known, shaped⟩
  · intro h
    obtain ⟨parent, above⟩ := parent?_succeeds_iff.mpr ⟨h.single, h.parent⟩
    obtain ⟨shapes, read⟩ := except_mapM_succeeds h.shapes
    refine ⟨parent.toList ++ shapes.flatMap Shape.targets, ?_⟩
    rw [successors, above]
    change (c.properties.mapM m.shapeOf >>= _) = _
    rw [read]
    rfl

theorem LeadsTo.edge (h : m.LeadsTo c d) : m.Edge c d := by
  rcases h with parent | ⟨p, declared, shape, read, target⟩
  · exact .inl ⟨d.iri, by simp [parent?_parents parent], parent?_knows parent⟩
  · exact .inr ⟨p, declared, (mem_targets read).mp target⟩

theorem Taken.edge (h : m.Taken c d) : m.Edge c d := h.leads.edge

theorem Resolved.leads (h : m.Resolved c) (edge : m.Edge c d) : m.LeadsTo c d := by
  rcases edge with ⟨iri, named, found⟩ | ⟨p, declared, associates⟩
  · left
    obtain ⟨parent, above⟩ := parent?_succeeds_iff.mpr ⟨h.single, h.parent⟩
    match only : c.parents, h.single with
    | [], _ => simp [only] at named
    | [_], _ =>
      obtain rfl : iri = _ := by simpa [only] using named
      simp [ParentOf, parent?, only, lookUp, found]
  · right
    obtain ⟨shape, read⟩ := h.shapes p declared
    exact ⟨p, declared, shape, read, (mem_targets read).mpr associates⟩

theorem Edge.knows (h : m.Edge c d) : m.Knows d := by
  rcases h with ⟨iri, _, found⟩ | ⟨_, _, iri, _, found, _⟩ <;> exact (find?_knows found).1

/-! ### What has been walked through -/

theorem Walked.resolved (h : m.Walked c) : m.Resolved c := by
  cases h with
  | intro found _ => exact successors_succeeds_iff.mp ⟨_, found⟩

theorem Walked.along (h : m.Walked c) (steps : ReflTransGen m.Edge c d) : m.Walked d := by
  induction steps with
  | refl => exact h
  | tail _ last ih => exact ih.leads (ih.resolved.leads last)

theorem Walked.no_circle (h : m.Walked c) : ¬ TransGen m.Edge c c := by
  have leads : ∀ {d}, TransGen m.Edge c d → TransGen m.LeadsTo c d := by
    intro d steps
    induction steps with
    | single first => exact .single (h.resolved.leads first)
    | tail steps last ih => exact ih.tail ((h.along steps.to_reflTransGen).resolved.leads last)
  exact fun circle => h.irrefl (leads circle)

/-! ### What can be walked through -/

/-- All that a class leads to can be resolved, and nothing of it leads to itself. -/
def Orderly (m : Model) (c : Class) : Prop :=
  ∀ d, ReflTransGen m.Edge c d → m.Resolved d ∧ ¬ TransGen m.Edge d d

theorem Orderly.step (h : m.Orderly c) (edge : m.Edge c d) : m.Orderly d :=
  fun e steps => h e (.head edge steps)

/-- The walk ends: were it to meet a class on its path again, that class would lead to itself. -/
theorem walk_succeeds (path : List String) : ∀ done c, m.Knows c → m.Orderly c →
    (∀ iri ∈ path, ∃ e, m.Knows e ∧ e.iri = iri ∧ TransGen m.Edge e c) →
      ∃ done', m.walk path done c = .ok done' := by
  induction path using walk_induction m with
  | step path ih =>
    intro done c known orderly trail
    obtain ⟨resolved, no_circle⟩ := orderly c .refl
    rw [walk_eq]
    split
    · exact ⟨done, rfl⟩
    · have new : c.iri ∉ path := by
        intro old
        obtain ⟨e, known', same, steps⟩ := trail c.iri old
        obtain rfl := knows_eq known' known same
        exact no_circle steps
      have way := canEnter_of_knows known new
      obtain ⟨next, found⟩ := successors_succeeds_iff.mpr resolved
      have onward : ∀ d ∈ next, ∀ done, ∃ done', m.walk (c.iri :: path) done d = .ok done' := by
        intro d member done
        have edge := ((mem_successors found).mp member).edge
        refine ih c.iri way done d edge.knows (orderly.step edge) fun iri among => ?_
        rcases List.mem_cons.mp among with rfl | earlier
        · exact ⟨c, known, rfl, .single edge⟩
        · obtain ⟨e, known', same, steps⟩ := trail iri earlier
          exact ⟨e, known', same, steps.tail edge⟩
      obtain ⟨done', fold⟩ := except_foldlM_succeeds onward done
      refine ⟨c.iri :: done', ?_⟩
      rw [if_pos way, found]
      change (next.foldlM (m.walk (c.iri :: path)) done >>= _) = _
      rw [fold]
      rfl

theorem checkAcyclic_succeeds (rooted : ∀ iri ∈ m.rootCandidates, ∃ c, m.find? iri = some c)
    (orderly : ∀ r, m.Entry r → m.Orderly r) : m.checkAcyclic = .ok () := by
  have each : ∀ iri ∈ m.rootCandidates, ∀ done, ∃ done', m.walkRoot done iri = .ok done' := by
    intro iri member done
    obtain ⟨r, found⟩ := rooted iri member
    obtain ⟨known, _⟩ := find?_knows found
    obtain ⟨done', walked⟩ := walk_succeeds [] done r known (orderly r ⟨iri, member, found⟩)
      fun _ nowhere => by cases nowhere
    refine ⟨done', ?_⟩
    rw [walkRoot, lookUp, found]
    exact walked
  obtain ⟨done, fold⟩ := except_foldlM_succeeds each []
  rw [checkAcyclic_eq, fold]
  rfl

/-- The search for circles succeeds exactly if the roots are classes of the model and all classes
that they lead to can be resolved and do not lead to themselves. A class that it refuses leads to
itself. -/
theorem checkAcyclic_exact (m : Model) :
    (m.checkAcyclic = .ok () ↔ (∀ iri ∈ m.rootCandidates, ∃ c, m.find? iri = some c) ∧
      ∀ c, m.Encountered c → m.Resolved c ∧ ¬ TransGen m.Edge c c) ∧
    ∀ iri, m.checkAcyclic = .error (.recursiveModel iri) →
      ∃ c, m.find? iri = some c ∧ m.Encountered c ∧ TransGen m.Edge c c := by
  refine ⟨⟨fun h => ⟨fun iri member => ?_, ?_⟩, fun ⟨rooted, each⟩ => ?_⟩, fun iri h => ?_⟩
  · obtain ⟨c, found, _⟩ := checkAcyclic_walked h iri member
    exact ⟨c, found⟩
  · rintro c ⟨r, ⟨iri, member, found⟩, steps⟩
    obtain ⟨r', found', walked⟩ := checkAcyclic_walked h iri member
    obtain rfl := Option.some.inj (found.symm.trans found')
    have there := walked.along steps
    exact ⟨there.resolved, there.no_circle⟩
  · exact checkAcyclic_succeeds rooted fun r entry c steps => each c ⟨r, entry, steps⟩
  · obtain ⟨r, c, entry, rfl, steps, circle⟩ := checkAcyclic_circle h
    have edges : m.Taken ≤ m.Edge := fun _ _ step => step.edge
    obtain ⟨_, _, last⟩ := TransGen.tail'_iff.mp circle
    exact ⟨c, last.edge.knows, ⟨r, entry, ReflTransGen.mono edges r c steps⟩,
      TransGen.mono edges c c circle⟩

/-- An order whose buyer and seller both have an address, so that two ways lead to the addresses. -/
def deliveries : Model :=
  (Model.make "deliveries" "trade").rootedAt ["Order"]
    |>.declaring ((Class.make "Order" "Order")
      |>.declaring ((Property.make "buyer" "https://ex.org/buyer").association "Person")
      |>.declaring ((Property.make "seller" "https://ex.org/seller").association "Shop"))
    |>.declaring ((Class.make "Person" "Person")
      |>.declaring ((Property.make "home" "https://ex.org/home").association "Address"))
    |>.declaring ((Class.make "Shop" "Shop")
      |>.declaring ((Property.make "site" "https://ex.org/site").association "Address"))
    |>.declaring (Class.make "Address" "Address")

/-- Guests who may bring other guests. -/
def guests : Model :=
  (Model.make "guests" "hotel").rootedAt ["Booking"]
    |>.declaring ((Class.make "Booking" "Booking")
      |>.declaring ((Property.make "guest" "https://ex.org/guest").association "Guest"))
    |>.declaring ((Class.make "Guest" "Guest")
      |>.declaring ((Property.make "brings" "https://ex.org/brings").association "Guest"))

theorem checkAcyclic_exact_deliveries : deliveries.checkAcyclic = .ok () ∧
    (∀ c, deliveries.Encountered c → deliveries.Resolved c ∧ ¬ TransGen deliveries.Edge c c) ∧
    guests.checkAcyclic = .error (.recursiveModel "Guest") ∧
    ∃ c, guests.find? "Guest" = some c ∧ guests.Encountered c ∧ TransGen guests.Edge c c := by
  have accepted : deliveries.checkAcyclic = .ok () := by cbv
  have refused : guests.checkAcyclic = .error (.recursiveModel "Guest") := by cbv
  exact ⟨accepted, ((checkAcyclic_exact deliveries).1.mp accepted).2, refused,
    (checkAcyclic_exact guests).2 "Guest" refused⟩

end RdfXmlMapping.Model
