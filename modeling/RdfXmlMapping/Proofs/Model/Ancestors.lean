import Mathlib
import RdfXmlMapping.Model.Build
import RdfXmlMapping.Proofs.Model.Acyclic
import RdfXmlMapping.Proofs.Unbounded

/-!
What the collection of ancestors decides, for any class: it ends, it gives the classes up to one
without parents, and what it refuses is what stands in the way up (`ancestors_exact`). A circle is
reported under the class where the collection started, whichever class it is that comes again.
-/

namespace RdfXmlMapping.Model

open Relation (ReflTransGen TransGen)

variable {m : Model} {c d e : Class} {chain : List Class} {seen : List String} {start : String}
  {error : GenerationError}

/-- `d` is the only parent that `c` names. -/
structure Extends (m : Model) (c d : Class) : Prop where
  only : c.parents = [d.iri]
  found : m.find? d.iri = some d

/-- Following parents from `c` one passes the classes of the chain, and comes to `e`. -/
inductive Ascends (m : Model) : Class → List Class → Class → Prop
  | here {c : Class} : Ascends m c [] c
  | up {c d e : Class} {chain : List Class} :
      m.Extends c d → Ascends m d chain e → Ascends m c (d :: chain) e

/-- Following parents from `c` one passes the classes of the chain, the last of which has none. -/
def Lineage (m : Model) (c : Class) (chain : List Class) : Prop :=
  ∃ top, m.Ascends c chain top ∧ top.parents = []

/-- No two of the classes have one identity. -/
def Apart (classes : List Class) : Prop := (classes.map (·.iri)).Nodup

instance (classes : List Class) : Decidable (Apart classes) :=
  inferInstanceAs (Decidable (classes.map (·.iri)).Nodup)

/-- Why the way up from `start` does not go on at `e`, where the identities in `met` are those of
the classes passed. -/
inductive Blocked (m : Model) (start : String) (met : List String) (e : Class) :
    GenerationError → Prop
  | several : 1 < e.parents.length → Blocked m start met e (.multipleInheritance e.iri)
  | unknown {iri : String} : e.parents = [iri] → m.find? iri = none →
      Blocked m start met e (.unknownClass iri e.iri)
  | again {d : Class} : m.Extends e d → d.iri ∈ met →
      Blocked m start met e (.inheritanceCycle start)

/-- `d` is the first class on the way up from `c` whose identity comes again. -/
def Recurs (m : Model) (c d : Class) : Prop :=
  ∃ chain e, m.Ascends c chain e ∧ Apart (c :: chain) ∧ m.Extends e d ∧
    d.iri ∈ (c :: chain).map (·.iri)

theorem Blocked.mono {met met' : List String} (h : m.Blocked start met e error)
    (more : ∀ iri ∈ met, iri ∈ met') : m.Blocked start met' e error := by
  cases h with
  | several several => exact .several several
  | unknown only missing => exact .unknown only missing
  | again parent old => exact .again parent (more _ old)

/-- Following parents from `c`, one step or more, one comes to its identity. -/
def OwnAncestor (m : Model) (c : Class) : Prop := ∃ d, TransGen m.Extends c d ∧ d.iri = c.iri

variable (m) in
/-- The collection of ancestors with nothing that bounds it: it only asks whether a class has been
passed. -/
def climb (start : String) (seen : List String) (c : Class) :
    ExceptT GenerationError Option (List Class) := do
  let again : String → List String → Class → ExceptT GenerationError Option (List Class) := by
    apply climb
  match ← settled (m.parent? c) with
  | none => return []
  | some p =>
    if seen.contains p.iri then throw (.inheritanceCycle start)
    else return p :: (← again start (p.iri :: seen) p)
partial_fixpoint

/-! ### One step up -/

theorem extends_iff : m.Extends c d ↔ m.ParentOf c d :=
  ⟨fun ⟨only, found⟩ => by simp [ParentOf, parent?, only, lookUp, found],
    fun parent => ⟨parent?_parents parent, parent?_knows parent⟩⟩

theorem Extends.unique (left : m.Extends c d) (right : m.Extends c e) : d = e :=
  (extends_iff.mp left).unique (extends_iff.mp right)

theorem parent?_several (several : 1 < c.parents.length) :
    m.parent? c = .error (.multipleInheritance c.iri) := by
  match named : c.parents, several with
  | _ :: _ :: _, _ => simp [parent?, named]

theorem parent?_unknown {iri : String} (only : c.parents = [iri]) (missing : m.find? iri = none) :
    m.parent? c = .error (.unknownClass iri c.iri) := by
  simp [parent?, only, lookUp, missing]

/-- At each class the way up ends, goes on, or cannot be told. -/
theorem extends_cases (m : Model) (c : Class) :
    c.parents = [] ∨ (∃ d, m.Extends c d) ∨ 1 < c.parents.length ∨
      ∃ iri, c.parents = [iri] ∧ m.find? iri = none := by
  match named : c.parents with
  | [] => exact .inl rfl
  | [iri] =>
    cases found : m.find? iri with
    | none => exact .inr (.inr (.inr ⟨iri, rfl, found⟩))
    | some d =>
      obtain rfl := (find?_knows found).2
      exact .inr (.inl ⟨d, named, found⟩)
  | _ :: _ :: _ => exact .inr (.inr (.inl (by simp)))

theorem ancestorsAbove_top (top : c.parents = []) : m.ancestorsAbove start seen c = .ok [] := by
  rw [ancestorsAbove, parent?, top]
  rfl

theorem ancestorsAbove_blocked (blocked : m.Blocked start seen c error) :
    m.ancestorsAbove start seen c = .error error := by
  rw [ancestorsAbove]
  cases blocked with
  | several several => rw [parent?_several several]; rfl
  | unknown only missing => rw [parent?_unknown only missing]; rfl
  | @again d parent old =>
    rw [show m.parent? c = .ok (some d) from extends_iff.mp parent]
    exact dif_neg fun way => by simp [canEnter, old] at way

theorem ancestorsAbove_up (parent : m.Extends c d) (new : d.iri ∉ seen) :
    m.ancestorsAbove start seen c = (d :: ·) <$> m.ancestorsAbove start (d.iri :: seen) d := by
  rw [ancestorsAbove, show m.parent? c = .ok (some d) from extends_iff.mp parent]
  refine (dif_pos (canEnter_of_knows parent.found new)).trans ?_
  cases m.ancestorsAbove start (d.iri :: seen) d <;> rfl

/-! ### The whole way -/

/-- Up to where the way up does not go on, or comes to a class again, the collection follows it. -/
theorem Ascends.ancestorsAbove (trail : m.Ascends c chain e) :
    ∀ seen, (chain.map (·.iri) ++ seen).Nodup → m.ancestorsAbove start seen c =
      (chain ++ ·) <$> m.ancestorsAbove start ((chain.map (·.iri)).reverse ++ seen) e := by
  induction trail with
  | @here c =>
    intro seen _
    exact (id_map (m.ancestorsAbove start seen c)).symm
  | @up c d e chain parent _ ih =>
    intro seen apart
    have apart' : (chain.map (·.iri) ++ d.iri :: seen).Nodup :=
      List.perm_middle.nodup_iff.mpr apart
    have new : d.iri ∉ seen := (List.nodup_cons.mp (List.nodup_append.mp apart').2.1).1
    rw [ancestorsAbove_up parent new, ih (d.iri :: seen) apart', List.map_cons,
      List.reverse_cons, List.append_assoc, Functor.map_map]
    rfl

/-- Every way up comes to a class without parents, or is blocked. -/
theorem trail_ends (m : Model) (start : String) (seen : List String) : ∀ c, seen.Nodup →
    ∃ chain e, m.Ascends c chain e ∧ (chain.map (·.iri) ++ seen).Nodup ∧
      (e.parents = [] ∨ ∃ error, m.Blocked start (chain.map (·.iri) ++ seen) e error) := by
  induction seen using walk_induction m with
  | step seen ih =>
    intro c distinct
    obtain top | ⟨d, parent⟩ | several | ⟨iri, only, missing⟩ := extends_cases m c
    · exact ⟨[], c, .here, distinct, .inl top⟩
    · by_cases old : d.iri ∈ seen
      · exact ⟨[], c, .here, distinct, .inr ⟨_, .again parent old⟩⟩
      · obtain ⟨chain, e, trail, apart, last⟩ := ih d.iri (canEnter_of_knows parent.found old) d
          (List.nodup_cons.mpr ⟨old, distinct⟩)
        have same : (chain.map (·.iri) ++ d.iri :: seen).Perm ((d :: chain).map (·.iri) ++ seen) :=
          List.perm_middle
        refine ⟨d :: chain, e, .up parent trail, same.nodup_iff.mp apart, last.imp_right ?_⟩
        rintro ⟨error, blocked⟩
        exact ⟨error, blocked.mono fun iri => same.mem_iff.mp⟩
    · exact ⟨[], c, .here, distinct, .inr ⟨_, .several several⟩⟩
    · exact ⟨[], c, .here, distinct, .inr ⟨_, .unknown only missing⟩⟩

theorem apart_start : Apart (c :: chain) ↔ (chain.map (·.iri) ++ [c.iri]).Nodup := by
  rw [Apart, List.map_cons]
  exact (List.perm_append_singleton _ _).nodup_iff.symm

theorem ancestors_ok (trail : m.Ascends c chain e) (apart : Apart (c :: chain))
    (top : e.parents = []) : m.ancestors c = .ok chain := by
  rw [ancestors, trail.ancestorsAbove _ (apart_start.mp apart), ancestorsAbove_top top]
  exact congrArg Except.ok (List.append_nil chain)

theorem ancestors_blocked (trail : m.Ascends c chain e) (apart : Apart (c :: chain))
    (blocked : m.Blocked c.iri ((c :: chain).map (·.iri)) e error) :
    m.ancestors c = .error error := by
  have met : m.Blocked c.iri ((chain.map (·.iri)).reverse ++ [c.iri]) e error :=
    blocked.mono fun iri member => by simpa [or_comm] using member
  rw [ancestors, trail.ancestorsAbove _ (apart_start.mp apart), ancestorsAbove_blocked met]
  rfl

theorem ancestors_cases (m : Model) (c : Class) :
    ∃ chain e, m.Ascends c chain e ∧ Apart (c :: chain) ∧
      (e.parents = [] ∨ ∃ error, m.Blocked c.iri ((c :: chain).map (·.iri)) e error) := by
  obtain ⟨chain, e, trail, apart, last⟩ := trail_ends m c.iri [c.iri] c (List.nodup_singleton _)
  refine ⟨chain, e, trail, apart_start.mpr apart, last.imp_right ?_⟩
  rintro ⟨error, blocked⟩
  exact ⟨error, blocked.mono fun iri member => by simpa [or_comm] using member⟩

theorem ancestors_ok_iff :
    m.ancestors c = .ok chain ↔ m.Lineage c chain ∧ Apart (c :: chain) := by
  constructor
  · intro collected
    obtain ⟨chain', e, trail, apart, top | ⟨error, blocked⟩⟩ := ancestors_cases m c
    · obtain rfl := Except.ok.inj ((ancestors_ok trail apart top).symm.trans collected)
      exact ⟨⟨e, trail, top⟩, apart⟩
    · cases (ancestors_blocked trail apart blocked).symm.trans collected
  · rintro ⟨⟨top, trail, last⟩, apart⟩
    exact ancestors_ok trail apart last

theorem ancestors_error_iff : m.ancestors c = .error error ↔
    ∃ chain e, m.Ascends c chain e ∧ Apart (c :: chain) ∧
      m.Blocked c.iri ((c :: chain).map (·.iri)) e error := by
  constructor
  · intro refused
    obtain ⟨chain, e, trail, apart, top | ⟨error', blocked⟩⟩ := ancestors_cases m c
    · cases (ancestors_ok trail apart top).symm.trans refused
    · obtain rfl := Except.error.inj ((ancestors_blocked trail apart blocked).symm.trans refused)
      exact ⟨chain, e, trail, apart, blocked⟩
  · rintro ⟨chain, e, trail, apart, blocked⟩
    exact ancestors_blocked trail apart blocked

theorem ancestors_cycle_iff {iri : String} :
    m.ancestors c = .error (.inheritanceCycle iri) ↔ iri = c.iri ∧ ∃ d, m.Recurs c d := by
  rw [ancestors_error_iff]
  constructor
  · rintro ⟨chain, e, trail, apart, blocked⟩
    cases blocked with
    | @again d parent old => exact ⟨rfl, d, chain, e, trail, apart, parent, old⟩
  · rintro ⟨rfl, d, chain, e, trail, apart, parent, old⟩
    exact ⟨chain, e, trail, apart, .again parent old⟩

theorem climb_settled (seen : List String) : ∀ c,
    climb m start seen c = settled (m.ancestorsAbove start seen c) := by
  induction seen using walk_induction m with
  | step seen ih =>
    intro c
    rw [climb, ancestorsAbove]
    apply settled_bind_of
    intro parent read
    cases parent with
    | none => rfl
    | some d =>
      have known := parent?_knows read
      dsimp only
      by_cases old : d.iri ∈ seen
      · rw [if_pos (by simpa using old), dif_neg fun way => by simp [canEnter, old] at way]
        rfl
      · have way := canEnter_of_knows known old
        rw [if_neg (by simpa using old), dif_pos way, ih d.iri way d]
        exact settled_bind_of fun _ _ => rfl

/-! ### Circles -/

theorem Ascends.steps (trail : m.Ascends c chain e) : ReflTransGen m.Extends c e := by
  induction trail with
  | here => exact .refl
  | up parent _ ih => exact .head parent ih

theorem Ascends.knows (trail : m.Ascends c chain e) : ∀ d ∈ chain, m.Knows d := by
  induction trail with
  | here => nofun
  | up parent _ ih => exact List.forall_mem_cons.mpr ⟨parent.found, ih⟩

/-- What a class of the trail extends is on the trail as well, but for what its end extends. -/
theorem Ascends.parent_mem (trail : m.Ascends c chain e) {a b : Class} (member : a ∈ c :: chain)
    (parent : m.Extends a b) : b ∈ chain ∨ a = e ∧ m.Extends e b := by
  induction trail with
  | here =>
    obtain rfl := List.mem_singleton.mp member
    exact .inr ⟨rfl, parent⟩
  | up above _ ih =>
    rcases List.mem_cons.mp member with rfl | later
    · exact .inl (above.unique parent ▸ List.mem_cons_self ..)
    · exact (ih later).imp_left (List.mem_cons_of_mem _)

theorem Ascends.to_mem (trail : m.Ascends c chain e) (member : d ∈ chain) :
    TransGen m.Extends c d ∧ ReflTransGen m.Extends d e := by
  induction trail with
  | here => cases member
  | up parent rest ih =>
    rcases List.mem_cons.mp member with rfl | later
    · exact ⟨.single parent, rest.steps⟩
    · exact ⟨.head parent (ih later).1, (ih later).2⟩

/-- A class is its own ancestor exactly if it is the first that comes again. -/
theorem Recurs.ownAncestor_iff (h : m.Recurs c d) : m.OwnAncestor c ↔ d.iri = c.iri := by
  obtain ⟨chain, e, trail, apart, parent, old⟩ := h
  constructor
  · rintro ⟨a, steps, back⟩
    by_contra other
    have among : d ∈ chain := by
      obtain ⟨b, member, same⟩ := List.mem_map.mp old
      rcases List.mem_cons.mp member with rfl | later
      · exact absurd same.symm other
      · exact knows_eq (trail.knows b later) parent.found same ▸ later
    have closed : ∀ b, TransGen m.Extends c b → b ∈ chain := by
      intro b steps
      induction steps with
      | single first =>
        rcases trail.parent_mem (List.mem_cons_self ..) first with there | ⟨rfl, _⟩
        · exact there
        · exact first.unique parent ▸ among
      | tail _ last ih =>
        rcases trail.parent_mem (List.mem_cons_of_mem _ ih) last with there | ⟨rfl, _⟩
        · exact there
        · exact last.unique parent ▸ among
    have first : c.iri ∉ chain.map (·.iri) := (List.nodup_cons.mp apart).1
    exact first (List.mem_map.mpr ⟨a, closed a steps, back⟩)
  · intro same
    exact ⟨d, .tail' trail.steps parent, same⟩

/-- Whichever class it is that comes first again is its own ancestor. -/
theorem Recurs.circle (h : m.Recurs c d) (known : m.Knows c) : TransGen m.Extends d d := by
  obtain ⟨chain, e, trail, _, parent, old⟩ := h
  obtain ⟨b, member, same⟩ := List.mem_map.mp old
  rcases List.mem_cons.mp member with rfl | later
  · obtain rfl := knows_eq known parent.found same
    exact .tail' trail.steps parent
  · obtain rfl := knows_eq (trail.knows b later) parent.found same
    exact .tail' (trail.to_mem later).2 parent

theorem extends_eq (m : Model) : m.Extends = m.ParentOf := by
  funext c d
  exact propext extends_iff

/-- On the way from a class of the model to one without parents no class comes twice. -/
theorem Ascends.apart (trail : m.Ascends c chain e) (top : e.parents = []) (known : m.Knows c) :
    Apart (c :: chain) := by
  induction trail with
  | here => exact List.nodup_singleton _
  | @up c d e chain parent rest ih =>
    refine List.nodup_cons.mpr ⟨fun again => ?_, ih top parent.found⟩
    obtain ⟨b, member, same⟩ := List.mem_map.mp again
    have trail : m.Ascends c (d :: chain) e := .up parent rest
    obtain rfl := knows_eq (trail.knows b member) known same
    have climbs : m.Climbs e := .top (by simp [parent?, top])
    have circle := (trail.to_mem member).1
    have steps := trail.steps
    rw [extends_eq] at circle steps
    exact (climbs_of_parents steps climbs).irrefl circle

/-- The collection of ancestors ends. It gives the classes on the way up to one without parents,
nearest first and each once, exactly if there is such a way (a class that the model itself finds
passes none twice on it). It reports a circle exactly if a class comes again, and then under the
class where it started, which is its own ancestor exactly if it is the one that comes again. -/
theorem ancestors_exact (m : Model) (c : Class) :
    climb m c.iri [c.iri] c = settled (m.ancestors c) ∧
    (∀ chain, m.ancestors c = .ok chain ↔ m.Lineage c chain ∧ Apart (c :: chain)) ∧
    (m.Knows c → ∀ chain, m.Lineage c chain → Apart (c :: chain)) ∧
    (∀ iri, m.ancestors c = .error (.inheritanceCycle iri) ↔ iri = c.iri ∧ ∃ d, m.Recurs c d) ∧
    ∀ d, m.Recurs c d → (m.OwnAncestor c ↔ d.iri = c.iri) ∧ (m.Knows c → m.OwnAncestor d) := by
  refine ⟨climb_settled [c.iri] c, fun chain => ancestors_ok_iff, ?_,
    fun iri => ancestors_cycle_iff, fun d again => ⟨again.ownAncestor_iff, fun known => ?_⟩⟩
  · rintro known chain ⟨top, trail, last⟩
    exact trail.apart last known
  · exact ⟨d, again.circle known, rfl⟩

/-- Tankers are lorries and these are vehicles; carts and waggons are said to be each other. -/
def haulage : Model :=
  (Model.make "haulage" "roads")
    |>.declaring ((Class.make "Tanker" "Tanker").extending "Lorry")
    |>.declaring ((Class.make "Lorry" "Lorry").extending "Vehicle")
    |>.declaring (Class.make "Vehicle" "Vehicle")
    |>.declaring ((Class.make "Cart" "Cart").extending "Waggon")
    |>.declaring ((Class.make "Waggon" "Waggon").extending "Cart")

theorem ancestors_exact_haulage : ∃ tanker lorry vehicle cart,
    haulage.find? "Tanker" = some tanker ∧ haulage.find? "Cart" = some cart ∧
    haulage.Lineage tanker [lorry, vehicle] ∧
    haulage.ancestors tanker = .ok [lorry, vehicle] ∧
    haulage.ancestors cart = .error (.inheritanceCycle "Cart") ∧ haulage.OwnAncestor cart := by
  let lorry := (Class.make "Lorry" "Lorry").extending "Vehicle"
  let vehicle := Class.make "Vehicle" "Vehicle"
  let cart := (Class.make "Cart" "Cart").extending "Waggon"
  let waggon := (Class.make "Waggon" "Waggon").extending "Cart"
  have lineage : haulage.Lineage ((Class.make "Tanker" "Tanker").extending "Lorry")
      [lorry, vehicle] :=
    ⟨vehicle, .up ⟨rfl, rfl⟩ (.up ⟨rfl, rfl⟩ .here), rfl⟩
  have again : haulage.Recurs cart cart :=
    ⟨[waggon], waggon, .up ⟨rfl, rfl⟩ .here, by decide, ⟨rfl, rfl⟩, by decide⟩
  obtain ⟨_, collected, apart, _, _⟩ := ancestors_exact haulage
    ((Class.make "Tanker" "Tanker").extending "Lorry")
  obtain ⟨_, _, _, circles, own⟩ := ancestors_exact haulage cart
  exact ⟨_, lorry, vehicle, cart, rfl, rfl, lineage,
    (collected _).mpr ⟨lineage, apart rfl _ lineage⟩, (circles _).mpr ⟨rfl, cart, again⟩,
    (own cart again).1.mpr rfl⟩

/-- A siding that leads onto a circle of two tracks without being part of it. -/
def sidings : Model :=
  (Model.make "sidings" "railway")
    |>.declaring ((Class.make "Siding" "Siding").extending "Outer")
    |>.declaring ((Class.make "Outer" "Outer").extending "Inner")
    |>.declaring ((Class.make "Inner" "Inner").extending "Outer")

/-- The siding is reported, and not the track that is its own ancestor. -/
theorem siding_blamed : ∃ siding outer, sidings.find? "Siding" = some siding ∧
    sidings.find? "Outer" = some outer ∧
    sidings.ancestors siding = .error (.inheritanceCycle "Siding") ∧
    ¬ sidings.OwnAncestor siding ∧ sidings.OwnAncestor outer := by
  let siding := (Class.make "Siding" "Siding").extending "Outer"
  let outer := (Class.make "Outer" "Outer").extending "Inner"
  let inner := (Class.make "Inner" "Inner").extending "Outer"
  have again : sidings.Recurs siding outer :=
    ⟨[outer, inner], inner, .up ⟨rfl, rfl⟩ (.up ⟨rfl, rfl⟩ .here), by decide, ⟨rfl, rfl⟩,
      by decide⟩
  refine ⟨siding, outer, rfl, rfl, by cbv, fun own => ?_, outer, again.circle rfl, rfl⟩
  exact absurd (again.ownAncestor_iff.mp own) (by decide)

end RdfXmlMapping.Model
