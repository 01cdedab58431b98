import Mathlib.Data.List.Nodup
import RdfXmlMapping.Model.Recursion

/-!
What a query says, in the order in which it says it: the classes of a root group one after the
other, of each its meaning and then its properties, and all about the value of a property before the
next property. A resource has a place, which is the path of properties that leads to it; no place
occurs twice (`nodup_places`).
-/

namespace RdfXmlMapping.Query

/-- A step from a resource to the value of a property: which of the classes that the resource may
have it is an instance of, with the identity of that class, and which of the properties of it. -/
structure Step where
  candidate : Nat
  iri : String
  property : Nat
  deriving DecidableEq, Repr

/-- Where a resource stands in the documents that a query looks for: the number of a root group, and
the path that leads to the resource from the root. -/
structure Place where
  group : Nat
  path : List Step
  deriving DecidableEq, Repr

/-- The place of the root of a document. -/
def Place.root (group : Nat) : Place := ⟨group, []⟩

/-- The place of the value of a property. -/
def Place.value (place : Place) (candidate : Nat) (iri : String) (property : Nat) : Place :=
  { place with path := place.path ++ [⟨candidate, iri, property⟩] }

/-- The classes on the way to a place. -/
def Place.classes (place : Place) : List String := place.path.map (·.iri)

theorem Place.classes_value (place : Place) (candidate : Nat) (iri : String) (property : Nat) :
    (place.value candidate iri property).classes = place.classes ++ [iri] := List.map_append

/-- What a query says of the resource at a place: that documents begin there, what the class means
that it is an instance of, or that a property of the class leads from it to a value. -/
inductive Fact where
  | entry (place : Place)
  | isA (place : Place) (iri meaning : String)
  | leads (owner : Place) (iri : String) (p : Property) (value : Place)
  deriving DecidableEq, Repr

/-- The fact describes the resource at a place as an instance of a class. -/
inductive Fact.Describes (place : Place) (iri : String) : Fact → Prop
  | isA {meaning : String} : Describes place iri (.isA place iri meaning)
  | leads {p : Property} {value : Place} : Describes place iri (.leads place iri p value)

/-- The place that has not been mentioned before the fact. -/
def Fact.opens? : Fact → Option Place
  | entry place => some place
  | isA .. => none
  | leads _ _ _ value => some value

/-- The places of which the fact is. -/
def Fact.mentions : Fact → List Place
  | entry place | isA place _ _ => [place]
  | leads owner _ _ value => [owner, value]

/-- The fact is said by a triple. -/
def Fact.isStatement : Fact → Bool
  | entry _ => false
  | isA .. | leads .. => true

/-- The places in the order in which the facts come to them. -/
def places (facts : List Fact) : List Place := facts.filterMap Fact.opens?

def statements (facts : List Fact) : List Fact := facts.filter Fact.isStatement

/-- What there are facts about: a resource as an instance of the candidate of a number, the
properties of that class from one on, or all candidates from one on. -/
inductive Topic where
  | cls (number : Nat) (c : Class)
  | properties (number : Nat) (iri : String) (k : Nat) (ps : List Property)
  | candidates (number : Nat) (cs : List Class)

/-- The facts about the resource at a place. No class is described on the way from itself. -/
inductive FactsOf (m : Model) : Place → Topic → List Fact → Prop
  | cls {place : Place} {number : Nat} {c : Class} {ps : List Property} {facts : List Fact} :
      c.iri ∉ place.classes → m.effectiveProperties c = .ok ps →
      FactsOf m place (.properties number c.iri 0 ps) facts →
      FactsOf m place (.cls number c) (c.meaning.toList.map (.isA place c.iri) ++ facts)
  | noProperty {place : Place} {number k : Nat} {iri : String} :
      FactsOf m place (.properties number iri k []) []
  | property {place : Place} {number k : Nat} {iri : String} {p : Property} {ps : List Property}
      {shape : Shape} {below rest : List Fact} :
      m.shapeOf p = .ok shape →
      FactsOf m (place.value number iri k) (.candidates 0 shape.targets) below →
      FactsOf m place (.properties number iri (k + 1) ps) rest →
      FactsOf m place (.properties number iri k (p :: ps))
        (.leads place iri p (place.value number iri k) :: below ++ rest)
  | noCandidate {place : Place} {number : Nat} : FactsOf m place (.candidates number []) []
  | candidate {place : Place} {number : Nat} {c : Class} {cs : List Class}
      {facts rest : List Fact} :
      FactsOf m place (.cls number c) facts → FactsOf m place (.candidates (number + 1) cs) rest →
      FactsOf m place (.candidates number (c :: cs)) (facts ++ rest)

/-- The facts about the documents of root groups, from the group of a number on. -/
inductive GroupFacts (m : Model) : Nat → List (List String) → List Fact → Prop
  | noGroup {k : Nat} : GroupFacts m k [] []
  | group {k : Nat} {group : List String} {groups : List (List String)} {candidates : List Class}
      {facts rest : List Fact} :
      List.Forall₂ (fun iri c => m.find? iri = some c) group candidates →
      FactsOf m (.root k) (.candidates 0 candidates) facts → GroupFacts m (k + 1) groups rest →
      GroupFacts m k (group :: groups) (.entry (.root k) :: facts ++ rest)

/-- All facts about the documents of a model. -/
def Expansion (m : Model) (facts : List Fact) : Prop := GroupFacts m 0 m.roots facts

theorem known_places_cons (known : List Place) (f : Fact) (facts : List Fact) :
    known ++ places (f :: facts) = known ++ f.opens?.toList ++ places facts := by
  rw [places, List.filterMap_cons, List.append_assoc]
  cases f.opens? <;> rfl

theorem places_append (facts rest : List Fact) :
    places (facts ++ rest) = places facts ++ places rest := List.filterMap_append

theorem statements_append (facts rest : List Fact) :
    statements (facts ++ rest) = statements facts ++ statements rest := List.filter_append ..

theorem mem_places {f : Fact} {facts : List Fact} {v : Place} (member : f ∈ facts)
    (opens : f.opens? = some v) : v ∈ places facts := List.mem_filterMap.mpr ⟨f, member, opens⟩

theorem places_isA (place : Place) (iri : String) (meaning : Option String) :
    places (meaning.toList.map (.isA place iri)) = [] := by cases meaning <;> rfl

variable {m : Model} {place v : Place} {topic : Topic} {facts others : List Fact}
  {iri iri' : String} {number candidate k property : Nat} {groups : List (List String)}

theorem FactsOf.unique (h : FactsOf m place topic facts) (h' : FactsOf m place topic others) :
    facts = others := by
  induction h generalizing others with
  | cls _ inherited _ ih =>
    cases h' with
    | cls _ inherited' rest =>
      obtain rfl := Except.ok.inj (inherited.symm.trans inherited')
      rw [ih rest]
  | noProperty | noCandidate => cases h'; rfl
  | property read _ _ below rest =>
    cases h' with
    | property read' inner more =>
      obtain rfl := Except.ok.inj (read.symm.trans read')
      rw [below inner, rest more]
  | candidate _ _ first rest =>
    cases h' with
    | candidate one more => rw [first one, rest more]

theorem GroupFacts.unique (h : GroupFacts m k groups facts) (h' : GroupFacts m k groups others) :
    facts = others := by
  induction h generalizing others with
  | noGroup => cases h'; rfl
  | group found described _ rest =>
    cases h' with
    | group found' described' more =>
      have one : Relator.RightUnique fun iri c => m.find? iri = some c :=
        fun _ _ _ here there => Option.some.inj (here.symm.trans there)
      obtain rfl := List.right_unique_forall₂' one found found'
      rw [described.unique described', rest more]

/-- A model has no two expansions. -/
theorem Expansion.unique (h : Expansion m facts) (h' : Expansion m others) : facts = others :=
  GroupFacts.unique h h'

/-! ### Different places -/

/-- The way to the first place is the beginning of the way to the second. -/
def Within (place v : Place) : Prop := place.group = v.group ∧ place.path <+: v.path

theorem Within.refl (place : Place) : Within place place := ⟨rfl, List.prefix_rfl⟩

theorem Within.of_value (h : Within (place.value number iri k) v) : Within place v :=
  ⟨h.1, (List.prefix_append _ _).trans h.2⟩

/-- The ways over different properties, or candidates, do not meet again. -/
theorem Within.unique (h : Within (place.value number iri k) v)
    (h' : Within (place.value candidate iri' property) v) : number = candidate ∧ k = property := by
  have same := (List.prefix_of_prefix_length_le h.2 h'.2 (by simp [Place.value])).eq_of_length
    (by simp [Place.value])
  obtain ⟨_, _, _⟩ : number = candidate ∧ iri = iri' ∧ k = property := by
    simpa [Place.value] using same
  exact ⟨‹_›, ‹_›⟩

theorem not_within_value : ¬ Within (place.value number iri k) place := by
  intro h
  have size := h.2.length_le
  rw [Place.value, List.length_append, List.length_singleton] at size
  omega

/-- A place to which the facts of a topic lead. -/
def Topic.Leads (place : Place) : Topic → Place → Prop
  | cls number c, v => ∃ k, Within (place.value number c.iri k) v
  | properties number iri k _, v => ∃ j, k ≤ j ∧ Within (place.value number iri j) v
  | candidates number _, v => ∃ j iri k, number ≤ j ∧ Within (place.value j iri k) v

theorem Topic.Leads.within (h : topic.Leads place v) : Within place v := by
  cases topic with
  | cls number c => exact h.elim fun _ inside => inside.of_value
  | properties number iri k ps => exact h.elim fun _ inside => inside.2.of_value
  | candidates number cs =>
    obtain ⟨_, _, _, _, inside⟩ := h
    exact inside.of_value

theorem FactsOf.leads (h : FactsOf m place topic facts) :
    ∀ v ∈ places facts, topic.Leads place v := by
  induction h with
  | noProperty | noCandidate => exact fun v member => by cases member
  | cls _ _ _ ih =>
    intro v member
    rw [places_append, places_isA, List.nil_append] at member
    obtain ⟨k, _, inside⟩ := ih v member
    exact ⟨k, inside⟩
  | @property place number k _ _ _ _ _ _ _ _ _ below rest =>
    intro v member
    rw [places_append] at member
    rcases List.mem_append.mp member with first | later
    · refine ⟨k, Nat.le_refl k, ?_⟩
      rcases List.mem_cons.mp first with rfl | inner
      · exact .refl _
      · exact (below v inner).within
    · obtain ⟨j, after, inside⟩ := rest v later
      exact ⟨j, by omega, inside⟩
  | @candidate _ number c _ _ _ _ _ first rest =>
    intro v member
    rw [places_append] at member
    rcases List.mem_append.mp member with here | later
    · obtain ⟨k, inside⟩ := first v here
      exact ⟨number, c.iri, k, Nat.le_refl _, inside⟩
    · obtain ⟨j, iri, k, after, inside⟩ := rest v later
      exact ⟨j, iri, k, by omega, inside⟩

theorem FactsOf.nodup (h : FactsOf m place topic facts) : (places facts).Nodup := by
  induction h with
  | noProperty | noCandidate => exact List.nodup_nil
  | cls _ _ _ ih =>
    rw [places_append, places_isA, List.nil_append]
    exact ih
  | @property place number k iri _ _ _ _ _ _ inner others below rest =>
    rw [places_append]
    refine List.Nodup.append (List.nodup_cons.mpr ⟨fun again => ?_, below⟩) rest ?_
    · obtain ⟨_, _, _, _, inside⟩ := inner.leads _ again
      exact not_within_value inside
    · -- The ways to the first places go over this property, those to the others over a later one.
      intro v first later
      obtain ⟨j, after, inside⟩ := others.leads v later
      have here : Within (place.value number iri k) v := by
        rcases List.mem_cons.mp first with rfl | member
        · exact .refl _
        · exact (inner.leads v member).within
      have := (here.unique inside).2
      omega
  | candidate one others first rest =>
    rw [places_append]
    refine List.Nodup.append first rest fun v here later => ?_
    obtain ⟨_, inside⟩ := one.leads v here
    obtain ⟨_, _, _, after, inside'⟩ := others.leads v later
    have := (inside.unique inside').1
    omega

theorem GroupFacts.group_le (h : GroupFacts m k groups facts) :
    ∀ v ∈ places facts, k ≤ v.group := by
  induction h with
  | noGroup => exact fun v member => by cases member
  | @group k _ _ _ _ _ _ described _ rest =>
    intro v member
    rw [places_append] at member
    rcases List.mem_append.mp member with first | later
    · rcases List.mem_cons.mp first with rfl | inner
      · exact Nat.le_refl k
      · exact Nat.le_of_eq (described.leads v inner).within.1
    · exact Nat.le_of_succ_le (rest v later)

theorem GroupFacts.nodup (h : GroupFacts m k groups facts) : (places facts).Nodup := by
  induction h with
  | noGroup => exact List.nodup_nil
  | @group k _ _ _ _ _ _ described others rest =>
    rw [places_append]
    refine List.Nodup.append (List.nodup_cons.mpr ⟨fun again => ?_, described.nodup⟩) rest ?_
    · obtain ⟨_, _, _, _, inside⟩ := described.leads _ again
      exact not_within_value inside
    · intro v first later
      have after := others.group_le v later
      have here : v.group = k := by
        rcases List.mem_cons.mp first with rfl | inner
        · rfl
        · exact (described.leads v inner).within.1.symm
      omega

theorem nodup_places (h : Expansion m facts) : (places facts).Nodup := GroupFacts.nodup h

/-! ### Single facts -/

/-- A fact about a property leads one step further, and a class is no class on the way to it. -/
inductive Fact.Grounded : Fact → Prop
  | entry {place : Place} : Grounded (.entry place)
  | isA {place : Place} {iri meaning : String} :
      iri ∉ place.classes → Grounded (.isA place iri meaning)
  | leads {owner : Place} {iri : String} {p : Property} {number k : Nat} :
      iri ∉ owner.classes → Grounded (.leads owner iri p (owner.value number iri k))

/-- The class whose properties are the topic is no class on the way to the resource. -/
def Topic.Fresh (place : Place) : Topic → Prop
  | properties _ iri _ _ => iri ∉ place.classes
  | cls .. | candidates .. => True

theorem FactsOf.grounded (h : FactsOf m place topic facts) (fresh : topic.Fresh place) :
    ∀ f ∈ facts, f.Grounded ∧ f.isStatement := by
  induction h with
  | noProperty | noCandidate => exact fun f member => by cases member
  | @cls place number c _ _ outside _ _ ih =>
    intro f member
    rcases List.mem_append.mp member with stated | member
    · obtain ⟨meaning, _, rfl⟩ := List.mem_map.mp stated
      exact ⟨.isA outside, rfl⟩
    · exact ih outside f member
  | property _ _ _ below rest =>
    intro f member
    rcases List.mem_append.mp member with here | later
    · rcases List.mem_cons.mp here with rfl | inner
      · exact ⟨.leads fresh, rfl⟩
      · exact below trivial f inner
    · exact rest fresh f later
  | candidate _ _ first rest =>
    intro f member
    rcases List.mem_append.mp member with here | later
    · exact first trivial f here
    · exact rest trivial f later

theorem GroupFacts.grounded (h : GroupFacts m k groups facts) : ∀ f ∈ facts, f.Grounded := by
  induction h with
  | noGroup => exact fun f member => by cases member
  | group _ described _ rest =>
    intro f member
    rcases List.mem_append.mp member with here | later
    · rcases List.mem_cons.mp here with rfl | inner
      · exact .entry
      · exact (described.grounded trivial f inner).1
    · exact rest f later

/-- The documents of each group begin at its root. -/
theorem GroupFacts.entries (h : GroupFacts m k groups facts) :
    facts.filter (!·.isStatement) =
      (List.range' k groups.length).map fun k => .entry (.root k) := by
  induction h with
  | noGroup => rfl
  | @group k _ _ _ facts _ _ described _ rest =>
    have none : facts.filter (!·.isStatement) = [] :=
      List.filter_eq_nil_iff.mpr fun f member => by
        simpa using (described.grounded trivial f member).2
    rw [List.filter_append, rest, List.filter_cons_of_pos (by rfl), none]
    rfl

end RdfXmlMapping.Query
