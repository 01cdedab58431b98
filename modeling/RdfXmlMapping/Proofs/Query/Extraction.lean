import Mathlib
import RdfXmlMapping.Model.Build
import RdfXmlMapping.Proofs.Query.Evaluation
import RdfXmlMapping.Proofs.Query.Growth

/-!
Whether a query builds only what it has matched. Properties it does; classes that the condition only
offers are built as soon as their resource is matched.
-/

namespace RdfXmlMapping.Query

/-- A statement of a class that the condition offers and does not ask for. -/
def Offered {Node : Type} (read : String → Node) (ρ : Solution Node) (q : Query)
    (x : Statement Node) : Prop :=
  ∃ t ∈ q.template, t.StatesClass ∧ Offers t q.pattern ∧ t.value read ρ = some x

/-- A triple of the template that is complete in a way of matching is matched, unless it states a
class that the condition only offers. -/
theorem complete_matched {m : Model} {q : Query} (h : ofModel m = .ok q) {ts : List Triple}
    (way : Matches q.pattern ts) {t : Triple} (member : t ∈ q.template)
    (complete : ∀ n ∈ t.vars, Mentions ts n) :
    t ∈ ts ∨ (t.StatesClass ∧ Offers t q.pattern) := by
  rcases (ofModel_describes h).kept t member with ⟨off, _⟩ | offered |
    ⟨n, mentioned, _, _, tied⟩
  · cases off
  · exact .inr offered
  · exact .inl (tied ts way (complete n mentioned))

section

variable {Node : Type} {read : String → Node} {G : Graph Node} {m : Model} {q : Query}
  {ρ : Solution Node}

theorem vars_of_value {t : Triple} {x : Statement Node} (known : t.value read ρ = some x) :
    ∀ n ∈ t.vars, ρ n ≠ none := by
  have term : ∀ (u : Term) (y : Node), u.value read ρ = some y → ∀ n ∈ u.vars, ρ n ≠ none := by
    intro u y given n member
    cases u with
    | var k =>
      obtain rfl := List.mem_singleton.mp member
      exact fun none => by simp [Term.value, none] at given
    | iri text => cases member
    | type text => cases member
  obtain ⟨subject, predicate, object⟩ := value_iff.mp known
  intro n member
  simp only [Triple.vars, List.mem_append] at member
  rcases member with (member | member) | member
  · exact term _ _ subject n member
  · exact term _ _ predicate n member
  · exact term _ _ object n member

theorem built_matched (h : ofModel m = .ok q) (solved : ρ ∈ found read G q) {t : Triple}
    (member : t ∈ q.template) {x : Statement Node} (known : t.value read ρ = some x) :
    x ∈ G ∨ Offered read ρ q x := by
  obtain ⟨ts, way, vars, holds⟩ := solution_matches solved
  have complete : ∀ n ∈ t.vars, Mentions ts n :=
    fun n mentioned => (vars n).mp (vars_of_value known n mentioned)
  rcases complete_matched h way member complete with matched | ⟨class_, offered⟩
  · obtain ⟨y, present, same⟩ := holds t matched
    obtain rfl := Option.some.inj (known.symm.trans same)
    exact .inl present
  · exact .inr ⟨t, member, class_, offered, known⟩

theorem row_complete (h : ofModel m = .ok q) {x : Row Node} (member : x ∈ listed read ρ q) :
    ∃ t ∈ q.template, ∃ predicate, x.predicate = some predicate ∧
      t.value read ρ = some ⟨x.subject, predicate, x.object⟩ := by
  obtain ⟨t, member, subject, predicate, object⟩ := listed_iff.mp member
  have plain := (ofModel_describes h).predicate t member
  have ⟨node, named⟩ : ∃ node, t.predicate.value read ρ = some node := by
    cases term : t.predicate with
    | var n => exact absurd term (plain n)
    | iri text => exact ⟨_, rfl⟩
    | type text => exact ⟨_, rfl⟩
  exact ⟨t, member, node, predicate.symm.trans named, value_iff.mpr ⟨subject, named, object⟩⟩

end

/-- A query builds no triple that was not matched, but for classes that its condition offers without
asking for them. -/
theorem built_only_if_matched {m : Model} {q : Query} (h : ofModel m = .ok q) :
    (∀ ts, Matches q.pattern ts → ∀ t ∈ q.template, (∀ n ∈ t.vars, Mentions ts n) →
      t ∈ ts ∨ (t.StatesClass ∧ Offers t q.pattern)) ∧
    ∀ (Node : Type) (read : String → Node) (G : Graph Node), ∀ ρ ∈ found read G q,
      (∀ x ∈ built read ρ q, x ∈ G ∨ Offered read ρ q x) ∧
      ∀ x ∈ listed read ρ q, ∃ predicate, x.predicate = some predicate ∧
        (⟨x.subject, predicate, x.object⟩ ∈ G ∨
          Offered read ρ q ⟨x.subject, predicate, x.object⟩) := by
  refine ⟨fun ts way t member complete => complete_matched h way member complete, ?_⟩
  intro Node read G ρ solved
  constructor
  · rintro x ⟨t, member, known⟩
    exact built_matched h solved member known
  · intro x member
    obtain ⟨t, inTemplate, predicate, named, known⟩ := row_complete h member
    exact ⟨predicate, named, built_matched h solved inTemplate known⟩

/-! ### Classes that are offered -/

/-- A root group of two classes; an instance of the first leads to one class and to a choice. -/
def shelves : Model :=
  let resource (name : String) : Class :=
    { Class.make name name with meaning := some ("https://ex.org/" ++ name) }
  (Model.make "shelves" "library").rootedAt ["Shelf", "Box"]
    |>.declaring ((resource "Shelf")
      |>.declaring ((Property.make "owner" "https://ex.org/owner").association "Owner")
      |>.declaring ((Property.make "item" "https://ex.org/item")
        |>.association "Book" |>.association "Map"))
    |>.declaring (resource "Box")
    |>.declaring (resource "Owner")
    |>.declaring (resource "Book")
    |>.declaring (resource "Map")

def stating (n : Nat) (name : String) : Triple := ⟨.var n, .type "ns0:type", .iri ("ns1:" ++ name)⟩

def shelvesQuery : Query :=
  let owner : Triple := ⟨.var 0, .iri "ns1:owner", .var 1⟩
  let item : Triple := ⟨.var 0, .iri "ns1:item", .var 2⟩
  { prefixes := [
      ("ns0", "http://www.w3.org/1999/02/22-rdf-syntax-ns#"), ("ns1", "https://ex.org/")]
    template := [
      stating 0 "Shelf", owner, stating 1 "Owner", item, stating 2 "Book", stating 2 "Map",
      stating 0 "Box"]
    pattern := [.union [
      [.optional [.triple (stating 0 "Shelf")], .triple owner,
        .optional [.triple (stating 1 "Owner")], .triple item,
        .union [[.triple (stating 2 "Book")], [.triple (stating 2 "Map")]]],
      [.optional [.triple (stating 0 "Box")]]]]
    variableCount := 3 }

set_option maxRecDepth 20000 in
theorem ofModel_shelves : ofModel shelves = .ok shelvesQuery := by cbv

/-- A query also builds classes that were not matched. On a shelf with an owner and a book, no
optional group being taken, the template is complete for the class of either root, for that of the
owner, and for that of the candidate in the other branch. -/
theorem classes_built_unmatched : ∃ q ts, ofModel shelves = .ok q ∧ Matches q.pattern ts ∧
    ∀ t ∈ [stating 0 "Shelf", stating 0 "Box", stating 1 "Owner", stating 2 "Map"],
      t ∈ q.template ∧ (∀ n ∈ t.vars, Mentions ts n) ∧ t ∉ ts := by
  refine ⟨shelvesQuery, [⟨.var 0, .iri "ns1:owner", .var 1⟩, ⟨.var 0, .iri "ns1:item", .var 2⟩,
    stating 2 "Book"], ofModel_shelves, ?_, ?_⟩
  · have book : Matches [.union [[.triple (stating 2 "Book")], [.triple (stating 2 "Map")]]]
        [stating 2 "Book"] := .branch List.mem_cons_self (.triple .nil) .nil
    exact .branch List.mem_cons_self (.passed (.triple (.passed (.triple book)))) .nil
  · simp only [Mentions]
    decide

/-- The theorem at the shelves, whose query nests a choice and optional classes. -/
theorem built_only_if_matched_shelves : ∃ q, ofModel shelves = .ok q ∧
    ∀ ts, Matches q.pattern ts → ∀ t ∈ q.template, (∀ n ∈ t.vars, Mentions ts n) →
      t ∈ ts ∨ (t.StatesClass ∧ Offers t q.pattern) :=
  ⟨shelvesQuery, ofModel_shelves, (built_only_if_matched ofModel_shelves).1⟩

end RdfXmlMapping.Query
