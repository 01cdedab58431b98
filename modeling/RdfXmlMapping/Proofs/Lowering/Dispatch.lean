import RdfXmlMapping.Proofs.Mapping
import RdfXmlMapping.Proofs.Roots
import RdfXmlMapping.Proofs.Xml.Tree

/-!
How a stylesheet tells instances apart. The rules for the roots and the cases of a choice ask for
the meanings of classes, and of those that apply the one is taken whose class comes first
(`dispatch_first`). A rule looks at a row of the query result, which states one class; a case looks
at an instance, of which rows may state several. A class is thus passed over if one with its meaning
comes before it, and only then.
-/

namespace RdfXmlMapping.Lowering

open Stylesheet
open Xml (Element)

/-! ### What is asked for -/

/-- A term in a query result. -/
inductive Term where
  | uri (iri : String)
  | blank (label : String)
  | literal (text : String)

/-- A row of a query result: the terms in its columns. -/
abbrev Row := String → Option Term

/-- The first one is taken whose meaning is stated. -/
def FirstMatch {α : Type} (meanings : List String) (states : α → String → Prop)
    (taken : α → Nat → Prop) : Prop :=
  ∀ x i, taken x i ↔ (∃ iri, states x iri ∧ meanings[i]? = some iri) ∧
    ∀ j < i, ∀ iri, states x iri → meanings[j]? ≠ some iri

/-- Each one is taken at some time, unless one with its meaning comes before it. -/
def ReachedUnlessShadowed {α : Type} (meanings : List String) (taken : α → Nat → Prop) : Prop :=
  ∀ i < meanings.length, (∃ x, taken x i) ↔ ∀ j < i, meanings[j]? ≠ meanings[i]?

variable {asked : Element → Option String} {meanings : List String} {es : List Element}
  {states : String → Prop}

/-- If there is something that states one class and no other, for each meaning, then a meaning is
only hidden behind itself. -/
theorem FirstMatch.reached {α : Type} {states : α → String → Prop} {taken : α → Nat → Prop}
    (h : FirstMatch meanings states taken)
    (single : ∀ iri, ∃ x, ∀ other, states x other ↔ other = iri) :
    ReachedUnlessShadowed meanings taken := by
  intro i inside
  have meant := List.getElem?_eq_getElem inside
  constructor
  · rintro ⟨x, taken⟩ j before same
    obtain ⟨⟨iri, stated, at_i⟩, first⟩ := (h x i).mp taken
    exact first j before iri stated (same.trans at_i)
  · intro first
    obtain ⟨x, states_only⟩ := single meanings[i]
    refine ⟨x, (h x i).mpr ⟨⟨_, (states_only _).mpr rfl, meant⟩,
      fun j before iri stated same => ?_⟩⟩
    obtain rfl := (states_only iri).mp stated
    exact first j before (same.trans meant.symm)

variable {y : Plan} {s t : Progress} {c root : Class} {p : Property}

theorem branch_asks {b : Branch} (h : y.branch root c s = .ok (b, t)) :
    c.meaning = some b.meaning ∧ b.template = templateName c.iri := by
  cases branch_made h with
  | root meant _ made | derived meant _ _ made => exact ⟨meant, (templateOf_step made).2.2⟩

/-- The rules of a run belong to its classes, and their priorities fall to one. -/
theorem rootRules_falling {cs : List Class} {rules : List RootRule} (h : RulesMade y cs rules s t) :
    List.Forall₂
        (fun c r => c.meaning = some r.meaning ∧ r.template = templateName c.iri) cs rules ∧
      (rules.map (·.priority)).Pairwise (· > ·) ∧
      ∀ r ∈ rules, 0 < r.priority ∧ r.priority ≤ cs.length := by
  induction h with
  | nil => exact ⟨.nil, .nil, by simp⟩
  | cons meant made _ ih =>
    obtain ⟨each, falling, bound⟩ := ih
    refine ⟨.cons ⟨meant, (templateOf_step made).2.2⟩ each,
      List.pairwise_cons.mpr ⟨?_, falling⟩, ?_⟩
    · intro n among
      obtain ⟨r, member, rfl⟩ := List.mem_map.mp among
      exact Nat.lt_succ_of_le (bound r member).2
    · rintro r (_ | ⟨_, member⟩)
      · exact ⟨Nat.succ_pos _, Nat.le_refl _⟩
      · exact ⟨(bound r member).1, (bound r member).2.trans (Nat.le_succ _)⟩

/-! ### The document -/

/-- The pattern of a rule for a class. -/
def patternOf (iri : String) : String :=
  "sp:result[sp:binding[@name = $pred]/sp:uri = $type and sp:binding[@name = $obj]/sp:uri = " ++
    literal iri ++ "]"

/-- The test of a case for a class. -/
def testOf (iri : String) : String := "$types = " ++ literal iri

end RdfXmlMapping.Lowering
