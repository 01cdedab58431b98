import Mathlib
import RdfXmlMapping.Model.Build
import RdfXmlMapping.Proofs.Schema.Renaming
import RdfXmlMapping.Query.Generate

/-!
The schema and the query of a model use the identities of classes and properties for comparisons
only: with other identities that keep the classes apart both have the same text, or fail for the
same cause in terms of the new identities (`renamed_alike`).
-/

namespace RdfXmlMapping

variable {r : Renaming} {m : Model} {c c' : Class} {p p' : Property}

/-! ### Queries -/

namespace Query

theorem newVariable_alike : StepsAlike (r.OnError m) Eq Eq newVariable newVariable := by
  rintro s _ rfl
  exact .ok ⟨rfl, rfl⟩

theorem shorten_alike (iri : String) :
    StepsAlike (r.OnError m) Eq Eq (shorten iri) (shorten iri) := by
  rintro s _ rfl
  unfold shorten
  split <;> exact .ok ⟨rfl, rfl⟩

theorem newTriple_alike (subject predicate object : Term) :
    StepsAlike (r.OnError m) Eq Eq (newTriple subject predicate object)
      (newTriple subject predicate object) := by
  rintro s _ rfl
  exact .ok ⟨rfl, rfl⟩

theorem typePatterns_alike (subject : Nat) (isOptional : Bool) (h : r.OnClass m c c') :
    StepsAlike (r.OnError m) Eq Eq (typePatterns subject isOptional c)
      (typePatterns subject isOptional c') := by
  have meaning : c'.meaning = c.meaning := h.2 ▸ rfl
  unfold typePatterns
  rw [meaning]
  split
  · exact .pure rfl
  · refine (shorten_alike _).bind ?_
    rintro predicate _ rfl
    refine (shorten_alike _).bind ?_
    rintro object _ rfl
    exact (newTriple_alike _ _ _).bind fun _ _ same => .pure (by rw [same])

theorem propertyTriple_alike (subject : Nat) (h : r.OnProperty m p p') :
    StepsAlike (r.OnError m) Eq Eq (propertyTriple subject p) (propertyTriple subject p') := by
  obtain ⟨_, rfl⟩ := h
  unfold propertyTriple
  refine newVariable_alike.bind ?_
  rintro value _ rfl
  refine (shorten_alike p.predicate).bind ?_
  rintro predicate _ rfl
  change StepsAlike _ _ _ (if p.isReverse then _ else _) (if p.isReverse then _ else _)
  split
  · exact (newTriple_alike _ _ _).bind fun _ _ same => .pure (by rw [same])
  · exact (newTriple_alike _ _ _).bind fun _ _ same => .pure (by rw [same])

theorem refuseReversePrimitive_alike (h : r.OnProperty m p p') {shape shape' : Shape}
    (read : r.OnShape m shape shape') : Alike (r.OnError m) Eq (refuseReversePrimitive p shape)
      (refuseReversePrimitive p' shape') := by
  obtain ⟨_, rfl⟩ := h
  cases read with
  | single _ | choice _ => exact .ok rfl
  | primitive vs =>
    change Alike _ _ (if p.isReverse then _ else _) (if p.isReverse then _ else _)
    split
    · exact .error (.reversePrimitive p.iri)
    · exact .ok rfl

variable (apart : r.KeepsApart m)

include apart

theorem classPatterns_alike (path : List String) : ∀ path', List.Forall₂ (r.OnIri m) path path' →
    ∀ subject typeIsOptional c c', r.OnClass m c c' → StepsAlike (r.OnError m) Eq Eq
      (classPatterns m path subject typeIsOptional c)
      (classPatterns (m.rename r) path' subject typeIsOptional c') := by
  induction path using Model.walk_induction m with
  | step path ih =>
    intro path' ways subject typeIsOptional c c' h
    rw [classPatterns, classPatterns]
    have same := h.iri.canEnter apart ways
    by_cases way : m.canEnter path c.iri
    · rw [dif_pos way, dif_pos (same.trans way)]
      have inner := ih c.iri way (c'.iri :: path') (.cons h.iri ways)
      refine (typePatterns_alike subject typeIsOptional h).bind ?_
      rintro type _ rfl
      refine (StepsAlike.lift (h.effectiveProperties apart)).bind fun ps ps' own => ?_
      refine (StepsAlike.mapM own fun p p' h => ?_).bind fun _ _ same =>
        .pure (by rw [forall₂_eq same])
      refine (StepsAlike.lift (h.shape apart)).bind fun shape shape' read => ?_
      refine (StepsAlike.lift (refuseReversePrimitive_alike h read)).bind fun _ _ _ => ?_
      refine (propertyTriple_alike subject h).bind ?_
      rintro ⟨value, edge⟩ _ rfl
      have optional : p'.isOptional = p.isOptional := h.2 ▸ rfl
      dsimp only
      rw [optional]
      cases read with
      | primitive _ => exact (StepsAlike.pure rfl).bind fun _ _ same => .pure (by rw [same])
      | single found =>
        exact (inner value true _ _ found).bind fun _ _ same => .pure (by rw [same])
      | choice plan =>
        dsimp only
        rw [← plan.candidates.length_eq]
        refine (StepsAlike.mapM plan.candidates fun d d' found => inner value _ d d' found).bind
          fun _ _ same => ?_
        rw [forall₂_eq same]
        exact (StepsAlike.pure rfl).bind fun _ _ same => .pure (by rw [same])
    · rw [dif_neg way, dif_neg fun entered => way (same.symm.trans entered)]
      exact h.2 ▸ .throw (.recursiveModel c.iri)

theorem rootPatterns_alike {group group' : List String}
    (h : List.Forall₂ (r.OnIri m) group group') :
    StepsAlike (r.OnError m) Eq Eq (rootPatterns m group) (rootPatterns (m.rename r) group') := by
  unfold rootPatterns
  refine newVariable_alike.bind ?_
  rintro subject _ rfl
  refine (StepsAlike.mapM (S := r.OnClass m) h fun a a' on =>
    .lift (on.lookUp apart .model)).bind fun cs cs' found => ?_
  have several {ds ds' : List Class} (found : List.Forall₂ (r.OnClass m) ds ds') :
      StepsAlike (r.OnError m) Eq Eq
        (do
          let branches ← ds.mapM (classPatterns m [] subject (1 < ds.length))
          return [Pattern.union branches])
        (do
          let branches ← ds'.mapM (classPatterns (m.rename r) [] subject (1 < ds'.length))
          return [Pattern.union branches]) := by
    rw [← found.length_eq]
    exact (StepsAlike.mapM found fun c c' h => classPatterns_alike apart [] [] .nil _ _ c c' h).bind
      fun _ _ same => .pure (by rw [forall₂_eq same])
  cases found with
  | nil => exact several .nil
  | cons first rest =>
    cases rest with
    | nil => exact classPatterns_alike apart [] [] .nil subject false _ _ first
    | cons second rest => exact several (.cons first (.cons second rest))

theorem modelPatterns_alike :
    StepsAlike (r.OnError m) Eq Eq (modelPatterns m) (modelPatterns (m.rename r)) := by
  unfold modelPatterns
  refine (StepsAlike.mapM (Renaming.onRoots r m) fun group group' h =>
    rootPatterns_alike apart h).bind fun ps ps' same => ?_
  obtain rfl := forall₂_eq same
  split
  · exact .pure rfl
  · exact .pure rfl

theorem ofModel_alike : Alike (r.OnError m) Eq (ofModel m) (ofModel (m.rename r)) := by
  refine (Renaming.checkAcyclic_alike apart).bind fun _ _ _ => ?_
  refine Alike.bind (modelPatterns_alike apart {} {} rfl) ?_
  rintro ⟨pattern, final⟩ ⟨_, _⟩ ⟨rfl, rfl⟩
  exact .ok rfl

end Query

/-! ### Both artifacts -/

/-- The schema and the query of a model with other identities have the same text, or the generation
fails for the same cause in terms of the new identities. -/
theorem renamed_alike (s : Source) (r : Renaming) (apart : r.KeepsApart s.model)
    (plain : r.Spaceless s.model) {kind : ArtifactKind} (named : kind = .schema ∨ kind = .query) :
    (∃ text, s.artifact kind = .ok text ∧ (s.rename r).artifact kind = .ok text) ∨
      ∃ e e', s.artifact kind = .error e ∧ (s.rename r).artifact kind = .error e' ∧
        r.OnError s.model e e' := by
  have both : Alike (r.OnError s.model) Eq (s.artifact kind) ((s.rename r).artifact kind) := by
    rcases named with rfl | rfl
    · exact (Schema.generate_alike apart plain).map fun _ _ same => by rw [same]
    · exact (Query.ofModel_alike apart).bind fun _ _ same => .ok (by rw [same]; rfl)
  generalize s.artifact kind = x, (s.rename r).artifact kind = x' at both
  cases both with
  | @ok text _ same => exact .inl ⟨text, rfl, same ▸ rfl⟩
  | @error e e' related => exact .inr ⟨e, e', rfl, rfl, related⟩

instance (r : Renaming) (m : Model) : Decidable (r.KeepsApart m) :=
  inferInstanceAs (Decidable (∀ a ∈ m.identities, ∀ b ∈ m.identities, r.cls a = r.cls b → a = b))

instance (r : Renaming) (m : Model) : Decidable (r.Spaceless m) :=
  inferInstanceAs (Decidable (∀ a ∈ m.identities, ' ' ∉ a.toList ∧ ' ' ∉ (r.cls a).toList))

/-- Vehicles that are owned by persons or firms. -/
def fleet : Source where
  model := (Model.make "fleet" "own").rootedAt ["Vehicle"]
    |>.declaring ((Class.make "Vehicle" "Vehicle").declaring
      ((Property.make "owner" "https://ex.org/owner").association "Person" |>.association "Firm"))
    |>.declaring (Class.make "Person" "Person")
    |>.declaring (Class.make "Firm" "Firm")
  manifests := []
  config := {}

/-- The classes exchange their identities, and all properties get the same. -/
def exchange : Renaming where
  cls := fun iri => if iri = "Person" then "Firm" else if iri = "Firm" then "Person" else iri
  property := fun _ => "p"

set_option maxRecDepth 2000 in
theorem renamed_fleet : exchange.KeepsApart fleet.model ∧ exchange.Spaceless fleet.model ∧
    ∃ text, fleet.artifact .schema = .ok text ∧
      (fleet.rename exchange).artifact .schema = .ok text := by
  have apart : exchange.KeepsApart fleet.model := by decide +kernel
  have plain : exchange.Spaceless fleet.model := by decide +kernel
  have made : (Schema.generate fleet).isOk := by cbv
  obtain ⟨schema, made⟩ := except_isOk made
  refine ⟨apart, plain, ?_⟩
  rcases renamed_alike fleet exchange apart plain (.inl rfl) with same | ⟨e, _, failed, _⟩
  · exact same
  · rw [Source.artifact, made] at failed
    cases failed

end RdfXmlMapping
