import RdfXmlMapping.Proofs.Model.Repetition
import RdfXmlMapping.Proofs.Schema.Redeclare

/-!
Schemas of models in which data of properties are repeated. A list of plain values is never refused,
whatever it holds, so the generation takes the same way; only the types of elements with plain
values may differ (`generate_repeats`).
-/

namespace RdfXmlMapping.Schema

variable {x : Plan} {f : Class → List Property} {p q : Property} {c : Class}

def Pending.map (g : Class → Class) : Pending → Pending
  | .type c => .type (g c)
  | .group c => .group (g c)
  | .placeholder name => .placeholder name

/-- What is known while the two schemas grow. Texts with a language may occur in one of them
only. -/
structure Alongside (f : Class → List Property) (s s' : Progress) : Prop where
  imports : s'.imports = s.imports
  names : s'.names = s.names
  types : s'.types = s.types
  groups : s'.groups = s.groups
  placeholders : s'.placeholders = s.placeholders
  pending : s'.pending = s.pending.map (·.map (Class.redeclare f))

/-- Steps that go alike for a model and the one with the properties `f`. -/
abbrev GoAlike {α : Type} (f : Class → List Property) (R : α → α → Prop) :
    Build α → Build α → Prop :=
  StepsAlike Eq (Alongside f) R

/-! ### Types -/

theorem requestType_repeats :
    GoAlike f Eq (x.requestType c) ((x.redeclare f).requestType (c.redeclare f)) := by
  refine (StepsAlike.update fun s s' states => ?_).bind fun _ _ _ => ?_
  · rw [states.types, Class.redeclare_iri]
    split
    · exact states
    · exact { states with
        types := rfl
        pending := by rw [states.pending, List.map_append]; rfl }
  · refine StepsAlike.get.bind fun s s' states => .pure ?_
    rw [states.names, ClassNames.get_redeclare]
    rfl

theorem requestGroup_repeats :
    GoAlike f Eq (x.requestGroup c) ((x.redeclare f).requestGroup (c.redeclare f)) := by
  refine (StepsAlike.update fun s s' states => ?_).bind fun _ _ _ => ?_
  · rw [states.groups, Class.redeclare_iri]
    split
    · exact states
    · exact { states with
        groups := rfl
        pending := by rw [states.pending, List.map_append]; rfl }
  · refine StepsAlike.get.bind fun s s' states => .pure ?_
    rw [states.names, ClassNames.get_redeclare]
    rfl

theorem importedType_repeats (d : Import.Descriptor) :
    GoAlike f Eq (x.importedType d c) ((x.redeclare f).importedType d (c.redeclare f)) := by
  refine StepsAlike.get.bind fun s s' states => ?_
  rw [states.imports, states.names, ClassNames.get_redeclare]
  exact (StepsAlike.set { states with imports := rfl, names := rfl }).bind fun _ _ _ => .pure rfl

theorem typeOf_repeats :
    GoAlike f Eq (x.typeOf c) ((x.redeclare f).typeOf (c.redeclare f)) := by
  refine (StepsAlike.lift (R := Eq) ?_).bind fun found found' same => ?_
  · change Alike Eq Eq _ (x.outlook.resolve (x.model.redeclare f) (c.redeclare f))
    rw [Import.Outlook.resolve_redeclare]
    exact .refl
  · subst same
    cases found with
    | some d => exact importedType_repeats d
    | none => exact requestType_repeats

/-- The type of an element with plain values can be made from any list of them. -/
theorem plainParticle_runs (name : String) (occurs : Occurs) (vs : List Primitive) (s : Progress) :
    ∃ particle used, x.plainParticle name occurs vs s =
      .ok (particle, { s with usesLanguageText := used }) := by
  unfold Plan.plainParticle
  split
  next one =>
    cases one with
    | codelist c => exact ⟨_, _, rfl⟩
    | datatype iri =>
      unfold Plan.plainType
      dsimp only
      cases SchemaType.ofDatatype iri with
      | builtin local_ => exact ⟨_, _, rfl⟩
      | languageText => exact ⟨_, true, rfl⟩
  next => exact ⟨_, _, rfl⟩

theorem plainParticle_repeats (name : String) (occurs : Occurs) (vs ws : List Primitive) :
    GoAlike f (fun _ _ => True) (x.plainParticle name occurs vs)
      ((x.redeclare f).plainParticle name occurs ws) := by
  intro s s' states
  obtain ⟨_, _, run⟩ := plainParticle_runs (x := x) name occurs vs s
  obtain ⟨_, _, run'⟩ := plainParticle_runs (x := x.redeclare f) name occurs ws s'
  rw [run, run']
  exact .ok ⟨trivial, { states with }⟩

theorem derivedTypes_repeats (derived : List Derivation) :
    GoAlike f (List.Forall₂ Eq) (derived.mapM fun d => x.typeOf d.cls)
      ((derived.map (·.map (Class.redeclare f))).mapM fun d => (x.redeclare f).typeOf d.cls) := by
  refine StepsAlike.mapM (R := fun d d' => d' = d.map (Class.redeclare f))
    (forall₂_map fun d _ => rfl) ?_
  rintro d _ rfl
  exact typeOf_repeats

theorem choiceType_repeats (plan : ChoicePlan) : GoAlike f Eq (x.choiceType plan)
    ((x.redeclare f).choiceType (plan.map (Class.redeclare f))) := by
  obtain ⟨candidates, base⟩ := plan
  unfold Plan.choiceType
  cases base with
  | rooted root derived =>
    refine typeOf_repeats.bind fun base base' same => ?_
    exact (derivedTypes_repeats derived).bind fun _ _ _ => .pure same
  | placeholder label =>
    have iris : (candidates.map (Class.redeclare f)).map (·.iri) = candidates.map (·.iri) :=
      List.map_map
    refine StepsAlike.get.bind fun s s' states => ?_
    dsimp only [ChoicePlan.map, ChoiceBase.map]
    rw [iris, states.placeholders]
    split
    · exact .pure rfl
    · rw [states.names]
      refine (StepsAlike.set { states with
        names := rfl
        placeholders := rfl
        pending := by rw [states.pending, List.map_append]; rfl }).bind fun _ _ _ => .pure rfl

/-! ### Content -/

theorem member_repeats (again : Repeating f) {path chain : List String}
    (inner : ∀ iri, x.model.canEnter path iri → ∀ ps qs, List.Forall₂ Property.Repeats ps qs →
      GoAlike f (fun _ _ => True) (x.particles (iri :: path) [iri] ps)
        ((x.redeclare f).particles (iri :: path) [iri] qs))
    (spliced : ∀ iri, x.model.canEnter chain iri → ∀ ps qs, List.Forall₂ Property.Repeats ps qs →
      GoAlike f (fun _ _ => True) (x.particles path (iri :: chain) ps)
        ((x.redeclare f).particles path (iri :: chain) qs)) (h : p.Repeats q) :
    GoAlike f (fun _ _ => True) (x.member path chain p) ((x.redeclare f).member path chain q) := by
  have target : (x.redeclare f).model.spliceTarget q =
    Class.redeclare f <$> x.model.spliceTarget p := Model.spliceTarget_repeats h
  have shape := Model.shapeOf_redeclare_repeats (m := x.model) (f := f) h
  have enters (path : List String) (c : Class) : (x.redeclare f).model.canEnter path
    (c.redeclare f).iri = x.model.canEnter path c.iri := Model.canEnter_redeclare path c.iri
  have own (c : Class) : Alike Eq (List.Forall₂ Property.Repeats) (x.model.effectiveProperties c)
    ((x.redeclare f).model.effectiveProperties (c.redeclare f)) :=
      Model.effectiveProperties_repeats again
  obtain ⟨ts, rfl⟩ : ∃ ts, q = { p with types := ts } := ⟨_, h.fields⟩
  unfold Plan.member
  rw [target, lift_map_bind]
  change GoAlike _ _ _ (if p.isSpliced then _ else _)
  split
  · refine (StepsAlike.lift .refl).bind ?_
    rintro d _ rfl
    rw [enters]
    split
    next way =>
      refine (StepsAlike.lift (own d)).bind fun ps qs own => ?_
      exact (spliced _ way ps qs own).bind fun _ _ _ => .pure trivial
    next => exact .throw rfl
  · refine (StepsAlike.lift shape).bind ?_
    rintro shape _ ⟨read, repeated, rfl⟩
    have plain (vs ws : List Primitive) : GoAlike f (fun _ _ => True)
        (do
          if p.isReverse then throw (.reversePrimitive p.iri)
          return [← x.plainParticle (toNCName p.label) (occursOf p) vs])
        (do
          if p.isReverse then throw (.reversePrimitive p.iri)
          return [← (x.redeclare f).plainParticle (toNCName p.label) (occursOf p) ws]) := by
      split
      · exact .throw rfl
      · exact (plainParticle_repeats _ _ vs ws).bind fun _ _ _ => .pure trivial
    cases repeated with
    | further given _ =>
      rw [given]
      exact plain _ _
    | same =>
      cases shape with
      | primitive vs => exact plain vs _
      | choice plan => exact (choiceType_repeats plan).bind fun _ _ _ => .pure trivial
      | single d =>
        dsimp only [Shape.map]
        refine (StepsAlike.lift .refl).bind (R := Eq) ?_
        rintro imported _ rfl
        rw [enters, Class.redeclare_iri]
        change GoAlike _ _ _ (if imported.isSome || (x.extractionOf d).namedType ||
          path.contains d.iri then _ else if (x.extractionOf d).group then _ else _)
        split
        · exact typeOf_repeats.bind fun _ _ _ => .pure trivial
        split
        · exact requestGroup_repeats.bind fun _ _ _ => .pure trivial
        split
        next way =>
          refine (StepsAlike.lift (own d)).bind fun ps qs own => ?_
          exact (inner _ way ps qs own).bind fun _ _ _ => .pure trivial
        next => exact .throw rfl

theorem particles_repeats (again : Repeating f) (path : List String) :
    ∀ chain ps qs, List.Forall₂ Property.Repeats ps qs → GoAlike f (fun _ _ => True)
      (x.particles path chain ps) ((x.redeclare f).particles path chain qs) := by
  intro chain
  induction path, chain using content_induction x.model with
  | step path chain nested spliced =>
    intro ps qs own
    rw [particles_eq, particles_eq]
    refine (StepsAlike.mapM (S := fun _ _ => True) own fun p q h => ?_).bind
      fun _ _ _ => .pure trivial
    exact member_repeats again nested spliced h

theorem content_repeats (again : Repeating f) : GoAlike f (fun _ _ => True) (x.content c)
    ((x.redeclare f).content (c.redeclare f)) := by
  refine (StepsAlike.lift (Model.effectiveProperties_repeats again)).bind fun ps qs own => ?_
  exact (particles_repeats again _ _ ps qs own).bind fun _ _ _ => .pure trivial

theorem root_repeats (again : Repeating f) : GoAlike f (fun _ _ => True) (x.root c)
    ((x.redeclare f).root (c.redeclare f)) := by
  unfold Plan.root
  refine (StepsAlike.lift .refl).bind (R := Eq) ?_
  rintro imported _ rfl
  have ends (content content' : RootContent) : GoAlike f (fun _ _ => True)
      (pure (.root (Model.elementName c) c.title content) : Build Declaration)
      (pure (.root (Model.elementName c) c.title content')) := .pure trivial
  change GoAlike _ _ _ (if imported.isSome || (x.extractionOf c).namedType then _
    else if (x.extractionOf c).group then _ else _)
  split
  · exact (typeOf_repeats.map (S := fun _ _ => True) fun _ _ _ => trivial).bind
      fun _ _ _ => ends _ _
  split
  · exact (requestGroup_repeats.map (S := fun _ _ => True) fun _ _ _ => trivial).bind
      fun _ _ _ => ends _ _
  · exact ((content_repeats again).map (S := fun _ _ => True) fun _ _ _ => trivial).bind
      fun _ _ _ => ends _ _

/-! ### Declarations -/

theorem extensionBase_repeats : (x.redeclare f).extensionBase (c.redeclare f) =
    Option.map (Class.redeclare f) <$> x.extensionBase c := by
  unfold Plan.extensionBase
  change (if x.extended.contains c.iri then
    (x.model.redeclare f).parent? (c.redeclare f) else _) = _
  rw [Model.parent?_redeclare]
  split <;> rfl

theorem declare_repeats (again : Repeating f) (p : Pending) : GoAlike f (fun _ _ => True)
    (x.declare p) ((x.redeclare f).declare (p.map (Class.redeclare f))) := by
  cases p with
  | placeholder name => exact .pure trivial
  | group c =>
    refine StepsAlike.get.bind fun s s' states => ?_
    exact (content_repeats again).bind fun _ _ _ => .pure trivial
  | type c =>
    refine StepsAlike.get.bind fun s s' states => ?_
    rw [extensionBase_repeats, lift_map_bind]
    refine (StepsAlike.lift .refl).bind ?_
    rintro base _ rfl
    cases base with
    | none => exact (content_repeats again).bind fun _ _ _ => .pure trivial
    | some parent =>
      refine typeOf_repeats.bind fun _ _ _ => ?_
      exact (particles_repeats again _ _ _ _ (again c)).bind fun _ _ _ => .pure trivial

theorem drain_repeats (again : Repeating f) (fuel : Nat) :
    GoAlike f (fun _ _ => True) (x.drain fuel) ((x.redeclare f).drain fuel) := by
  induction fuel with
  | zero => exact .pure trivial
  | succ fuel ih =>
    refine StepsAlike.get.bind fun s s' states => ?_
    rw [states.pending]
    cases s.pending with
    | nil => exact .pure trivial
    | cons next rest =>
      refine (StepsAlike.update fun t t' states => { states with pending := rfl }).bind
        fun _ _ _ => ?_
      exact (declare_repeats again next).bind fun _ _ _ => ih.bind fun _ _ _ => .pure trivial

theorem declarations_repeats (again : Repeating f) :
    GoAlike f (fun _ _ => True) x.declarations (x.redeclare f).declarations := by
  have limit : Plan.declarationLimit (x.redeclare f).model = Plan.declarationLimit x.model := by
    change Plan.declarationLimit (x.model.redeclare f) = _
    simp [Plan.declarationLimit, Model.propertyCount_repeats again]
  have roots : (x.redeclare f).model.rootClasses =
    List.map (Class.redeclare f) <$> x.model.rootClasses := Model.rootClasses_redeclare
  unfold Plan.declarations
  rw [limit, roots, lift_map_bind]
  refine (StepsAlike.lift .refl).bind ?_
  rintro cs _ rfl
  refine (StepsAlike.mapM (S := fun _ _ => True) (forall₂_redeclare f cs) ?_).bind fun _ _ _ => ?_
  · rintro c _ rfl
    exact root_repeats again
  refine (drain_repeats again _).bind fun _ _ _ => ?_
  exact StepsAlike.get.bind fun s s' states => .pure trivial

/-! ### Schemas -/

theorem derivedIn_repeats {m : Model} (h : p.Repeats q) :
    derivedIn (m.redeclare f) q = derivedIn m p := by
  rw [derivedIn_redeclare]
  refine (Alike.eq ((Model.shapeOf_repeats h).bind fun shape again repeated => ?_)).symm
  cases repeated with
  | same => exact .refl
  | further given _ =>
    rw [given]
    exact .refl

theorem extendedClasses_repeats {m : Model} (again : Repeating f) :
    extendedClasses (m.redeclare f) = extendedClasses m := by
  have described : (m.redeclare f).describedClasses = m.describedClasses.map (Class.redeclare f) :=
    List.filter_map
  have properties : List.Forall₂ Property.Repeats (m.describedClasses.flatMap (·.properties))
      ((m.redeclare f).describedClasses.flatMap (·.properties)) := by
    rw [described]
    refine List.rel_flatMap (forall₂_redeclare f m.describedClasses) ?_
    rintro c _ rfl
    exact again c
  unfold extendedClasses
  refine (Alike.eq ((Alike.mapM (S := Eq) properties fun p q h => ?_).bind ?_)).symm
  · rw [derivedIn_repeats h]
    exact .refl
  · intro lists lists' same
    rw [forall₂_eq same]
    exact .refl

/-- A schema can be made with further copies of data if it can without them; else both are refused
for the same cause. -/
theorem generate_repeats {s : Source} (again : Repeating f) :
    Alike Eq (fun _ _ => True) (generate s) (generate (s.redeclare f)) := by
  have spliced : (s.redeclare f).model.checkSplicing = s.model.checkSplicing :=
    Model.checkSplicing_redeclare (Model.splices_repeats again)
  have extended : extendedClasses (s.redeclare f).model = extendedClasses s.model :=
    extendedClasses_repeats again
  unfold generate unchecked
  rw [spliced, extended, initial_redeclare]
  refine Alike.refl.bind fun _ _ _ => Alike.refl.bind ?_
  rintro extended _ rfl
  have run := declarations_repeats (x := planOf s extended) again (initial s) (initial s)
    ⟨rfl, rfl, rfl, rfl, rfl, rfl⟩
  exact Alike.bind run fun _ _ _ => .ok trivial

end RdfXmlMapping.Schema
