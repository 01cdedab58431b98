import RdfXmlMapping.Artifact.Set
import RdfXmlMapping.Proofs.Model.Renaming
import RdfXmlMapping.Proofs.Schema.Particles
import RdfXmlMapping.Proofs.Text.Lines

/-!
Schemas of models with other identities. The tables that a schema is made with are searched by
identity only, so they match those for the renamed model, and all names that end up in the schema
are the same (`generate_alike`).
-/

namespace RdfXmlMapping

variable {r : Renaming} {m : Model} {c c' : Class}

/-! ### Keys of choices -/

theorem segments_intercalate {words : List String} (some : words ≠ [])
    (free : ∀ w ∈ words, ' ' ∉ w.toList) :
    Text.segments ' ' (" ".intercalate words).toList = words.map String.toList := by
  rw [String.toList_intercalate]
  refine (congrArg _ (Text.intercalate_eq_joinSegments ' ' _)).trans ?_
  refine Text.segments_joinSegments (List.map_eq_nil_iff.not.mpr some) ?_
  simpa using free

theorem intercalate_inj {words words' : List String} (some : words ≠ []) (some' : words' ≠ [])
    (free : ∀ w ∈ words, ' ' ∉ w.toList) (free' : ∀ w ∈ words', ' ' ∉ w.toList)
    (same : " ".intercalate words = " ".intercalate words') : words = words' := by
  have both := segments_intercalate some free
  rw [same, segments_intercalate some' free'] at both
  exact (List.map_injective_iff.mpr fun _ _ => String.toList_inj.mp) both.symm

namespace Renaming

/-- No identity of a class contains a space, neither before nor after the renaming. -/
def Spaceless (r : Renaming) (m : Model) : Prop :=
  ∀ a ∈ m.identities, ' ' ∉ a.toList ∧ ' ' ∉ (r.cls a).toList

def OnName (r : Renaming) (m : Model) (e e' : String × String) : Prop :=
  r.OnIri m e.1 e'.1 ∧ e'.2 = e.2

structure OnNames (r : Renaming) (m : Model) (t t' : ClassNames) : Prop where
  names : List.Forall₂ (r.OnName m) t.names t'.names
  taken : t'.taken = t.taken

/-- The type made up for a choice between some classes. -/
def OnPlaceholder (r : Renaming) (m : Model) (e e' : String × String) : Prop :=
  e'.2 = e.2 ∧ ∃ cs cs' : List Class, cs ≠ [] ∧ List.Forall₂ (r.OnClass m) cs cs' ∧
    e.1 = " ".intercalate (cs.map (·.iri)) ∧ e'.1 = " ".intercalate (cs'.map (·.iri))

inductive OnPending (r : Renaming) (m : Model) : Schema.Pending → Schema.Pending → Prop
  | type {c c' : Class} : r.OnClass m c c' → OnPending r m (.type c) (.type c')
  | group {c c' : Class} : r.OnClass m c c' → OnPending r m (.group c) (.group c')
  | placeholder (name : String) : OnPending r m (.placeholder name) (.placeholder name)

/-- What is known while a schema grows, for the model and for the renamed one. -/
structure OnProgress (r : Renaming) (m : Model) (s s' : Schema.Progress) : Prop where
  imports : s'.imports = s.imports
  names : r.OnNames m s.names s'.names
  types : List.Forall₂ (r.OnIri m) s.types s'.types
  groups : List.Forall₂ (r.OnIri m) s.groups s'.groups
  placeholders : List.Forall₂ (r.OnPlaceholder m) s.placeholders s'.placeholders
  pending : List.Forall₂ (r.OnPending m) s.pending s'.pending
  usesLanguageText : s'.usesLanguageText = s.usesLanguageText

variable (apart : r.KeepsApart m)

include apart

theorem onIri_biUnique : Relator.BiUnique (r.OnIri m) :=
  ⟨fun _ _ _ h h' => apart _ h.1 _ h'.1 (h.2.symm.trans h'.2),
    fun _ _ _ h h' => h.2.trans h'.2.symm⟩

theorem key_beq (plain : r.Spaceless m) {cs cs' ds ds' : List Class} (some : cs ≠ [])
    (some' : ds ≠ []) (h : List.Forall₂ (r.OnClass m) cs cs')
    (h' : List.Forall₂ (r.OnClass m) ds ds') :
    (" ".intercalate (cs'.map (·.iri)) == " ".intercalate (ds'.map (·.iri))) =
      (" ".intercalate (cs.map (·.iri)) == " ".intercalate (ds.map (·.iri))) := by
  have words {es es' : List Class} (h : List.Forall₂ (r.OnClass m) es es') (some : es ≠ []) :
      List.Forall₂ (r.OnIri m) (es.map (·.iri)) (es'.map (·.iri)) ∧ es.map (·.iri) ≠ [] ∧
        es'.map (·.iri) ≠ [] := by
    refine ⟨List.rel_map (fun _ _ related => related.iri) h, ?_⟩
    cases h with
    | nil => exact absurd rfl some
    | cons => exact ⟨List.cons_ne_nil _ _, List.cons_ne_nil _ _⟩
  obtain ⟨first, nonempty, nonempty₁⟩ := words h some
  obtain ⟨second, nonempty', nonempty₁'⟩ := words h' some'
  have free {ws ws' : List String} (h : List.Forall₂ (r.OnIri m) ws ws') :
      (∀ w ∈ ws, ' ' ∉ w.toList) ∧ ∀ w ∈ ws', ' ' ∉ w.toList := by
    refine ⟨fun w member => ?_, fun w member => ?_⟩
    · obtain ⟨_, _, known, _⟩ := forall₂_mem_left h member
      exact (plain w known).1
    · obtain ⟨a, _, known, rfl⟩ := forall₂_mem_right h member
      exact (plain a known).2
  have unique := (onIri_biUnique apart).forall₂
  rw [Bool.eq_iff_iff, beq_iff_eq, beq_iff_eq]
  constructor
  · intro same
    have new := intercalate_inj nonempty₁ nonempty₁' (free first).2 (free second).2 same
    rw [new] at first
    rw [unique.1 first second]
  · intro same
    have old := intercalate_inj nonempty nonempty' (free first).1 (free second).1 same
    rw [old] at first
    rw [unique.2 first second]

theorem OnNames.get {t t' : ClassNames} (names : r.OnNames m t t') (h : r.OnClass m c c') :
    t'.get c' = t.get c := by
  have found := forall₂_find? (f := (·.1 == c.iri)) (g := (·.1 == c'.iri)) names.names
    fun _ _ named => named.1.beq apart h.iri
  unfold ClassNames.get
  rw [h.label]
  generalize t.names.find? (·.1 == c.iri) = x, t'.names.find? (·.1 == c'.iri) = x' at found
  cases found with
  | none => rfl
  | some named => simp [named.2]

omit apart in
theorem OnNames.reserve {t t' : ClassNames} (names : r.OnNames m t t') (base : String) :
    (t'.reserve base).1 = (t.reserve base).1 ∧
      r.OnNames m (t.reserve base).2 (t'.reserve base).2 := by
  unfold ClassNames.reserve
  dsimp only
  rw [names.taken]
  exact ⟨rfl, names.names, rfl⟩

theorem OnNames.add {t t' : ClassNames} (names : r.OnNames m t t') (h : r.OnClass m c c') :
    r.OnNames m (t.add m c) (t'.add (m.rename r) c') := by
  have known : t'.names.any (·.1 == c'.iri) = t.names.any (·.1 == c.iri) :=
    forall₂_any names.names fun _ _ named => named.1.beq apart h.iri
  unfold ClassNames.add
  rw [known, h.isForeign, h.label]
  obtain ⟨name, more⟩ := names.reserve (toNCName c.label)
  split
  · exact names
  split
  · exact ⟨List.rel_append names.names (.cons ⟨h.iri, rfl⟩ .nil), names.taken⟩
  · exact ⟨List.rel_append more.names (.cons ⟨h.iri, name⟩ .nil), more.taken⟩

theorem ofModel_alike : r.OnNames m (.ofModel m) (.ofModel (m.rename r)) := by
  refine List.rel_foldl (P := r.OnNames m) ?_ ⟨.nil, rfl⟩ (onClasses r m)
  exact fun _ _ names _ _ h => names.add apart h

omit apart in
theorem OnClass.resolve (outlook : Import.Outlook) (h : r.OnClass m c c') :
    Alike (r.OnError m) Eq (outlook.resolve m c) (outlook.resolve (m.rename r) c') := by
  obtain ⟨known, rfl⟩ := h
  have foreign : (m.rename r).isForeign (c.rename r) = m.isForeign c := rfl
  have schema : (m.rename r).schemaOf (c.rename r) = m.schemaOf c := rfl
  have specification : (m.rename r).specificationOf (c.rename r) = m.specificationOf c := rfl
  unfold Import.Outlook.resolve
  rw [foreign, schema, specification]
  split
  · exact .ok rfl
  dsimp only
  split
  · exact .error (.unresolvedImport ..)
  · exact .ok rfl

end Renaming

/-! ### Steps -/

def Schema.Plan.rename (r : Renaming) (x : Schema.Plan) : Schema.Plan :=
  { x with model := x.model.rename r, extended := x.extended.map r.cls }

namespace Schema

open Renaming (OnProgress)

variable {x : Plan} (apart : r.KeepsApart x.model)

include apart

theorem extractionOf_alike (h : r.OnClass x.model c c') :
    (x.rename r).extractionOf c' = x.extractionOf c := by
  unfold Plan.extractionOf
  rw [show (x.rename r).model.isRoot c'.iri = x.model.isRoot c.iri from h.isRoot apart]
  rfl

theorem requestType_alike (h : r.OnClass x.model c c') :
    StepsAlike (r.OnError x.model) (r.OnProgress x.model) Eq (x.requestType c)
      ((x.rename r).requestType c') := by
  refine (StepsAlike.update fun s s' states => ?_).bind fun _ _ _ => ?_
  · rw [h.iri.contains apart states.types]
    split
    · exact states
    · exact { states with
        types := .cons h.iri states.types
        pending := List.rel_append states.pending (.cons (.type h) .nil) }
  · refine StepsAlike.get.bind fun s s' states => .pure ?_
    rw [states.names.get apart h]
    rfl

theorem requestGroup_alike (h : r.OnClass x.model c c') :
    StepsAlike (r.OnError x.model) (r.OnProgress x.model) Eq (x.requestGroup c)
      ((x.rename r).requestGroup c') := by
  refine (StepsAlike.update fun s s' states => ?_).bind fun _ _ _ => ?_
  · rw [h.iri.contains apart states.groups]
    split
    · exact states
    · exact { states with
        groups := .cons h.iri states.groups
        pending := List.rel_append states.pending (.cons (.group h) .nil) }
  · refine StepsAlike.get.bind fun s s' states => .pure ?_
    rw [states.names.get apart h]
    rfl

theorem importedType_alike (d : Import.Descriptor) (h : r.OnClass x.model c c') :
    StepsAlike (r.OnError x.model) (r.OnProgress x.model) Eq (x.importedType d c)
      ((x.rename r).importedType d c') := by
  refine StepsAlike.get.bind fun s s' states => ?_
  rw [states.imports, states.names.get apart h]
  refine (StepsAlike.set { states with imports := rfl }).bind fun _ _ _ => .pure ?_
  rfl

theorem typeOf_alike (h : r.OnClass x.model c c') :
    StepsAlike (r.OnError x.model) (r.OnProgress x.model) Eq (x.typeOf c)
      ((x.rename r).typeOf c') := by
  refine (StepsAlike.lift (h.resolve x.outlook)).bind fun d d' same => ?_
  obtain rfl := same
  cases d with
  | some d => exact importedType_alike apart d h
  | none => exact requestType_alike apart h

omit apart in
theorem plainType_alike {v v' : Primitive} (h : r.OnPrimitive x.model v v') :
    StepsAlike (r.OnError x.model) (r.OnProgress x.model) Eq (x.plainType v)
      ((x.rename r).plainType v') := by
  cases h with
  | codelist => exact .pure rfl
  | datatype iri =>
    unfold Plan.plainType
    dsimp only
    split
    · exact .pure rfl
    · refine (StepsAlike.update fun s s' states => ?_).bind fun _ _ _ => .pure rfl
      exact { states with usesLanguageText := rfl }

omit apart in
theorem plainParticle_alike (name : String) (occurs : Occurs) {vs vs' : List Primitive}
    (h : List.Forall₂ (r.OnPrimitive x.model) vs vs') :
    StepsAlike (r.OnError x.model) (r.OnProgress x.model) Eq (x.plainParticle name occurs vs)
      ((x.rename r).plainParticle name occurs vs') := by
  have several : vs'.map Plan.memberType = vs.map Plan.memberType :=
    (forall₂_map_eq (h.imp fun _ _ related => by cases related <;> rfl)).symm
  have union (vs : List Primitive) : StepsAlike (r.OnError x.model) (r.OnProgress x.model) Eq
      (pure (.union name occurs (vs.map Plan.memberType).eraseDups) : Build Particle)
      (pure (.union name occurs (vs.map Plan.memberType).eraseDups)) := .pure rfl
  cases h with
  | nil => exact union []
  | cons first rest =>
    cases rest with
    | nil => exact (plainType_alike first).bind fun _ _ same => .pure (by rw [same])
    | cons =>
      unfold Plan.plainParticle
      dsimp only
      rw [several]
      exact .pure rfl

theorem choiceType_alike (plain : r.Spaceless x.model) {plan plan' : ChoicePlan}
    (h : r.OnChoice x.model plan plan') :
    StepsAlike (r.OnError x.model) (r.OnProgress x.model) Eq (x.choiceType plan)
      ((x.rename r).choiceType plan') := by
  obtain ⟨some, candidates, base⟩ := h
  obtain ⟨cs, base₁⟩ := plan
  obtain ⟨cs', base₂⟩ := plan'
  unfold Plan.choiceType
  cases base with
  | rooted root derived =>
    refine (typeOf_alike apart root).bind fun base base' same => ?_
    obtain rfl := same
    exact (StepsAlike.mapM derived fun d d' related => typeOf_alike apart related.cls).bind
      fun _ _ _ => .pure rfl
  | placeholder label =>
    refine StepsAlike.get.bind fun s s' states => ?_
    have found := forall₂_find? (f := (·.1 == " ".intercalate (cs.map (·.iri))))
      (g := (·.1 == " ".intercalate (cs'.map (·.iri)))) states.placeholders ?_
    · dsimp only
      generalize s.placeholders.find? (·.1 == " ".intercalate (cs.map (·.iri))) = e,
        s'.placeholders.find? (·.1 == " ".intercalate (cs'.map (·.iri))) = e' at found
      cases found with
      | some known => exact .pure (by rw [known.1]; rfl)
      | none =>
        obtain ⟨name, names⟩ := states.names.reserve (toNCName label)
        dsimp only
        rw [name]
        refine (StepsAlike.set { states with
          names
          placeholders := List.rel_append states.placeholders
            (.cons ⟨rfl, cs, cs', some, candidates, rfl, rfl⟩ .nil)
          pending := List.rel_append states.pending (.cons (.placeholder _) .nil) }).bind
          fun _ _ _ => .pure rfl
    · rintro e e' ⟨-, ds, ds', some', others, key, key'⟩
      rw [key, key']
      exact Renaming.key_beq apart plain some' some others candidates

theorem member_alike (plain : r.Spaceless x.model) {path path' chain chain' : List String}
    (ways : List.Forall₂ (r.OnIri x.model) path path')
    (splices : List.Forall₂ (r.OnIri x.model) chain chain')
    (inner : ∀ iri iri', r.OnIri x.model iri iri' → x.model.canEnter path iri →
      ∀ ps ps', List.Forall₂ (r.OnProperty x.model) ps ps' →
        StepsAlike (r.OnError x.model) (r.OnProgress x.model) Eq
          (x.particles (iri :: path) [iri] ps) ((x.rename r).particles (iri' :: path') [iri'] ps'))
    (spliced : ∀ iri iri', r.OnIri x.model iri iri' → x.model.canEnter chain iri →
      ∀ ps ps', List.Forall₂ (r.OnProperty x.model) ps ps' →
        StepsAlike (r.OnError x.model) (r.OnProgress x.model) Eq
          (x.particles path (iri :: chain) ps) ((x.rename r).particles path' (iri' :: chain') ps'))
    {p p' : Property} (h : r.OnProperty x.model p p') :
    StepsAlike (r.OnError x.model) (r.OnProgress x.model) Eq (x.member path chain p)
      ((x.rename r).member path' chain' p') := by
  have shape := h.shape apart
  have target := h.spliceTarget apart
  obtain ⟨declared, rfl⟩ := h
  unfold Plan.member
  change StepsAlike _ _ _ _ (if p.isSpliced then _ else _)
  split
  · refine (StepsAlike.lift target).bind fun d d' found => ?_
    rw [show (x.rename r).model.canEnter chain' d'.iri = x.model.canEnter chain d.iri from
      found.iri.canEnter apart splices]
    split
    next way =>
      refine (StepsAlike.lift (found.effectiveProperties apart)).bind fun ps ps' own => ?_
      refine (spliced _ _ found.iri way ps ps' own).bind fun content content' same => .pure ?_
      rw [same]
      rfl
    next => exact .throw (.dematerializationCycle p.iri)
  · refine (StepsAlike.lift shape).bind fun shape shape' read => ?_
    cases read with
    | primitive vs =>
      dsimp only
      change StepsAlike _ _ _ _ (if p.isReverse then _ else _)
      split
      · exact .throw (.reversePrimitive p.iri)
      · exact (plainParticle_alike _ _ vs).bind fun _ _ same => .pure (by rw [same])
    | @single d d' found =>
      refine (StepsAlike.lift (found.resolve x.outlook)).bind fun imported imported' same => ?_
      obtain rfl := same
      rw [extractionOf_alike apart found, found.iri.contains apart ways,
        show (x.rename r).model.canEnter path' d'.iri = x.model.canEnter path d.iri from
          found.iri.canEnter apart ways]
      split
      · exact (typeOf_alike apart found).bind fun _ _ same => .pure (by rw [same]; rfl)
      split
      · exact (requestGroup_alike apart found).bind fun _ _ same => .pure (by rw [same]; rfl)
      split
      next way =>
        refine (StepsAlike.lift (found.effectiveProperties apart)).bind fun ps ps' own => ?_
        exact (inner _ _ found.iri way ps ps' own).bind fun _ _ same => .pure (by rw [same]; rfl)
      next => exact found.2 ▸ .throw (.unknownClass d.iri (.property declared))
    | choice plan =>
      exact (choiceType_alike apart plain plan).bind fun _ _ same => .pure (by rw [same]; rfl)

theorem particles_alike (plain : r.Spaceless x.model) (path : List String) :
    ∀ path', List.Forall₂ (r.OnIri x.model) path path' →
    ∀ chain chain', List.Forall₂ (r.OnIri x.model) chain chain' →
    ∀ ps ps', List.Forall₂ (r.OnProperty x.model) ps ps' →
      StepsAlike (r.OnError x.model) (r.OnProgress x.model) Eq (x.particles path chain ps)
        ((x.rename r).particles path' chain' ps') := by
  intro path' ways chain
  induction path, chain using content_induction x.model generalizing path' with
  | step path chain nested spliced =>
    intro chain' splices ps ps' properties
    rw [particles_eq, particles_eq]
    refine (StepsAlike.mapM properties fun p p' h => ?_).bind fun parts parts' same =>
      .pure (by rw [forall₂_eq same])
    refine member_alike apart plain ways splices ?_ ?_ h
    · exact fun iri iri' on way ps ps' own =>
        nested iri way _ (.cons on ways) _ (.cons on .nil) ps ps' own
    · exact fun iri iri' on way ps ps' own =>
        spliced iri way _ ways _ (.cons on splices) ps ps' own

theorem content_alike (plain : r.Spaceless x.model) (h : r.OnClass x.model c c') :
    StepsAlike (r.OnError x.model) (r.OnProgress x.model) Eq (x.content c)
      ((x.rename r).content c') := by
  refine (StepsAlike.lift (h.effectiveProperties apart)).bind fun ps ps' own => ?_
  refine (particles_alike apart plain [c.iri] [c'.iri] (.cons h.iri .nil) [c.iri] [c'.iri]
    (.cons h.iri .nil) ps ps' own).bind fun _ _ same => .pure (by rw [same])

theorem root_alike (plain : r.Spaceless x.model) (h : r.OnClass x.model c c') :
    StepsAlike (r.OnError x.model) (r.OnProgress x.model) Eq (x.root c)
      ((x.rename r).root c') := by
  have element : Model.elementName c' = Model.elementName c := congrArg toNCName h.label
  have title : c'.title = c.title := h.2 ▸ rfl
  unfold Plan.root
  refine (StepsAlike.lift (h.resolve x.outlook)).bind fun imported imported' same => ?_
  obtain rfl := same
  rw [extractionOf_alike apart h, element, title]
  have ends (content : RootContent) : StepsAlike (r.OnError x.model) (r.OnProgress x.model) Eq
      (pure (.root (Model.elementName c) c.title content) : Build Declaration)
      (pure (.root (Model.elementName c) c.title content)) := .pure rfl
  split
  · refine ((typeOf_alike apart h).map (S := Eq) fun _ _ same => congrArg _ same).bind ?_
    rintro content _ rfl
    exact ends content
  split
  · refine ((requestGroup_alike apart h).map (S := Eq) fun _ _ same => congrArg _ same).bind ?_
    rintro content _ rfl
    exact ends content
  · refine ((content_alike apart plain h).map (S := Eq) fun _ _ same => congrArg _ same).bind ?_
    rintro content _ rfl
    exact ends content

/-! ### Declarations -/

/-- The classes of the plan that are declared as extensions occur in its model. -/
def Plan.Extends (x : Plan) : Prop := ∀ a ∈ x.extended, a ∈ x.model.identities

theorem extensionBase_alike (extends_ : x.Extends) (h : r.OnClass x.model c c') :
    Alike (r.OnError x.model) (Option.Rel (r.OnClass x.model)) (x.extensionBase c)
      ((x.rename r).extensionBase c') := by
  have extended : List.Forall₂ (r.OnIri x.model) x.extended (x.rename r).extended :=
    forall₂_map fun a member => ⟨extends_ a member, rfl⟩
  unfold Plan.extensionBase
  rw [h.iri.contains apart extended]
  split
  · exact h.parent apart
  · exact .ok .none

theorem declare_alike (plain : r.Spaceless x.model) (extends_ : x.Extends) {p p' : Pending}
    (h : r.OnPending x.model p p') :
    StepsAlike (r.OnError x.model) (r.OnProgress x.model) Eq (x.declare p)
      ((x.rename r).declare p') := by
  cases h with
  | placeholder name => exact .pure rfl
  | @group c c' h =>
    refine StepsAlike.get.bind fun s s' states => ?_
    rw [states.names.get apart h]
    exact (content_alike apart plain h).bind fun _ _ same => .pure (by rw [same])
  | @type c c' h =>
    have title : c'.title = c.title := h.2 ▸ rfl
    refine StepsAlike.get.bind fun s s' states => ?_
    rw [states.names.get apart h, title]
    refine (StepsAlike.lift (extensionBase_alike apart extends_ h)).bind fun _ _ base => ?_
    cases base with
    | none => exact (content_alike apart plain h).bind fun _ _ same => .pure (by rw [same])
    | some parent =>
      refine (typeOf_alike apart parent).bind fun _ _ same => ?_
      refine (particles_alike apart plain [c.iri] [c'.iri] (.cons h.iri .nil) [c.iri] [c'.iri]
        (.cons h.iri .nil) _ _ h.properties).bind fun _ _ same' => .pure (by rw [same, same'])

theorem drain_alike (plain : r.Spaceless x.model) (extends_ : x.Extends) (fuel : Nat) :
    StepsAlike (r.OnError x.model) (r.OnProgress x.model) Eq (x.drain fuel)
      ((x.rename r).drain fuel) := by
  induction fuel with
  | zero => exact .pure rfl
  | succ fuel ih =>
    refine StepsAlike.get.bind fun s s' states => ?_
    have pending := states.pending
    generalize s.pending = ps, s'.pending = ps' at pending
    cases pending with
    | nil => exact .pure rfl
    | cons next rest =>
      refine (StepsAlike.update fun t t' states => { states with pending := rest }).bind
        fun _ _ _ => ?_
      refine (declare_alike apart plain extends_ next).bind fun d d' same => ?_
      exact ih.bind fun ds ds' same' => .pure (by rw [same, same'])

omit apart in
theorem declarationLimit_rename (r : Renaming) (m : Model) :
    Plan.declarationLimit (m.rename r) = Plan.declarationLimit m := by
  simp [Plan.declarationLimit, Model.propertyCount, Model.rename, Class.rename, List.flatMap_map]

theorem declarations_alike (plain : r.Spaceless x.model) (extends_ : x.Extends) :
    StepsAlike (r.OnError x.model) (r.OnProgress x.model) Eq x.declarations
      (x.rename r).declarations := by
  unfold Plan.declarations
  refine (StepsAlike.lift (Renaming.rootClasses_alike apart)).bind fun cs cs' found => ?_
  refine (StepsAlike.mapM found fun c c' h => root_alike apart plain h).bind
    fun roots roots' same => ?_
  rw [show (x.rename r).model = x.model.rename r from rfl, declarationLimit_rename]
  refine (drain_alike apart plain extends_ _).bind fun others others' same' => ?_
  refine StepsAlike.get.bind fun s s' states => .pure ?_
  rw [forall₂_eq same, same', states.usesLanguageText]

/-! ### Schemas -/

omit apart in
theorem describedClasses_alike (r : Renaming) (m : Model) :
    List.Forall₂ (r.OnClass m) m.describedClasses (m.rename r).describedClasses :=
  forall₂_filter (Renaming.onClasses r m) fun c c' h => by rw [h.isForeign, h.2]; rfl

omit apart in
theorem derivedIn_alike (apart : r.KeepsApart m) {p p' : Property} (h : r.OnProperty m p p') :
    Alike (r.OnError m) (List.Forall₂ (r.OnIri m)) (derivedIn m p) (derivedIn (m.rename r) p') := by
  refine (h.shape apart).bind fun shape shape' read => ?_
  cases read with
  | primitive _ | single _ => exact .ok .nil
  | @choice plan plan' related =>
    have derived : List.Forall₂ (r.OnDerivation m) plan.derived plan'.derived := by
      have base := related.base
      unfold ChoicePlan.derived
      generalize plan.base = b, plan'.base = b' at base
      cases base with
      | rooted _ derived => exact derived
      | placeholder => exact .nil
    have own : List.Forall₂ (r.OnDerivation m) (plan.derived.filter (!m.isForeign ·.cls))
        (plan'.derived.filter (!(m.rename r).isForeign ·.cls)) :=
      forall₂_filter derived fun d d' h => by rw [h.cls.isForeign]
    exact .ok (List.rel_map (fun _ _ h => h.cls.iri) own)

omit apart in
theorem extendedClasses_alike (apart : r.KeepsApart m) :
    Alike (r.OnError m) (List.Forall₂ (r.OnIri m)) (extendedClasses m)
      (extendedClasses (m.rename r)) := by
  have properties := forall₂_flatMap (describedClasses_alike r m) fun _ _ h => h.properties
  exact (Alike.mapM properties fun p p' h => derivedIn_alike apart h).bind fun _ _ derived =>
    .ok (List.rel_flatten derived)

omit apart in
/-- The schema of a model and that of the renamed one are the same. -/
theorem generate_alike {s : Source} (apart : r.KeepsApart s.model) (plain : r.Spaceless s.model) :
    Alike (r.OnError s.model) Eq (generate s) (generate (s.rename r)) := by
  refine (Renaming.checkSplicing_alike apart).bind fun _ _ _ => ?_
  refine (extendedClasses_alike apart).bind fun extended extended' related => ?_
  let x : Plan := {
    model := s.model, extraction := s.config.extraction, outlook := s.outlook .schema
    target := s.model.target?, extended }
  have renamed : extended.map r.cls = extended' := by
    have same := forall₂_map_eq (f := r.cls) (g := id) (related.imp fun _ _ h => h.2.symm)
    rwa [List.map_id] at same
  have extends_ : x.Extends := fun a member => by
    obtain ⟨_, _, known, _⟩ := forall₂_mem_left related member
    exact known
  have run := declarations_alike (x := x) apart plain extends_
    { imports := { reserved := reservedPrefixes s.model.target? }, names := .ofModel s.model }
    { imports := { reserved := reservedPrefixes s.model.target? }
      names := .ofModel (s.model.rename r) }
    ⟨rfl, Renaming.ofModel_alike apart, .nil, .nil, .nil, .nil, rfl⟩
  rw [← renamed]
  refine Alike.bind run fun a a' both => ?_
  obtain ⟨ds, final⟩ := a
  obtain ⟨ds', final'⟩ := a'
  obtain ⟨rfl, states⟩ := both
  dsimp only
  rw [← states.imports, ← states.usesLanguageText]
  exact .ok rfl

end Schema

end RdfXmlMapping
