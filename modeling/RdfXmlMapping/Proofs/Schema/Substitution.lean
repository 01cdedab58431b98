import Mathlib
import RdfXmlMapping.Proofs.Schema.Declared
import RdfXmlMapping.Proofs.TypeNames

/-!
Whether the candidates of a choice can stand for its root. A derived candidate can if its type goes
on from that of its parent. Which types do is found out from the properties of described classes,
while choices are also written for properties inherited from a class that is not described.
-/

namespace RdfXmlMapping.Schema

open Xml (QName)

/-- A particle that is written for a property while the schema of a source grows. -/
inductive Writes (s : Source) (p : Property) (particle : Particle) : Prop
  | made {extended : List String} {ds : List Declaration} {final : Progress}
      {path chain : List String} : RunOf s extended ds final →
      Placed (planOf s extended) final path chain p [particle] → Writes s p particle

/-- The type declared for a derived candidate goes on from the type of its parent. -/
def ExtendsParent (s : Source) (schema : Schema) (d : Derivation) : Prop :=
  ∃ title base content,
    .extension ((ClassNames.ofModel s.model).get d.cls) title base content ∈ schema.declarations ∧
      NamesType s schema d.parent base

/-- A derived candidate of some choice that a described class declares. -/
def DerivedByDescribed (m : Model) (c : Class) : Prop :=
  ∃ owner ∈ m.describedClasses, ∃ p ∈ owner.properties, ∃ plan,
    m.shapeOf p = .ok (.choice plan) ∧ ∃ d ∈ plan.derived, d.cls = c

/-! ### The classes that are declared as extensions -/

theorem mem_derivedIn {m : Model} {p : Property} {iris : List String} {iri : String}
    (h : derivedIn m p = .ok iris) : iri ∈ iris ↔ ∃ plan, m.shapeOf p = .ok (.choice plan) ∧
      ∃ d ∈ plan.derived, m.isForeign d.cls = false ∧ d.cls.iri = iri := by
  obtain ⟨shape, read, h⟩ := except_bind_ok h
  cases shape with
  | choice plan =>
    obtain rfl := Except.ok.inj h
    simp [read, and_assoc]
  | primitive _ | single _ =>
    obtain rfl := Except.ok.inj h
    simp [read]

theorem mem_extendedClasses {m : Model} {extended : List String} {c : Class}
    (h : extendedClasses m = .ok extended) (owned : m.Owns c) :
    c.iri ∈ extended ↔ DerivedByDescribed m c := by
  obtain ⟨parts, each, h⟩ := except_bind_ok h
  obtain rfl := Except.ok.inj h
  have each := except_mapM_ok each
  rw [List.mem_flatten]
  constructor
  · rintro ⟨part, among, present⟩
    obtain ⟨p, declared, read⟩ := forall₂_mem_right each among
    obtain ⟨owner, described, declares⟩ := List.mem_flatMap.mp declared
    obtain ⟨plan, shape, d, derived, _, same⟩ := (mem_derivedIn read).mp present
    obtain ⟨known, grounded⟩ := Model.shapeOf_leads shape
    refine ⟨owner, described, p, declares, plan, shape, d, derived, ?_⟩
    exact Model.knows_eq (known _ (grounded.candidate d derived)).1 owned.1 same
  · rintro ⟨owner, described, p, declares, plan, shape, d, derived, rfl⟩
    obtain ⟨part, among, read⟩ :=
      forall₂_mem_left each (List.mem_flatMap.mpr ⟨owner, described, declares⟩)
    exact ⟨part, among, (mem_derivedIn read).mpr ⟨plan, shape, d, derived, owned.2, rfl⟩⟩

variable {s : Source} {schema : Schema}

/-- A class whose type is asked for is declared as an extension of its parent exactly if it is among
those found before. -/
theorem History.extends_iff (o : History s schema) {d : Derivation} (owned : s.model.Owns d.cls)
    (parent : s.model.parent? d.cls = .ok (some d.parent))
    (requested : o.final.Requested (.type d.cls)) :
    ExtendsParent s schema d ↔ d.cls.iri ∈ o.plan.extended := by
  have name : o.final.names.get d.cls = (ClassNames.ofModel s.model).get d.cls := by
    rw [o.kept.get, o.model]
  obtain ⟨e, present, declared⟩ := o.type_declared (o.model ▸ owned) requested
  have found : o.plan.extensionBase d.cls =
      if d.cls.iri ∈ o.plan.extended then .ok (some d.parent) else .ok none := by
    rw [Plan.extensionBase, o.model, parent]
    simp only [List.contains_iff_mem]
  cases declared with
  | whole plain _ =>
    rw [found] at plain
    split at plain
    · cases plain
    next absent =>
      refine (iff_false_left ?_).mpr absent
      rintro ⟨title, base, content, other, _⟩
      have same := o.bears_unique (.inl rfl) present other ⟨rfl, rfl⟩ (name ▸ ⟨rfl, rfl⟩)
      cases same
  | @extending c base content extension based _ =>
    rw [found] at extension
    split at extension
    next among =>
      obtain rfl := Option.some.inj (Except.ok.inj extension)
      rw [name] at present
      exact iff_of_true ⟨_, base, content, present, o.namesType based⟩ among
    · cases extension

/-- For every choice that a schema writes an element for, the element has the type of the root, and
each candidate of the model's own specification that derives from the root has exactly one type. It
goes on from the type of the candidate's parent exactly if the candidate derives in some choice that
a described class declares. -/
theorem choices_substitutable_iff (h : generate s = .ok schema) {p : Property} {particle : Particle}
    (written : Writes s p particle) {plan : ChoicePlan}
    (shape : s.model.shapeOf p = .ok (.choice plan)) {root : Class} {derived : List Derivation}
    (base : plan.base = .rooted root derived) {d : Derivation} (derivation : d ∈ derived)
    (own : s.model.isForeign d.cls = false) :
    (∃ q, particle = .element (toNCName p.label) q (occursOf p) ∧ NamesType s schema root q) ∧
      (topLevel "xs:complexType" (toXml schema).children).count
        ((ClassNames.ofModel s.model).get d.cls) = 1 ∧
      (ExtendsParent s schema d ↔ DerivedByDescribed s.model d.cls) := by
  obtain ⟨run, _, _, made, grows⟩ := written
  obtain ⟨o, same, rfl⟩ := generate_history h run
  obtain ⟨known, grounded⟩ := Model.shapeOf_leads shape
  have among : d ∈ plan.derived := by rwa [ChoicePlan.derived, base]
  have owned : s.model.Owns d.cls := ⟨(known _ (grounded.candidate d among)).1, own⟩
  generalize content : [particle] = content at made
  cases member_ok made with
  | spliced _ target => cases shape.symm.trans (Model.spliceTarget_single target).1
  | plain _ read _ | typed _ read _ | grouped _ read _ _ | nested _ read _ _ =>
    cases shape.symm.trans read
  | choice _ read call =>
    obtain rfl := List.singleton_inj.mp content
    obtain rfl := Shape.choice.inj (Except.ok.inj (shape.symm.trans read))
    obtain ⟨_, named, others⟩ := rootedType_step known grounded base call
    obtain ⟨r, other⟩ := others d derivation
    rw [← same] at named other
    have requested := (other.mono grows).requested (o.model ▸ own)
    have once := o.declared_once (p := .type d.cls) (o.model ▸ owned) requested
    rw [Pending.name, o.kept.get, o.model] at once
    refine ⟨⟨_, rfl, o.namesType (named.mono grows)⟩, once, ?_⟩
    rw [o.extends_iff owned (Model.shapeOf_derived shape d among).1 requested, same]
    exact mem_extendedClasses run.classes owned

/-! ### The animals of a keeper -/

def kept : Property :=
  { ((Property.make "animal" "https://ex.org/animal").association "Animal").association "Dog" with
    iri := "Place/animal" }

def animal : Class := Class.make "Animal" "Animal"

def dog : Class := (Class.make "Dog" "Dog").extending "Animal"

def keeper : Class := (Class.make "Keeper" "Keeper").extending "Place"

/-- A keeper inherits an animal from a place, which may belong to another specification. -/
def kennel (foreign : Bool) : Source :=
  { model := (Model.make "kennel" "own").rootedAt ["Keeper"]
      |>.declaring keeper
      |>.declaring ({ Class.make "Place" "Place" with
        specification := if foreign then some "other" else none }.declaring kept)
      |>.declaring animal |>.declaring dog
    manifests := []
    config := {} }

def dogType (foreign : Bool) : Declaration :=
  if foreign then .complexType "Dog" {} [.identity] else .extension "Dog" {} ⟨none, "Animal"⟩ []

def kennelSchema (foreign : Bool) : Schema :=
  { target := none, importsXml := false, imports := []
    declarations := [
      .root "Keeper" {} (.nested [.identity, .element "animal" ⟨none, "Animal"⟩ ⟨1, some 1⟩]),
      .complexType "Animal" {} [.identity], dogType foreign] }

set_option maxRecDepth 20000 in
theorem generate_kennel (foreign : Bool) :
    generate (kennel foreign) = .ok (kennelSchema foreign) := by
  cases foreign <;> cbv

theorem kept_shape (foreign : Bool) : (kennel foreign).model.shapeOf kept =
    .ok (.choice { candidates := [animal, dog], base := .rooted animal [⟨dog, animal⟩] }) := by
  cases foreign <;> rfl

theorem kept_written (foreign : Bool) : ∃ particle, Writes (kennel foreign) kept particle := by
  obtain ⟨extended, _, final, run, _⟩ := generate_run (generate_kennel foreign)
  obtain ⟨o, same, rfl⟩ := generate_history (generate_kennel foreign) run
  have roots : (kennel foreign).model.rootClasses = .ok [keeper] := by cases foreign <;> rfl
  have inherited : (kennel foreign).model.effectiveProperties keeper = .ok [kept] := by
    cases foreign <;> cbv
  obtain ⟨d, present, declared⟩ := forall₂_mem_left (o.roots_declared roots) List.mem_cons_self
  have member : d ∈ (kennelSchema foreign).declarations := by
    rw [o.declarations]
    exact List.mem_append_left _ (List.mem_append_left _ present)
  cases declared with
  | typed _ | grouped _ _ => cases foreign <;> simp [kennelSchema, dogType] at member
  | whole filled =>
    have known : (kennel foreign).model.Knows keeper := rfl
    obtain ⟨ps, parts, own, _, placed⟩ := filled.placed (o.model ▸ known)
    rw [o.model, inherited] at own
    obtain rfl := Except.ok.inj own
    obtain ⟨part, _, s, t, made, grows⟩ := forall₂_mem_left placed List.mem_cons_self
    rw [same] at made
    have shape : (planOf (kennel foreign) extended).model.shapeOf kept = _ := kept_shape foreign
    generalize content : part = whole at made
    cases member_ok made with
    | spliced spliced => cases spliced
    | plain _ read _ | typed _ read _ | grouped _ read _ _ | nested _ read _ _ =>
      cases shape.symm.trans read
    | choice _ _ _ => exact ⟨_, .made run ⟨s, t, made, grows⟩⟩

theorem choices_substitutable_kennel : generate (kennel false) = .ok (kennelSchema false) ∧
    (∃ particle, Writes (kennel false) kept particle) ∧
    ExtendsParent (kennel false) (kennelSchema false) ⟨dog, animal⟩ := by
  obtain ⟨particle, written⟩ := kept_written false
  obtain ⟨_, _, extends_iff⟩ := choices_substitutable_iff (generate_kennel false) written
    (kept_shape false) rfl List.mem_cons_self rfl
  refine ⟨generate_kennel false, ⟨particle, written⟩, extends_iff.mpr ?_⟩
  exact ⟨_, List.mem_cons_of_mem _ List.mem_cons_self, kept, List.mem_cons_self, _,
    kept_shape false, _, List.mem_cons_self, rfl⟩

/-- Where a keeper inherits the choice from a class of another specification, the type of a dog
stands by itself. -/
theorem derived_candidate_alone : generate (kennel true) = .ok (kennelSchema true) ∧
    (∃ particle, Writes (kennel true) kept particle) ∧
    .complexType "Dog" {} [.identity] ∈ (kennelSchema true).declarations ∧
    ¬ ExtendsParent (kennel true) (kennelSchema true) ⟨dog, animal⟩ := by
  refine ⟨generate_kennel true, kept_written true, by simp [kennelSchema, dogType], ?_⟩
  rintro ⟨title, base, content, member, _⟩
  simp [kennelSchema, dogType] at member

end RdfXmlMapping.Schema
