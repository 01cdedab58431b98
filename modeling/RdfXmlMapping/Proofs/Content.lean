import Mathlib
import RdfXmlMapping.Lifting.Generate
import RdfXmlMapping.Model.Build
import RdfXmlMapping.Proofs.Lowering.Runs
import RdfXmlMapping.Proofs.Schema.Particles

/-!
What the content of a class consists of. The schema declares its elements, the stylesheet from
documents asks for them, and the stylesheet to documents writes them; each of the three splices the
content of other classes in by itself. They come to the same elements in the same order.
-/

namespace RdfXmlMapping

/-- The content of a class stands in that of another, over any number of spliced properties. -/
inductive Model.SplicedInto (m : Model) : Class → Class → Prop
  | same (c : Class) : SplicedInto m c c
  | through {c d e : Class} {ps : List Property} {p : Property} :
      m.effectiveProperties c = .ok ps → p ∈ ps → p.isSpliced → m.spliceTarget p = .ok d →
      SplicedInto m d e → SplicedInto m c e

/-! ### Documents to RDF -/

namespace Lifting

variable {m : Model} {chain : List String} {c : Class} {names : List String}

/-- The names that a property adds to those of a class whose content is spliced along a chain. -/
def namesOf (m : Model) (chain : List String) (p : Property) : Generated (List String) := do
  if p.isSpliced then
    let target ← m.spliceTarget p
    if m.canEnter chain target.iri then splicedNames m (target.iri :: chain) target
    else throw (.dematerializationCycle p.iri)
  else return [toNCName p.label]

theorem namesOf_spliced {p : Property} (spliced : p.isSpliced) (target : m.spliceTarget p = .ok c)
    (h : namesOf m chain p = .ok names) :
    m.canEnter chain c.iri ∧ splicedNames m (c.iri :: chain) c = .ok names := by
  rw [namesOf, if_pos spliced, target] at h
  obtain ⟨_, same, h⟩ := except_bind_ok h
  obtain rfl := Except.ok.inj same
  split at h
  next way => exact ⟨way, h⟩
  next => cases h

theorem namesOf_inPlace {p : Property} (inPlace : p.isSpliced = false)
    (h : namesOf m chain p = .ok names) : names = [toNCName p.label] := by
  rw [namesOf, inPlace] at h
  exact (Except.ok.inj h).symm

theorem splicedNames_eq : splicedNames m chain c = do
    let names ← (← m.effectiveProperties c).mapM (namesOf m chain)
    return names.flatten := by
  rw [splicedNames]
  rfl

theorem splicedNames_ok (h : splicedNames m chain c = .ok names) :
    ∃ ps lists, m.effectiveProperties c = .ok ps ∧
      List.Forall₂ (fun p list => namesOf m chain p = .ok list) ps lists ∧
      names = lists.flatten := by
  rw [splicedNames_eq] at h
  obtain ⟨ps, own, h⟩ := except_bind_ok h
  obtain ⟨lists, each, h⟩ := except_bind_ok h
  exact ⟨ps, lists, own, except_mapM_ok each, (Except.ok.inj h).symm⟩

theorem splicedNames_of {ps : List Property} {lists : List (List String)}
    (own : m.effectiveProperties c = .ok ps)
    (each : List.Forall₂ (fun p list => namesOf m chain p = .ok list) ps lists) :
    splicedNames m chain c = .ok lists.flatten := by
  rw [splicedNames_eq, own]
  change (ps.mapM (namesOf m chain) >>= fun names => pure names.flatten) = _
  rw [mapM_of_forall₂ each]
  rfl

end Lifting

/-! ### Schemas -/

namespace Schema

open Xml (Attributes Element)

mutual

/-- The elements that a schema document declares at one level of the content of an element. A
sequence is no level of its own. -/
def elementNamesOf : Element → List String
  | .node name attributes children =>
    if name = "xs:sequence" then elementNames children else (attributes.lookup "name").toList
  | .leaf _ attributes | .text _ attributes _ => (attributes.lookup "name").toList

def elementNames : List Element → List String
  | [] => []
  | e :: es => elementNamesOf e ++ elementNames es

end

@[simp]
theorem elementNames_append (es fs : List Element) :
    elementNames (es ++ fs) = elementNames es ++ elementNames fs := by
  induction es with
  | nil => rfl
  | cons e es ih => simp [elementNames, ih]

@[simp]
theorem particles_append (ps qs : List Particle) :
    particles (ps ++ qs) = particles ps ++ particles qs := by
  induction ps with
  | nil => rfl
  | cons p ps ih => simp [particles, ih]

theorem elementNames_flatten {α : Type} {R : α → List String → Prop} {xs : List α}
    {parts : List (List Particle)}
    (h : List.Forall₂ (fun x part => R x (elementNames (particles part))) xs parts) :
    ∃ lists, List.Forall₂ R xs lists ∧ elementNames (particles parts.flatten) = lists.flatten := by
  induction h with
  | nil => exact ⟨[], .nil, rfl⟩
  | cons first _ ih =>
    obtain ⟨lists, each, same⟩ := ih
    exact ⟨_ :: lists, .cons first each, by simp [same]⟩

theorem plainParticle_names {x : Plan} {name : String} {occurs : Occurs} {ps : List Primitive}
    {particle : Particle} {s t : Progress}
    (h : x.plainParticle name occurs ps s = .ok (particle, t)) :
    elementNames (particles [particle]) = [name] := by
  rw [Plan.plainParticle.eq_def] at h
  split at h
  · obtain ⟨type, _, _, h⟩ := bind_ok h
    cases pure_ok h
    simp [particles, Particle.toXml, elementNames, elementNamesOf]
  · cases pure_ok h
    simp [particles, Particle.toXml, elementNames, elementNamesOf]

/-- The content that a schema declares for properties has the elements by which a document is
recognized. The induction is on the chain, which grows with every splice; a nested class has a
content of its own, which is not at this level. -/
theorem particles_names (x : Plan) (path chain : List String) :
    ∀ ps s content t, x.particles path chain ps s = .ok (content, t) →
      ∃ lists, List.Forall₂ (fun p list => Lifting.namesOf x.model chain p = .ok list) ps lists ∧
        elementNames (particles content) = lists.flatten := by
  induction chain using Model.walk_induction x.model with
  | step chain ih =>
    intro ps s content t h
    obtain ⟨parts, runs, rfl⟩ := particles_ok h
    refine elementNames_flatten (runs_forall₂ runs fun p _ part s t run => ?_)
    have plain (inPlace : p.isSpliced = false) :
        Lifting.namesOf x.model chain p = .ok [toNCName p.label] := by
      rw [Lifting.namesOf, inPlace]
      rfl
    cases member_ok run with
    | @spliced d ps content _ _ spliced target way own run =>
      obtain ⟨lists, each, same⟩ := ih d.iri way ps _ content _ run
      have level : elementNames (particles
          (if p.isSingle then content else [.sequence (occursOf p) content])) = lists.flatten := by
        split
        · exact same
        · simpa [particles, Particle.toXml, elementNames, elementNamesOf] using same
      rw [level, Lifting.namesOf, if_pos spliced, target]
      exact (if_pos way).trans (Lifting.splicedNames_of own each)
    | plain inPlace _ run => rw [plainParticle_names run, plain inPlace]
    | typed inPlace _ _ | grouped inPlace _ _ _ | nested inPlace _ _ _ | choice inPlace _ _ =>
      simp [particles, Particle.toXml, elementNames, elementNamesOf, plain inPlace]

theorem members_names {x : Plan} {path : List String} {c : Class} {s t : Progress}
    {content : List Particle} (h : x.members path c s = .ok (content, t)) :
    Lifting.contentNames x.model c = .ok (elementNames (particles content)) := by
  obtain ⟨ps, own, run⟩ := members_ok h
  obtain ⟨lists, each, same⟩ := particles_names x path [c.iri] ps s content t run
  rw [same]
  exact Lifting.splicedNames_of own each

theorem content_names {x : Plan} {c : Class} {s t : Progress} {content : List Particle}
    {names : List String} (own : Lifting.contentNames x.model c = .ok names)
    (h : x.content c s = .ok (content, t)) :
    elementNames (particles content) = identityElement :: names := by
  obtain ⟨inner, run, rfl⟩ := content_ok h
  obtain rfl := Except.ok.inj (own.symm.trans (members_names run))
  rfl

end Schema

/-! ### RDF to documents -/

namespace Lowering

/-- The names that the items of properties write, where `own` gives those that the template of a
class writes. A call in the place of a property writes what the template of its target writes. -/
inductive WritesItems (m : Model) (own : Class → List String → Prop) :
    List Property → List Item → List String → Prop
  | nil : WritesItems m own [] [] []
  | element {p : Property} {ps : List Property} {rows : Rows} {name : String} {content : Content}
      {items : List Item} {names : List String} :
      WritesItems m own ps items names →
      WritesItems m own (p :: ps) (.element rows name content :: items) (name :: names)
  | call {p : Property} {ps : List Property} {d : Class} {rows : Rows} {items : List Item}
      {inner names : List String} :
      m.spliceTarget p = .ok d → own d inner → WritesItems m own ps items names →
      WritesItems m own (p :: ps) (.spliced rows (templateName d.iri) :: items) (inner ++ names)

/-- The names of the elements that the template of a class writes for properties, in their order. -/
inductive Plan.Writes (y : Plan) : Class → List String → Prop
  | template {c : Class} {ps : List Property} {t : Template} {s s' : Progress}
      {names : List String} :
      y.classTemplate c s = .ok (t, s') → y.model.effectiveProperties c = .ok ps →
      WritesItems y.model y.Writes ps t.items names → Writes y c names

def Plan.Emits (y : Plan) (c : Class) : Prop := ∃ s r, y.classTemplate c s = .ok r

variable {y : Plan} {c : Class} {s s' : Progress}

theorem templateOf_ok {name : String} (h : y.templateOf c s = .ok (name, s')) :
    name = templateName c.iri := by
  obtain ⟨found, _, _, h⟩ := bind_ok h
  dsimp only at h
  split at h
  · obtain ⟨_, _, _, h⟩ := bind_ok h
    exact (Prod.mk.inj (pure_ok h)).1
  · exact (Prod.mk.inj (pure_ok h)).1

theorem item_ok {p : Property} {i : Item} (h : y.item p s = .ok (i, s')) :
    (p.isSpliced ∧ ∃ d, y.model.spliceTarget p = .ok d ∧
      i = .spliced ⟨p.predicate, p.isReverse⟩ (templateName d.iri)) ∨
    (p.isSpliced = false ∧ ∃ content,
      i = .element ⟨p.predicate, p.isReverse⟩ (toNCName p.label) content) := by
  cases item_made h with
  | spliced spliced target made =>
    obtain rfl := templateOf_ok made
    exact .inl ⟨spliced, _, target, rfl⟩
  | element plain _ _ => exact .inr ⟨plain, _, rfl⟩

theorem classTemplate_ok {t : Template} (h : y.classTemplate c s = .ok (t, s')) :
    ∃ ps, y.model.effectiveProperties c = .ok ps ∧ Runs y.item ps t.items s s' := by
  obtain ⟨ps, items, own, each, rfl⟩ := classTemplate_made h
  exact ⟨ps, own, each⟩

section

variable {m : Model} {chain : List String} {own : Class → List String → Prop} {ps : List Property}
  {items : List Item} {lists : List (List String)}

theorem writesItems_of (same : y.model = m) (runs : Runs y.item ps items s s')
    (each : List.Forall₂ (fun p list => Lifting.namesOf m chain p = .ok list) ps lists)
    (inner : ∀ p ∈ ps, p.isSpliced → ∀ d, m.spliceTarget p = .ok d → m.canEnter chain d.iri →
      ∀ names, Lifting.splicedNames m (d.iri :: chain) d = .ok names → own d names) :
    WritesItems m own ps items lists.flatten := by
  subst same
  induction runs generalizing lists with
  | nil s =>
    cases each
    exact .nil
  | cons first _ ih =>
    cases each with
    | cons named each =>
      have rest := ih each fun p member => inner p (List.mem_cons_of_mem _ member)
      rcases item_ok first with ⟨spliced, d, target, rfl⟩ | ⟨inPlace, content, rfl⟩
      · obtain ⟨way, read⟩ := Lifting.namesOf_spliced spliced target named
        exact .call target (inner _ List.mem_cons_self spliced d target way _ read) rest
      · obtain rfl := Lifting.namesOf_inPlace inPlace named
        exact .element rest

theorem writesItems_eq (same : y.model = m) (runs : Runs y.item ps items s s')
    (each : List.Forall₂ (fun p list => Lifting.namesOf m chain p = .ok list) ps lists)
    (inner : ∀ d, m.canEnter chain d.iri → ∀ names,
      Lifting.splicedNames m (d.iri :: chain) d = .ok names → ∀ written, own d written →
        written = names)
    {written : List String} (h : WritesItems m own ps items written) : written = lists.flatten := by
  subst same
  induction runs generalizing lists written with
  | nil s =>
    cases each
    cases h
    rfl
  | cons first _ ih =>
    cases each with
    | cons named each =>
      rcases item_ok first with ⟨spliced, d, target, rfl⟩ | ⟨inPlace, content, rfl⟩
      · generalize templateName d.iri = name at h
        cases h with
        | call reached writes rest =>
          obtain ⟨way, read⟩ := Lifting.namesOf_spliced spliced reached named
          rw [inner _ way _ read _ writes, ih each rest]
          rfl
      · obtain rfl := Lifting.namesOf_inPlace inPlace named
        cases h with
        | element rest =>
          rw [ih each rest]
          rfl

end

/-- A template writes no other elements than those by which a document is recognized. -/
theorem writes_eq (y : Plan) (chain : List String) : ∀ c names,
    Lifting.splicedNames y.model chain c = .ok names → ∀ written, y.Writes c written →
      written = names := by
  induction chain using Model.walk_induction y.model with
  | step chain ih =>
    intro c names h written writes
    obtain ⟨ps, lists, own, each, rfl⟩ := Lifting.splicedNames_ok h
    cases writes with
    | template made own' items =>
      obtain ⟨ps', own'', runs⟩ := classTemplate_ok made
      -- Calls of templates have no chain of their own: that of the names bounds their depth.
      obtain rfl := Except.ok.inj (own.symm.trans own')
      obtain rfl := Except.ok.inj (own.symm.trans own'')
      exact writesItems_eq rfl runs each
        (fun d way names read written => ih d.iri way d names read written) items

/-- A template writes all these elements if the templates that it calls can be made. -/
theorem writes_of (y : Plan) (chain : List String) : ∀ c names,
    Lifting.splicedNames y.model chain c = .ok names →
    (∀ d, y.model.SplicedInto c d → y.Emits d) → y.Writes c names := by
  induction chain using Model.walk_induction y.model with
  | step chain ih =>
    intro c names h emitted
    obtain ⟨ps, lists, own, each, rfl⟩ := Lifting.splicedNames_ok h
    obtain ⟨s, ⟨t, s'⟩, made⟩ := emitted c (.same c)
    obtain ⟨ps', own', runs⟩ := classTemplate_ok made
    obtain rfl := Except.ok.inj (own.symm.trans own')
    refine .template made own (writesItems_of rfl runs each ?_)
    intro p member spliced d target way names read
    exact ih d.iri way d names read fun e reached =>
      emitted e (.through own member spliced target reached)

theorem rules_emits {r : List RootRule × List Template} (h : y.rules s = .ok (r, s'))
    (member : c ∈ y.model.describedClasses) : y.Emits c := by
  obtain ⟨_, _, _, _, each⟩ := rules_made h
  have made : List.Forall₂ (fun c _ => y.Emits c) y.model.describedClasses r.2 :=
    runs_forall₂ each fun c _ t s s' made => ⟨s, (t, s'), made⟩
  exact (forall₂_mem_left made member).choose_spec.2

theorem rules_emits_spliced {r : List RootRule × List Template} (h : y.rules s = .ok (r, s'))
    {d : Class} (reached : y.model.SplicedInto c d) (member : c ∈ y.model.describedClasses) :
    y.Emits d := by
  induction reached with
  | same c => exact rules_emits h member
  | through _ _ _ target _ ih => exact ih (Model.describedClasses_of_spliceTarget target)

end Lowering

/-- The schema, the stylesheet from documents and the stylesheet to documents agree on the content
of a class. Wherever a schema declares it, its elements are those by which a document is
recognized, behind one identity if there is one; no template writes others, and the template of the
class writes them all if it and those that it calls can be made. -/
theorem contents_agree {x : Schema.Plan} {y : Lowering.Plan} (same : y.model = x.model) {c : Class}
    {path : List String} {s : Schema.Progress} {r : List Schema.Particle × Schema.Progress}
    (h : x.members path c s = .ok r) :
    ∃ names, Lifting.contentNames x.model c = .ok names ∧
      (∀ path s content t, x.members path c s = .ok (content, t) →
        Schema.elementNames (Schema.particles content) = names) ∧
      (∀ s content t, x.content c s = .ok (content, t) →
        Schema.elementNames (Schema.particles content) = identityElement :: names) ∧
      (∀ written, y.Writes c written → written = names) ∧
      ((∀ d, x.model.SplicedInto c d → y.Emits d) → y.Writes c names) := by
  have own := Schema.members_names h
  refine ⟨_, own, fun path s content t run => ?_, fun s content t run => ?_, ?_, ?_⟩
  · exact Except.ok.inj ((Schema.members_names run).symm.trans own)
  · exact Schema.content_names own run
  · exact Lowering.writes_eq y [c.iri] c _ (same ▸ own)
  · exact same ▸ Lowering.writes_of y [c.iri] c _ (same ▸ own)

/-! ### The content of a stay -/

/-- A stay inherits a code. Its period is spliced in, with the moment that the period splices in,
and so are any number of extras. -/
def visits : Model :=
  let splicing (label target : String) : Property :=
    { (Property.make label ("https://ex.org/" ++ label)).association target with isSpliced := true }
  let plain (label : String) : Property :=
    (Property.make label ("https://ex.org/" ++ label)).primitive (Vocabulary.xsd ++ "string")
  (Model.make "visits" "hotel")
    |>.declaring ((Class.make "Entry" "Entry").declaring (plain "code"))
    |>.declaring (((Class.make "Stay" "Stay").extending "Entry")
      |>.declaring (splicing "period" "Period")
      |>.declaring { splicing "extras" "Extra" with least := 0, most := none })
    |>.declaring ((Class.make "Period" "Period")
      |>.declaring (splicing "start" "Moment") |>.declaring (plain "nights"))
    |>.declaring ((Class.make "Moment" "Moment")
      |>.declaring (plain "day") |>.declaring (plain "hour"))
    |>.declaring ((Class.make "Extra" "Extra").declaring (plain "extra"))

def stay : Class := (visits.find? "Stay").getD (Class.make "Stay" "Stay")

def visitsSchema : Schema.Plan :=
  { model := visits, extraction := {}, outlook := ⟨[], .schema, ""⟩, target := none
    extended := [] }

def visitsLowering : Lowering.Plan :=
  { model := visits, names := .ofModel visits, outlook := ⟨[], .lowering, ""⟩
    schemaOutlook := ⟨[], .schema, ""⟩ }

set_option maxRecDepth 20000 in
theorem stay_declared : (visitsSchema.members ["Stay"] stay
    { imports := { reserved := [] }, names := .ofModel visits }).isOk = true := by cbv

set_option maxRecDepth 20000 in
theorem visits_emitted : (visitsLowering.rules
    { imports := { reserved := [] }, types := { reserved := [] } }).isOk = true := by cbv

set_option maxRecDepth 20000 in
theorem stay_recognized :
    Lifting.contentNames visits stay = .ok ["code", "day", "hour", "nights", "extra"] := by cbv

theorem contents_agree_stay : (∃ path s content t,
    visitsSchema.members path stay s = .ok (content, t) ∧
      Schema.elementNames (Schema.particles content) = ["code", "day", "hour", "nights", "extra"]) ∧
    visitsLowering.Writes stay ["code", "day", "hour", "nights", "extra"] := by
  obtain ⟨⟨content, t⟩, declared⟩ := except_isOk stay_declared
  obtain ⟨⟨r, s'⟩, emitted⟩ := except_isOk visits_emitted
  obtain ⟨names, own, level, _, _, writes⟩ :=
    contents_agree (x := visitsSchema) (y := visitsLowering) rfl declared
  obtain rfl := Except.ok.inj (own.symm.trans stay_recognized)
  have described : stay ∈ visits.describedClasses := by decide +kernel
  exact ⟨⟨_, _, content, t, declared, level _ _ _ _ declared⟩,
    writes fun d reached => Lowering.rules_emits_spliced emitted reached described⟩

end RdfXmlMapping
