import RdfXmlMapping.Proofs.Model.Reference
import RdfXmlMapping.Schema.Generate

/-!
What the generation of content does for one property. The cases of `Member` are all there is; the
content of a class is made from them one after the other. `RootElement` and `TypeDeclaration` say
the same of the declarations that the content stands in.
-/

namespace RdfXmlMapping.Schema

open Xml (QName)

namespace Plan

def member (x : Plan) (path chain : List String) (p : Property) : Build (List Particle) := do
  if p.isSpliced then
    let target ← x.model.spliceTarget p
    if x.model.canEnter chain target.iri then
      let content ← x.particles path (target.iri :: chain) (← x.model.effectiveProperties target)
      return if p.isSingle then content else [.sequence (occursOf p) content]
    else throw (.dematerializationCycle p.iri)
  else
    let name := toNCName p.label
    match ← x.model.shapeOf p with
    | .primitive primitives =>
      if p.isReverse then throw (.reversePrimitive p.iri)
      return [← x.plainParticle name (occursOf p) primitives]
    | .single target =>
      let imported ← x.outlook.resolve x.model target
      if imported.isSome || (x.extractionOf target).namedType || path.contains target.iri then
        return [.element name (← x.typeOf target) (occursOf p)]
      else if (x.extractionOf target).group then
        return [.grouped name (occursOf p) (← x.requestGroup target)]
      else if x.model.canEnter path target.iri then
        let content ← x.particles (target.iri :: path) [target.iri]
          (← x.model.effectiveProperties target)
        return [.nested name (occursOf p) (.identity :: content)]
      else throw (.unknownClass target.iri p.iri)
    | .choice plan => return [.element name (← x.choiceType plan) (occursOf p)]

/-- The content of a class without the identity, where `path` leads to. -/
def members (x : Plan) (path : List String) (c : Class) : Build (List Particle) := do
  x.particles path [c.iri] (← x.model.effectiveProperties c)

end Plan

variable {x : Plan} {path chain : List String} {s t : Progress}

theorem particles_eq {ps : List Property} : x.particles path chain ps = do
    let parts ← ps.mapM (x.member path chain)
    return parts.flatten := by
  rw [Plan.particles]
  rfl

/-- What holds of the content at a place whenever it holds of that of each class nested there and of
each class spliced in there holds at all places. A nested class goes on with the path and a new
chain, a spliced one with the chain alone. -/
theorem content_induction {motive : List String → List String → Prop} (m : Model)
    (step : ∀ path chain, (∀ iri, m.canEnter path iri → motive (iri :: path) [iri]) →
      (∀ iri, m.canEnter chain iri → motive path (iri :: chain)) → motive path chain)
    (path chain : List String) : motive path chain := by
  induction path using Model.walk_induction m generalizing chain with
  | step path nested =>
    induction chain using Model.walk_induction m with
    | step chain spliced => exact step path chain (fun iri way => nested iri way [iri]) spliced

theorem particles_ok {ps : List Property} {content : List Particle}
    (h : x.particles path chain ps s = .ok (content, t)) :
    ∃ parts, Runs (x.member path chain) ps parts s t ∧ content = parts.flatten := by
  rw [particles_eq] at h
  obtain ⟨parts, _, each, h⟩ := bind_ok h
  cases pure_ok h
  exact ⟨parts, mapM_ok each, rfl⟩

theorem members_ok {c : Class} {content : List Particle}
    (h : x.members path c s = .ok (content, t)) : ∃ ps, x.model.effectiveProperties c = .ok ps ∧
      x.particles path [c.iri] ps s = .ok (content, t) := by
  obtain ⟨ps, _, own, h⟩ := bind_ok h
  obtain ⟨own, rfl⟩ := lift_ok own
  exact ⟨ps, own, h⟩

theorem content_ok {c : Class} {content : List Particle} (h : x.content c s = .ok (content, t)) :
    ∃ inner, x.members [c.iri] c s = .ok (inner, t) ∧ content = .identity :: inner := by
  obtain ⟨ps, _, own, h⟩ := bind_ok h
  obtain ⟨inner, _, run, h⟩ := bind_ok h
  cases pure_ok h
  exact ⟨inner, (bind_of_ok own).trans run, rfl⟩

/-- What the generation of the content of a property does. -/
inductive Member (x : Plan) (path chain : List String) (p : Property) :
    List Particle → Progress → Progress → Prop
  | spliced {d : Class} {ps : List Property} {content : List Particle} {s t : Progress} :
      p.isSpliced → x.model.spliceTarget p = .ok d → x.model.canEnter chain d.iri →
      x.model.effectiveProperties d = .ok ps →
      x.particles path (d.iri :: chain) ps s = .ok (content, t) →
      Member x path chain p (if p.isSingle then content else [.sequence (occursOf p) content]) s t
  | plain {primitives : List Primitive} {particle : Particle} {s t : Progress} :
      p.isSpliced = false → x.model.shapeOf p = .ok (.primitive primitives) →
      x.plainParticle (toNCName p.label) (occursOf p) primitives s = .ok (particle, t) →
      Member x path chain p [particle] s t
  | typed {d : Class} {type : QName} {s t : Progress} :
      p.isSpliced = false → x.model.shapeOf p = .ok (.single d) → x.typeOf d s = .ok (type, t) →
      Member x path chain p [.element (toNCName p.label) type (occursOf p)] s t
  | grouped {d : Class} {group : QName} {s t : Progress} :
      p.isSpliced = false → x.model.shapeOf p = .ok (.single d) →
      x.outlook.resolve x.model d = .ok none → x.requestGroup d s = .ok (group, t) →
      Member x path chain p [.grouped (toNCName p.label) (occursOf p) group] s t
  | nested {d : Class} {content : List Particle} {s t : Progress} :
      p.isSpliced = false → x.model.shapeOf p = .ok (.single d) →
      x.model.canEnter path d.iri → x.members (d.iri :: path) d s = .ok (content, t) →
      Member x path chain p [.nested (toNCName p.label) (occursOf p) (.identity :: content)] s t
  | choice {plan : ChoicePlan} {type : QName} {s t : Progress} :
      p.isSpliced = false → x.model.shapeOf p = .ok (.choice plan) →
      x.choiceType plan s = .ok (type, t) →
      Member x path chain p [.element (toNCName p.label) type (occursOf p)] s t

theorem member_ok {p : Property} {content : List Particle}
    (h : x.member path chain p s = .ok (content, t)) : Member x path chain p content s t := by
  unfold Plan.member at h
  split at h
  next spliced =>
    obtain ⟨d, _, target, h⟩ := bind_ok h
    obtain ⟨target, rfl⟩ := lift_ok target
    split at h
    next way =>
      obtain ⟨ps, _, own, h⟩ := bind_ok h
      obtain ⟨own, rfl⟩ := lift_ok own
      obtain ⟨inner, _, run, h⟩ := bind_ok h
      cases pure_ok h
      exact .spliced spliced target way own run
    next => exact (throw_ok h).elim
  next inPlace =>
    have inPlace := Bool.eq_false_iff.mpr inPlace
    obtain ⟨shape, _, read, h⟩ := bind_ok h
    obtain ⟨read, rfl⟩ := lift_ok read
    dsimp only at h
    split at h
    · split at h
      · exact (throw_ok (bind_ok h).choose_spec.choose_spec.1).elim
      · obtain ⟨particle, _, run, h⟩ := bind_ok h
        cases pure_ok h
        exact .plain inPlace read run
    next d =>
      obtain ⟨imported, _, resolved, h⟩ := bind_ok h
      obtain ⟨resolved, rfl⟩ := lift_ok resolved
      split at h
      · obtain ⟨type, _, run, h⟩ := bind_ok h
        cases pure_ok h
        exact .typed inPlace read run
      next stays =>
        have own : imported = none := by
          cases imported with
          | none => rfl
          | some _ => exact absurd rfl stays
        split at h
        · obtain ⟨group, _, run, h⟩ := bind_ok h
          cases pure_ok h
          exact .grouped inPlace read (own ▸ resolved) run
        · split at h
          next way =>
            obtain ⟨ps, _, own, h⟩ := bind_ok h
            obtain ⟨inner, _, run, h⟩ := bind_ok h
            cases pure_ok h
            exact .nested inPlace read way ((bind_of_ok own).trans run)
          next => exact (throw_ok h).elim
    · obtain ⟨type, _, run, h⟩ := bind_ok h
      cases pure_ok h
      exact .choice inPlace read run

/-! ### Declarations -/

variable {c : Class} {d : Declaration}

/-- What the generation of the element of a root does. -/
inductive RootElement (x : Plan) (c : Class) : Declaration → Progress → Progress → Prop
  | typed {type : QName} {s t : Progress} : x.typeOf c s = .ok (type, t) →
      RootElement x c (.root (Model.elementName c) c.title (.typed type)) s t
  | grouped {group : QName} {s t : Progress} : x.outlook.resolve x.model c = .ok none →
      x.requestGroup c s = .ok (group, t) →
      RootElement x c (.root (Model.elementName c) c.title (.grouped group)) s t
  | nested {content : List Particle} {s t : Progress} : x.content c s = .ok (content, t) →
      RootElement x c (.root (Model.elementName c) c.title (.nested content)) s t

theorem root_ok (h : x.root c s = .ok (d, t)) : RootElement x c d s t := by
  obtain ⟨imported, _, resolved, h⟩ := bind_ok h
  obtain ⟨resolved, rfl⟩ := lift_ok resolved
  dsimp only at h
  split at h
  · obtain ⟨_, _, made, h⟩ := bind_ok h
    obtain ⟨type, run, rfl⟩ := map_ok made
    cases pure_ok h
    exact .typed run
  next stays =>
    have own : imported = none := by
      cases imported with
      | none => rfl
      | some _ => exact absurd rfl stays
    split at h
    · obtain ⟨_, _, made, h⟩ := bind_ok h
      obtain ⟨group, run, rfl⟩ := map_ok made
      cases pure_ok h
      exact .grouped (own ▸ resolved) run
    · obtain ⟨_, _, made, h⟩ := bind_ok h
      obtain ⟨content, run, rfl⟩ := map_ok made
      cases pure_ok h
      exact .nested run

/-- What the generation of the type of a class does: it has all its content, or extends the type of
its parent. -/
inductive TypeDeclaration (x : Plan) (c : Class) : Declaration → Progress → Progress → Prop
  | whole {content : List Particle} {s t : Progress} : x.extensionBase c = .ok none →
      x.content c s = .ok (content, t) →
      TypeDeclaration x c (.complexType (s.names.get c) c.title content) s t
  | extending {parent : Class} {base : QName} {content : List Particle} {s u t : Progress} :
      x.extensionBase c = .ok (some parent) → x.typeOf parent s = .ok (base, u) →
      x.particles [c.iri] [c.iri] c.properties u = .ok (content, t) →
      TypeDeclaration x c (.extension (s.names.get c) c.title base content) s t

theorem declareType_ok (h : x.declare (.type c) s = .ok (d, t)) : TypeDeclaration x c d s t := by
  obtain ⟨_, _, now, h⟩ := bind_ok h
  cases get_ok now
  obtain ⟨parent, _, found, h⟩ := bind_ok h
  obtain ⟨found, rfl⟩ := lift_ok found
  cases parent with
  | none =>
    obtain ⟨content, _, run, h⟩ := bind_ok h
    cases pure_ok h
    exact .whole found run
  | some parent =>
    obtain ⟨base, _, named, h⟩ := bind_ok h
    obtain ⟨content, _, run, h⟩ := bind_ok h
    cases pure_ok h
    exact .extending found named run

theorem declareGroup_ok (h : x.declare (.group c) s = .ok (d, t)) : ∃ content,
    x.content c s = .ok (content, t) ∧ d = .group (s.names.get c) content := by
  obtain ⟨_, _, now, h⟩ := bind_ok h
  cases get_ok now
  obtain ⟨content, _, run, h⟩ := bind_ok h
  cases pure_ok h
  exact ⟨content, run, rfl⟩

end RdfXmlMapping.Schema
