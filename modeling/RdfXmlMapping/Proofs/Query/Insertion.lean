import Mathlib
import RdfXmlMapping.Model.Build
import RdfXmlMapping.Proofs.Model.Circles
import RdfXmlMapping.Proofs.Model.Renaming
import RdfXmlMapping.Query.Generate

/-!
Queries of models with more classes, put in between those of another one. As long as the first model
nowhere names the new classes, whatever is read off it is read off the second one as well
(`checkAcyclic_agrees`, `shapeOf_agrees`), and both have the same query or the same error, whatever
the new classes look like (`generate_inserted`).
-/

namespace RdfXmlMapping

/-- The second list is the first one with new classes at any places. -/
inductive Inserted (new : Class → Prop) : List Class → List Class → Prop
  | nil : Inserted new [] []
  | keep (c : Class) {cs ds : List Class} : Inserted new cs ds → Inserted new (c :: cs) (c :: ds)
  | insert {c : Class} {cs ds : List Class} : new c → Inserted new cs ds → Inserted new cs (c :: ds)

namespace Model

/-- Two models with the same roots, in which every identity that occurs in the first one stands for
the same class. -/
structure Agrees (m n : Model) : Prop where
  iri : n.iri = m.iri
  roots : n.roots = m.roots
  find : ∀ a ∈ m.identities, n.find? a = m.find? a

variable {m n : Model} {c : Class} {p : Property} {a : String}

theorem find?_inserted {new : Class → Prop} {cs ds : List Class}
    (other : ∀ c, new c → c.iri ≠ a) (h : Inserted new cs ds) :
    ds.find? (·.iri == a) = cs.find? (·.iri == a) := by
  induction h with
  | nil => rfl
  | keep c _ ih => rw [List.find?_cons, List.find?_cons, ih]
  | insert isNew _ ih => rw [List.find?_cons_of_neg (by simpa using other _ isNew), ih]

theorem agrees_inserted {cs : List Class}
    (h : Inserted (fun c => c.iri ∉ m.identities) m.classes cs) :
    m.Agrees { m with classes := cs } where
  iri := rfl
  roots := rfl
  find := fun _ occurs => find?_inserted (fun _ isNew same => isNew (same ▸ occurs)) h

/-! ### Identities that occur -/

theorem identity_occurs (known : c ∈ m.classes) : c.iri ∈ m.identities :=
  Renaming.mem_identities known (List.mem_append_left _ List.mem_cons_self)

theorem parent_occurs (known : c ∈ m.classes) (parent : a ∈ c.parents) : a ∈ m.identities :=
  Renaming.mem_identities known (List.mem_append_left _ (List.mem_cons_of_mem _ parent))

theorem target_occurs (declared : m.Declares p) (target : .association a ∈ p.types) :
    a ∈ m.identities := by
  obtain ⟨c, known, own⟩ := declared
  refine Renaming.mem_identities known (List.mem_append_right _ ?_)
  exact List.mem_flatMap.mpr ⟨p, own, List.mem_filterMap.mpr ⟨_, target, rfl⟩⟩

theorem root_occurs (root : a ∈ m.rootCandidates) : a ∈ m.identities :=
  List.mem_append_right _ root

/-! ### References -/

theorem lookUp_agrees (h : m.Agrees n) (occurs : a ∈ m.identities) (referrer : String) :
    n.lookUp a referrer = m.lookUp a referrer := by
  rw [lookUp, lookUp, h.find a occurs]

theorem canEnter_eq_find? (m : Model) (path : List String) (a : String) :
    m.canEnter path a = ((m.find? a).isSome && !path.contains a) := by
  rw [canEnter, find?, List.isSome_find?]

theorem canEnter_agrees (h : m.Agrees n) (path : List String) (known : c ∈ m.classes) :
    n.canEnter path c.iri = m.canEnter path c.iri := by
  rw [canEnter_eq_find?, canEnter_eq_find?, h.find _ (identity_occurs known)]

theorem parent?_agrees (h : m.Agrees n) (known : c ∈ m.classes) : n.parent? c = m.parent? c := by
  unfold parent?
  split
  · rfl
  next a one => rw [lookUp_agrees h (parent_occurs known (one ▸ List.mem_singleton_self a))]
  · rfl

theorem ancestorsAbove_agrees (h : m.Agrees n) (start : String) (seen : List String) :
    ∀ c ∈ m.classes, n.ancestorsAbove start seen c = m.ancestorsAbove start seen c := by
  induction seen using walk_induction m with
  | step seen ih =>
    intro c known
    rw [ancestorsAbove, ancestorsAbove, parent?_agrees h known]
    refine except_bind_congr fun parent found => ?_
    cases parent with
    | none => rfl
    | some parent =>
      have known := knows_mem (parent?_knows found)
      have same := canEnter_agrees h seen known
      by_cases way : m.canEnter seen parent.iri
      · simp only [dif_pos way, dif_pos (same.trans way), ih parent.iri way parent known]
      · simp only [dif_neg way, dif_neg (mt same.symm.trans way)]

theorem effectiveProperties_agrees (h : m.Agrees n) (known : c ∈ m.classes) :
    n.effectiveProperties c = m.effectiveProperties c := by
  rw [effectiveProperties, effectiveProperties, ancestors, ancestors,
    ancestorsAbove_agrees h c.iri [c.iri] c known]

/-! ### Shapes -/

theorem candidate_agrees (h : m.Agrees n) (declared : m.Declares p) {t : DataType}
    (among : t ∈ p.types) : n.candidate p t = m.candidate p t := by
  cases t with
  | primitive _ => rfl
  | association a => rw [candidate, candidate, lookUp_agrees h (target_occurs declared among)]

theorem parentIn_agrees (h : m.Agrees n) (candidates : List Class) (known : c ∈ m.classes) :
    n.parentIn p candidates c = m.parentIn p candidates c := by
  rw [parentIn, parentIn, parent?_agrees h known]

theorem planChoice_agrees (h : m.Agrees n) {candidates : List Class}
    (known : ∀ c ∈ candidates, c ∈ m.classes) :
    n.planChoice p candidates = m.planChoice p candidates := by
  rw [planChoice, planChoice,
    mapM_congr fun c member => parentIn_agrees h candidates (known c member)]

theorem shapeOf_agrees (h : m.Agrees n) (declared : m.Declares p) : n.shapeOf p = m.shapeOf p := by
  unfold shapeOf
  dsimp only
  split
  · rfl
  · rw [mapM_congr fun t among => candidate_agrees h declared among]
    refine except_bind_congr fun candidates found => ?_
    have plan := planChoice_agrees (p := p) h fun c member =>
      knows_mem (candidates_describable found c member).1
    generalize candidates.filterMap (·.plain?) = primitives
    generalize distinctClasses (candidates.filterMap (·.described?)) = classes at plan ⊢
    rcases primitives with - | ⟨one, others⟩
    · rcases classes with - | ⟨c, - | ⟨d, rest⟩⟩
      · exact congrArg (Shape.choice <$> ·) plan
      · rfl
      · exact congrArg (Shape.choice <$> ·) plan
    · rcases classes with - | ⟨c, rest⟩ <;> rfl

/-! ### Walks -/

theorem successors_agrees (h : m.Agrees n) (known : c ∈ m.classes) :
    n.successors c = m.successors c := by
  rw [successors, successors, parent?_agrees h known,
    mapM_congr fun p own => shapeOf_agrees h ⟨c, known, own⟩]

theorem walk_agrees (h : m.Agrees n) (path : List String) :
    ∀ c ∈ m.classes, ∀ done, n.walk path done c = m.walk path done c := by
  induction path using walk_induction m with
  | step path ih =>
    intro c known done
    rw [walk_eq, walk_eq, canEnter_agrees h path known, successors_agrees h known]
    split
    · rfl
    · split
      next way =>
        refine except_bind_congr fun next found => ?_
        rw [foldlM_congr fun d member => ih c.iri way d ?_]
        exact knows_mem ((mem_successors found).mp member).knows
      next => rfl

theorem walkRoot_agrees (h : m.Agrees n) (root : a ∈ m.rootCandidates) (done : List String) :
    n.walkRoot done a = m.walkRoot done a := by
  rw [walkRoot, walkRoot, lookUp_agrees h (root_occurs root), h.iri]
  exact except_bind_congr fun c found => walk_agrees h [] c (knows_mem (lookUp_knows found).1) done

theorem checkAcyclic_agrees (h : m.Agrees n) : n.checkAcyclic = m.checkAcyclic := by
  have roots : n.rootCandidates = m.rootCandidates := congrArg List.flatten h.roots
  rw [checkAcyclic_eq, checkAcyclic_eq, roots,
    foldlM_congr fun a root => walkRoot_agrees h root]

end Model

end RdfXmlMapping

namespace RdfXmlMapping.Query

variable {m n : Model}

theorem classPatterns_agrees (h : m.Agrees n) (path : List String) : ∀ c ∈ m.classes,
    ∀ subject typeIsOptional, classPatterns n path subject typeIsOptional c =
      classPatterns m path subject typeIsOptional c := by
  induction path using Model.walk_induction m with
  | step path ih =>
    intro c known subject typeIsOptional
    have same := Model.canEnter_agrees h path known
    rw [classPatterns, classPatterns]
    by_cases way : m.canEnter path c.iri
    · rw [dif_pos way, dif_pos (same.trans way), Model.effectiveProperties_agrees h known]
      refine bind_congr fun type => lift_bind_congr fun ps own => ?_
      have declared := Model.effectiveProperties_declares known own
      refine congrArg (· >>= _) (mapM_congr fun p member => ?_)
      rw [Model.shapeOf_agrees h (declared p member)]
      refine lift_bind_congr fun shape read => bind_congr fun _ => bind_congr fun edge => ?_
      have leads := Model.shapeOf_leads read
      cases shape with
      | primitive _ => rfl
      | single target =>
        dsimp only
        rw [ih c.iri way target (Model.knows_mem leads.1)]
      | choice plan =>
        dsimp only
        rw [mapM_congr fun d candidate =>
          ih c.iri way d (Model.knows_mem (leads.1 d candidate).1) edge.1 _]
    · rw [dif_neg way, dif_neg (mt same.symm.trans way)]

theorem rootPatterns_agrees (h : m.Agrees n) {group : List String}
    (roots : ∀ a ∈ group, a ∈ m.rootCandidates) : rootPatterns n group = rootPatterns m group := by
  unfold rootPatterns
  refine bind_congr fun subject => ?_
  rw [mapM_lift, mapM_lift, h.iri,
    mapM_congr fun a among => Model.lookUp_agrees h (Model.root_occurs (roots a among)) m.iri]
  refine lift_bind_congr fun candidates looked => ?_
  have each (c : Class) (member : c ∈ candidates) (typeIsOptional : Bool) :
      classPatterns n [] subject typeIsOptional c =
        classPatterns m [] subject typeIsOptional c := by
    obtain ⟨a, _, found⟩ := forall₂_mem_right (except_mapM_ok looked) member
    exact classPatterns_agrees h [] c (Model.knows_mem (Model.lookUp_knows found).1) _ _
  match candidates, each with
  | [c], each => exact each c List.mem_cons_self false
  | [], _ => rfl
  | c :: d :: rest, each =>
    exact congrArg (· >>= _) (mapM_congr fun x member => each x member _)

theorem modelPatterns_agrees (h : m.Agrees n) : modelPatterns n = modelPatterns m := by
  rw [modelPatterns, modelPatterns, h.roots, mapM_congr fun group member =>
    rootPatterns_agrees h fun a among => List.mem_flatten_of_mem member among]

theorem ofModel_agrees (h : m.Agrees n) : ofModel n = ofModel m := by
  rw [ofModel, ofModel, Model.checkAcyclic_agrees h, modelPatterns_agrees h]

/-- Classes that a model neither declares nor refers to do not matter for its query. -/
theorem generate_inserted (s : Source) {cs : List Class}
    (inserted : Inserted (fun c => c.iri ∉ s.model.identities) s.model.classes cs) :
    generate { s with model := { s.model with classes := cs } } = generate s := by
  rw [generate, generate, ofModel_agrees (Model.agrees_inserted inserted)]

def book : Class :=
  (Class.make "Book" "Book").declaring
    ((Property.make "author" "https://ex.org/author").association "Person")

def person : Class := { Class.make "Person" "Person" with meaning := some "https://ex.org/Person" }

def shelf : Source where
  model := (Model.make "shelf" "library").rootedAt ["Book"] |>.declaring book |>.declaring person
  manifests := []
  config := {}

/-- A class that derives from itself and from one that does not exist, with a property that takes no
values. -/
def scrap : Class :=
  (Class.make "Scrap" "").extending "Scrap" |>.extending "Nothing"
    |>.declaring (Property.make "" "")

set_option maxRecDepth 20000 in
theorem generate_inserted_shelf :
    Inserted (fun c => c.iri ∉ shelf.model.identities) shelf.model.classes
      [scrap, book, scrap, person] ∧
    (generate shelf).isOk ∧
    generate { shelf with
      model := { shelf.model with classes := [scrap, book, scrap, person] } } = generate shelf := by
  have isNew : scrap.iri ∉ shelf.model.identities := by decide
  have inserted : Inserted (fun c => c.iri ∉ shelf.model.identities) shelf.model.classes
      [scrap, book, scrap, person] :=
    .insert isNew (.keep book (.insert isNew (.keep person .nil)))
  exact ⟨inserted, by cbv, generate_inserted shelf inserted⟩

end RdfXmlMapping.Query
