import RdfXmlMapping.Artifact.Source
import RdfXmlMapping.ClassNames
import RdfXmlMapping.Proofs.Alike
import RdfXmlMapping.Proofs.Model.Splicing

/-!
Models that differ in the properties of their classes only. What is read off a model then differs in
those properties too and in nothing else, so that it is the same wherever the properties are.
-/

namespace RdfXmlMapping

/-- The class with other properties. -/
def Class.redeclare (f : Class → List Property) (c : Class) : Class := { c with properties := f c }

/-- The model with other properties for its classes. -/
def Model.redeclare (f : Class → List Property) (m : Model) : Model :=
  { m with classes := m.classes.map (·.redeclare f) }

def Source.redeclare (f : Class → List Property) (s : Source) : Source :=
  { s with model := s.model.redeclare f }

section

variable (f : Class → List Property) (c : Class) (m : Model)

@[simp] theorem Class.redeclare_iri : (c.redeclare f).iri = c.iri := rfl

@[simp] theorem Class.redeclare_label : (c.redeclare f).label = c.label := rfl

@[simp] theorem Class.redeclare_parents : (c.redeclare f).parents = c.parents := rfl

@[simp] theorem Class.redeclare_isCodelist : (c.redeclare f).isCodelist = c.isCodelist := rfl

@[simp] theorem Class.redeclare_properties : (c.redeclare f).properties = f c := rfl

@[simp] theorem Model.elementName_redeclare :
    elementName (c.redeclare f) = elementName c := rfl

@[simp] theorem Model.redeclare_iri : (m.redeclare f).iri = m.iri := rfl

@[simp] theorem Model.redeclare_classes :
    (m.redeclare f).classes = m.classes.map (·.redeclare f) := rfl

@[simp] theorem Model.isForeign_redeclare :
    (m.redeclare f).isForeign (c.redeclare f) = m.isForeign c := rfl

end

def Primitive.map (g : Class → Class) : Primitive → Primitive
  | .datatype iri => .datatype iri
  | .codelist c => .codelist (g c)

def Candidate.map (g : Class → Class) : Candidate → Candidate
  | .plain p => .plain (p.map g)
  | .described c => .described (g c)

def Derivation.map (g : Class → Class) (d : Derivation) : Derivation := ⟨g d.cls, g d.parent⟩

def ChoiceBase.map (g : Class → Class) : ChoiceBase → ChoiceBase
  | .rooted root derived => .rooted (g root) (derived.map (·.map g))
  | .placeholder name => .placeholder name

def ChoicePlan.map (g : Class → Class) (plan : ChoicePlan) : ChoicePlan :=
  { candidates := plan.candidates.map g, base := plan.base.map g }

def Shape.map (g : Class → Class) : Shape → Shape
  | .primitive ps => .primitive (ps.map (·.map g))
  | .single c => .single (g c)
  | .choice plan => .choice (plan.map g)

/-! ### Steps that map what they return -/

section

variable {ε α α' β β' γ : Type}

theorem mapM_map {f : α → Except ε β} {f' : α' → Except ε β'} {g : α → α'} {h : β → β'}
    (same : ∀ a, f' (g a) = h <$> f a) (as : List α) :
    (as.map g).mapM f' = List.map h <$> as.mapM f := by
  induction as with
  | nil => rfl
  | cons a as ih =>
    rw [List.map_cons, List.mapM_cons, List.mapM_cons, same, ih]
    cases f a with
    | error e => rfl
    | ok b => cases as.mapM f <;> rfl

theorem foldlM_map {f : β → α → Except ε β} {f' : β' → α' → Except ε β'} {g : α → α'} {h : β → β'}
    (same : ∀ b a, f' (h b) (g a) = h <$> f b a) (as : List α) (b : β) :
    (as.map g).foldlM f' (h b) = h <$> as.foldlM f b := by
  induction as generalizing b with
  | nil => rfl
  | cons a as ih =>
    rw [List.map_cons, List.foldlM_cons, List.foldlM_cons, same]
    cases f b a with
    | error e => rfl
    | ok c => exact ih c

end

theorem plain?_map (g : Class → Class) (cs : List Candidate) :
    (cs.map (·.map g)).filterMap (·.plain?) = (cs.filterMap (·.plain?)).map (·.map g) := by
  rw [List.filterMap_map, List.map_filterMap]
  exact List.filterMap_congr fun c _ => by cases c <;> rfl

theorem described?_map (g : Class → Class) (cs : List Candidate) :
    (cs.map (·.map g)).filterMap (·.described?) = (cs.filterMap (·.described?)).map g := by
  rw [List.filterMap_map, List.map_filterMap]
  exact List.filterMap_congr fun c _ => by cases c <;> rfl

theorem distinctClasses_map {g : Class → Class} (same : ∀ c, (g c).iri = c.iri) (cs : List Class) :
    distinctClasses (cs.map g) = (distinctClasses cs).map g := by
  have step : ∀ (cs kept : List Class), (cs.map g).foldl
      (fun kept c => if kept.any (·.iri == c.iri) then kept else kept ++ [c]) (kept.map g) =
      (cs.foldl (fun kept c => if kept.any (·.iri == c.iri) then kept else kept ++ [c]) kept).map
        g := by
    intro cs
    induction cs with
    | nil => exact fun _ => rfl
    | cons c cs ih =>
      intro kept
      have known : (kept.map g).any (·.iri == (g c).iri) = kept.any (·.iri == c.iri) := by
        simp [List.any_map, Function.comp_def, same]
      rw [List.map_cons, List.foldl_cons, List.foldl_cons, known, ← ih]
      congr 1
      split
      · rfl
      · simp
  exact step cs []

theorem Primitive.only_map {p : Property} (g : Class → Class) (primitives : List Primitive) :
    Primitive.only p (primitives.map (·.map g)) =
      Primitive.map g <$> Primitive.only p primitives := by
  rcases primitives with - | ⟨one, - | ⟨two, rest⟩⟩ <;> rfl

namespace Model

variable {m : Model} {f : Class → List Property} {p : Property} {c d : Class}

/-! ### References -/

theorem find?_redeclare (iri : String) :
    (m.redeclare f).find? iri = (m.find? iri).map (·.redeclare f) := List.find?_map

theorem lookUp_redeclare (iri referrer : String) :
    (m.redeclare f).lookUp iri referrer = Class.redeclare f <$> m.lookUp iri referrer := by
  rw [lookUp, lookUp, find?_redeclare]
  cases m.find? iri <;> rfl

theorem canEnter_redeclare (path : List String) (iri : String) :
    (m.redeclare f).canEnter path iri = m.canEnter path iri := by
  simp [canEnter, List.any_map, Function.comp_def]

theorem parent?_redeclare :
    (m.redeclare f).parent? (c.redeclare f) = Option.map (Class.redeclare f) <$> m.parent? c := by
  unfold parent?
  rw [Class.redeclare_parents]
  split
  · rfl
  · rw [lookUp_redeclare, Functor.map_map, Functor.map_map]
    rfl
  · rfl

theorem ancestorsAbove_redeclare {start : String} (seen : List String) : ∀ c,
    (m.redeclare f).ancestorsAbove start seen (c.redeclare f) =
      List.map (Class.redeclare f) <$> m.ancestorsAbove start seen c := by
  induction seen using walk_induction m with
  | step seen ih =>
    intro c
    rw [ancestorsAbove, ancestorsAbove, parent?_redeclare, bind_map_left, map_bind]
    refine bind_congr fun parent => ?_
    cases parent with
    | none => rfl
    | some parent =>
      have same : (m.redeclare f).canEnter seen (parent.redeclare f).iri =
        m.canEnter seen parent.iri := canEnter_redeclare ..
      dsimp only [Option.map_some]
      by_cases way : m.canEnter seen parent.iri
      · rw [dif_pos way, dif_pos (same.trans way), Class.redeclare_iri, ih parent.iri way,
          bind_map_left, map_bind]
        rfl
      · rw [dif_neg way, dif_neg fun entered => way (same.symm.trans entered)]
        rfl

theorem ancestors_redeclare : (m.redeclare f).ancestors (c.redeclare f) =
    List.map (Class.redeclare f) <$> m.ancestors c := ancestorsAbove_redeclare _ _

theorem addRoot_redeclare (roots : List Class) (iri : String) :
    (m.redeclare f).addRoot (roots.map (Class.redeclare f)) iri =
      List.map (Class.redeclare f) <$> m.addRoot roots iri := by
  unfold addRoot
  rw [Model.redeclare_iri, lookUp_redeclare, bind_map_left, map_bind]
  refine bind_congr fun c => ?_
  simp only [List.any_map, Function.comp_def, Class.redeclare_iri, List.find?_map,
    elementName_redeclare]
  split
  · rfl
  · cases roots.find? fun r => elementName r == elementName c with
    | some other => rfl
    | none => simp

theorem rootClasses_redeclare :
    (m.redeclare f).rootClasses = List.map (Class.redeclare f) <$> m.rootClasses := by
  have same : (m.rootCandidates.map id).foldlM (m.redeclare f).addRoot [] =
      List.map (Class.redeclare f) <$> m.rootCandidates.foldlM m.addRoot [] :=
    foldlM_map addRoot_redeclare m.rootCandidates []
  rwa [List.map_id] at same

/-! ### Shapes -/

theorem candidate_redeclare (t : DataType) : (m.redeclare f).candidate p t =
    Candidate.map (Class.redeclare f) <$> m.candidate p t := by
  cases t with
  | primitive iri => rfl
  | association target =>
    rw [candidate, candidate, lookUp_redeclare, bind_map_left, map_bind]
    refine bind_congr fun c => ?_
    rw [Class.redeclare_isCodelist]
    split <;> rfl

theorem parentIn_redeclare (candidates : List Class) (c : Class) :
    (m.redeclare f).parentIn p (candidates.map (Class.redeclare f)) (c.redeclare f) =
      Prod.map (Class.redeclare f) (Option.map (Class.redeclare f)) <$>
        m.parentIn p candidates c := by
  unfold parentIn
  rw [parent?_redeclare, bind_map_left, map_bind]
  refine bind_congr fun parent => ?_
  cases parent with
  | none => rfl
  | some parent =>
    dsimp only [Option.map_some]
    simp only [List.find?_map, Function.comp_def, Class.redeclare_iri]
    cases candidates.find? (·.iri == parent.iri) <;> rfl

/-- A candidate, with its parent if that is a candidate too. -/
def redeclareParent (f : Class → List Property) : Class × Option Class → Class × Option Class :=
  Prod.map (Class.redeclare f) (Option.map (Class.redeclare f))

theorem derivations_redeclare (parents : List (Class × Option Class)) :
    (parents.map (redeclareParent f)).filterMap (fun (c, parent) => parent.map (Derivation.mk c)) =
      (parents.filterMap fun (c, parent) => parent.map (Derivation.mk c)).map
        (Derivation.map (Class.redeclare f)) := by
  rw [List.filterMap_map, List.map_filterMap]
  exact List.filterMap_congr fun r _ => by rcases r with ⟨c, - | parent⟩ <;> rfl

theorem planChoice_redeclare (candidates : List Class) :
    (m.redeclare f).planChoice p (candidates.map (Class.redeclare f)) =
      ChoicePlan.map (Class.redeclare f) <$> m.planChoice p candidates := by
  unfold planChoice
  rw [mapM_map (parentIn_redeclare (f := f) candidates), bind_map_left, map_bind]
  refine bind_congr fun parents => ?_
  have roots : (parents.map (redeclareParent f)).filter (·.2.isNone) =
      (parents.filter (·.2.isNone)).map (redeclareParent f) := by
    rw [List.filter_map]
    congr 2
    funext r
    rcases r with ⟨c, - | parent⟩ <;> rfl
  have labels : (candidates.map (Class.redeclare f)).map (·.label) =
      candidates.map (·.label) := List.map_map
  dsimp only
  rw [show Prod.map (Class.redeclare f) (Option.map (Class.redeclare f)) = redeclareParent f
    from rfl, derivations_redeclare, roots, labels]
  generalize parents.filter (fun r => r.2.isNone) = found
  rcases found with - | ⟨r, - | ⟨r', rest⟩⟩ <;> rfl

theorem shapeOf_redeclare :
    (m.redeclare f).shapeOf p = Shape.map (Class.redeclare f) <$> m.shapeOf p := by
  unfold shapeOf
  dsimp only
  split
  · rfl
  · have same : (p.types.map id).mapM ((m.redeclare f).candidate p) =
        List.map (Candidate.map (Class.redeclare f)) <$> p.types.mapM (m.candidate p) :=
      mapM_map candidate_redeclare p.types
    rw [List.map_id] at same
    rw [same, bind_map_left, map_bind]
    refine bind_congr fun candidates => ?_
    have choice (cs : List Class) :
        Shape.choice <$> (m.redeclare f).planChoice p (cs.map (Class.redeclare f)) =
          Shape.map (Class.redeclare f) <$> Shape.choice <$> m.planChoice p cs := by
      rw [planChoice_redeclare, Functor.map_map, Functor.map_map]
      rfl
    rw [plain?_map, described?_map, distinctClasses_map (g := Class.redeclare f) fun _ => rfl]
    generalize candidates.filterMap (·.plain?) = primitives
    generalize distinctClasses (candidates.filterMap (·.described?)) = classes
    rcases primitives with - | ⟨one, others⟩
    · rcases classes with - | ⟨c, - | ⟨d, rest⟩⟩
      · exact choice []
      · rfl
      · exact choice (c :: d :: rest)
    · rcases classes with - | ⟨c, rest⟩ <;> rfl

theorem spliceTarget_redeclare :
    (m.redeclare f).spliceTarget p = Class.redeclare f <$> m.spliceTarget p := by
  unfold spliceTarget
  rw [shapeOf_redeclare, bind_map_left, map_bind]
  refine bind_congr fun shape => ?_
  cases shape with
  | single c =>
    dsimp only [Shape.map]
    rw [isForeign_redeclare]
    split <;> rfl
  | primitive _ | choice _ => rfl

/-! ### Spliced properties -/

/-- A property that leads to what another one leads to, if both are spliced. -/
def SplicesTo (m : Model) (f : Class → List Property) (p q : Property) : Prop :=
  q.iri = p.iri ∧ (m.redeclare f).spliceTarget q = Class.redeclare f <$> m.spliceTarget p

/-- Classes splice the same classes whichever properties they have. -/
def SplicesAlike (m : Model) (f : Class → List Property) : Prop := ∀ c,
  Alike Eq (List.Forall₂ (m.SplicesTo f)) (List.filter (·.isSpliced) <$> m.effectiveProperties c)
    (List.filter (·.isSpliced) <$> (m.redeclare f).effectiveProperties (c.redeclare f))

theorem followSplice_redeclare {path : List String} {q : Property}
    (inner : ∀ done c, (m.redeclare f).followSplices path done (c.redeclare f) =
      m.followSplices path done c) (done : List String) (h : m.SplicesTo f p q) :
    (m.redeclare f).followSplice path done q = m.followSplice path done p := by
  unfold followSplice
  rw [h.2, bind_map_left, h.1]
  refine bind_congr fun target => ?_
  rw [Class.redeclare_iri, inner]

theorem followSplices_redeclare (same : m.SplicesAlike f) (path : List String) : ∀ done c,
    (m.redeclare f).followSplices path done (c.redeclare f) = m.followSplices path done c := by
  induction path using walk_induction m with
  | step path ih =>
    intro done c
    rw [followSplices_eq, followSplices_eq, canEnter_redeclare, Class.redeclare_iri]
    split
    · rfl
    split
    next way =>
      have followed : Alike Eq Eq
          (List.filter (·.isSpliced) <$> m.effectiveProperties c >>= fun ps => do
            let done ← ps.foldlM (m.followSplice (c.iri :: path)) done
            return c.iri :: done)
          (List.filter (·.isSpliced) <$> (m.redeclare f).effectiveProperties (c.redeclare f) >>=
            fun ps => do
              let done ← ps.foldlM ((m.redeclare f).followSplice (c.iri :: path)) done
              return c.iri :: done) := by
        refine (same c).bind fun ps qs spliced => ?_
        refine (Alike.foldlM (S := Eq) spliced ?_ rfl).bind fun done done' same =>
          .ok (by rw [same])
        rintro done _ p q rfl h
        rw [followSplice_redeclare (ih c.iri way) done h]
        exact .refl
      simp only [bind_map_left] at followed
      exact followed.eq.symm
    next => rfl

theorem checkSplicing_redeclare (same : m.SplicesAlike f) :
    (m.redeclare f).checkSplicing = m.checkSplicing := by
  unfold checkSplicing
  rw [redeclare_classes, List.foldlM_map]
  exact congrArg (· >>= _)
    (foldlM_congr (fun c _ done => followSplices_redeclare same [] done c) [])

/-- Properties that are spliced can only be seen among those that stay. -/
def KeepsSpliced (f : Class → List Property) : Prop :=
  ∀ c, (f c).filter (·.isSpliced) = c.properties.filter (·.isSpliced)

theorem KeepsSpliced.alike (keeps : KeepsSpliced f) : m.SplicesAlike f := by
  intro c
  have each (cs : List Class) :
      ((cs.map (Class.redeclare f)).flatMap (·.properties)).filter (·.isSpliced) =
        (cs.flatMap (·.properties)).filter (·.isSpliced) := by
    rw [List.flatMap_map, List.filter_flatMap, List.filter_flatMap]
    exact congrArg (cs.flatMap ·) (funext keeps)
  unfold effectiveProperties
  rw [ancestors_redeclare, bind_map_left, map_bind, map_bind]
  refine Alike.refl.bind ?_
  rintro above _ rfl
  refine .ok ?_
  rw [← List.map_reverse, ← List.map_singleton, ← List.map_append, each]
  exact List.forall₂_same.mpr fun p _ => ⟨rfl, spliceTarget_redeclare⟩

/-! ### Properties that nothing looks at -/

/-- The classes whose properties are replaced are neither described, nor roots, nor parents of
others. -/
structure Hides (m : Model) (f : Class → List Property) : Prop where
  closed : ∀ c ∈ m.classes, f c ≠ c.properties → m.isForeign c ∨ c.isCodelist
  roots : ∀ c ∈ m.classes, f c ≠ c.properties → ¬ m.isRoot c.iri
  parents : ∀ c ∈ m.classes, f c = c.properties → ∀ d, m.parent? c = .ok (some d) →
    f d = d.properties

theorem redeclare_eq : c.redeclare f = c ↔ f c = c.properties := by
  constructor
  · exact fun same => congrArg Class.properties same
  · intro same
    rw [Class.redeclare, same]

theorem map_redeclare_eq {cs : List Class} (shown : ∀ c ∈ cs, f c = c.properties) :
    cs.map (Class.redeclare f) = cs :=
  (List.map_congr_left fun c member => redeclare_eq.mpr (shown c member)).trans (List.map_id cs)

namespace Hides

theorem ancestorsAbove (h : Hides m f) {start : String} (seen : List String) :
    ∀ c ∈ m.classes, f c = c.properties → ∀ above, m.ancestorsAbove start seen c = .ok above →
      ∀ d ∈ above, f d = d.properties := by
  induction seen using walk_induction m with
  | step seen ih =>
    intro c member shown above walked d among
    rw [Model.ancestorsAbove] at walked
    obtain ⟨parent, found, walked⟩ := except_bind_ok walked
    cases parent with
    | none =>
      obtain rfl := Except.ok.inj walked
      cases among
    | some parent =>
      have next := h.parents c member shown parent found
      dsimp only at walked
      split at walked
      next way =>
        obtain ⟨rest, onward, same⟩ := except_bind_ok walked
        obtain rfl := Except.ok.inj same
        rcases List.mem_cons.mp among with rfl | among
        · exact next
        · exact ih parent.iri way parent (knows_mem (parent?_knows found)) next rest onward d among
      next => cases walked

theorem effectiveProperties (h : Hides m f) (member : c ∈ m.classes)
    (shown : f c = c.properties) :
    (m.redeclare f).effectiveProperties c = m.effectiveProperties c := by
  have same := ancestors_redeclare (m := m) (f := f) (c := c)
  rw [redeclare_eq.mpr shown] at same
  unfold Model.effectiveProperties
  rw [same, bind_map_left]
  cases walked : m.ancestors c with
  | error e => rfl
  | ok above =>
    have shown := h.ancestorsAbove [c.iri] c member shown above walked
    exact congrArg (fun above => Except.ok ((above.reverse ++ [c]).flatMap (·.properties)))
      (map_redeclare_eq shown)

theorem parent? (h : Hides m f) (member : c ∈ m.classes) (shown : f c = c.properties) :
    (m.redeclare f).parent? c = m.parent? c := by
  have same := parent?_redeclare (m := m) (f := f) (c := c)
  rw [redeclare_eq.mpr shown] at same
  rw [same]
  cases found : m.parent? c with
  | error e => rfl
  | ok parent =>
    cases parent with
    | none => rfl
    | some d =>
      exact congrArg (fun d => Except.ok (some d))
        (redeclare_eq.mpr (h.parents c member shown d found))

theorem of_described (h : Hides m f) (member : c ∈ m.describedClasses) : f c = c.properties := by
  obtain ⟨among, plain⟩ := List.mem_filter.mp member
  by_contra changed
  rcases h.closed c among changed with foreign | codelist
  · simp [foreign] at plain
  · simp [codelist] at plain

theorem describedClasses (h : Hides m f) :
    (m.redeclare f).describedClasses = m.describedClasses := by
  have all : (m.redeclare f).describedClasses = m.describedClasses.map (Class.redeclare f) :=
    List.filter_map
  exact all.trans (map_redeclare_eq fun c => h.of_described)

theorem of_root (h : Hides m f) (member : c ∈ m.classes) (root : m.isRoot c.iri) :
    f c = c.properties := by
  by_contra changed
  exact h.roots c member changed root

theorem rootClasses (h : Hides m f) : (m.redeclare f).rootClasses = m.rootClasses := by
  rw [rootClasses_redeclare]
  cases found : m.rootClasses with
  | error e => rfl
  | ok roots =>
    refine congrArg Except.ok (map_redeclare_eq fun c member => ?_)
    exact h.of_root (knows_mem (rootClasses_knows found c member))
      (rootClasses_isRoot found c member)

theorem of_describable (h : Hides m f) (describable : m.Describable c)
    (own : m.isForeign c = false) : f c = c.properties :=
  h.of_described (List.mem_filter.mpr ⟨knows_mem describable.1, by simp [own, describable.2]⟩)

end Hides

end Model

theorem ClassNames.ofModel_redeclare (m : Model) (f : Class → List Property) :
    ClassNames.ofModel (m.redeclare f) = ClassNames.ofModel m := List.foldl_map

@[simp] theorem ClassNames.get_redeclare (t : ClassNames) (f : Class → List Property) (c : Class) :
    t.get (c.redeclare f) = t.get c := rfl

@[simp] theorem Import.Outlook.resolve_redeclare (o : Import.Outlook) (m : Model)
    (f : Class → List Property) (c : Class) :
    o.resolve (m.redeclare f) (c.redeclare f) = o.resolve m c := rfl

end RdfXmlMapping
