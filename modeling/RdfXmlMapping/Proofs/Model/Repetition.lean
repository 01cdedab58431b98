import RdfXmlMapping.Model.Recursion
import RdfXmlMapping.Proofs.Model.Redeclare
import RdfXmlMapping.Proofs.Model.Shapes

/-!
Models in which data of properties are repeated. A further copy of a datum is dropped where classes
are collected and kept where plain values are (`shapeOf_repeats`). All else that is read off a model
stays as it is, since classes are looked at for their identity and plain values only counted.
-/

namespace RdfXmlMapping

/-- The property itself, or the property with a further copy of one of its data after the first. -/
inductive Property.Repeats (p : Property) : Property → Prop
  | same : Repeats p p
  | further {before after : List DataType} {t : DataType} : p.types = before ++ after →
      t ∈ before → Repeats p { p with types := before ++ t :: after }

/-- The shape itself, or plain values with a further copy of one of them after the first. -/
inductive Shape.Repeats (shape : Shape) : Shape → Prop
  | same : Repeats shape shape
  | further {before after : List Primitive} {v : Primitive} : shape = .primitive (before ++ after) →
      v ∈ before → Repeats shape (.primitive (before ++ v :: after))

/-- The properties of each class are those it has, with data repeated in some of them. -/
def Repeating (f : Class → List Property) : Prop :=
  ∀ c, List.Forall₂ Property.Repeats c.properties (f c)

theorem forall₂_redeclare (f : Class → List Property) (cs : List Class) :
    List.Forall₂ (fun c c' => c' = c.redeclare f) cs (cs.map (Class.redeclare f)) :=
  forall₂_map fun _ _ => rfl

theorem Property.Repeats.fields {p q : Property} (h : p.Repeats q) :
    q = { p with types := q.types } := by
  cases h <;> rfl

theorem Property.Repeats.longer {p q : Property} (h : p.Repeats q) (changed : q ≠ p) :
    q.types.length = p.types.length + 1 := by
  cases h with
  | same => exact absurd rfl changed
  | further given _ =>
    rw [given, List.length_append, List.length_append, List.length_cons]
    omega

namespace Model

variable {m : Model} {f : Class → List Property} {p q : Property} {c : Class}

/-! ### Shapes -/

theorem distinctClasses_again {before after : List Class} (member : c ∈ before) :
    distinctClasses (before ++ c :: after) = distinctClasses (before ++ after) := by
  have kept : (distinctClasses before).any (·.iri == c.iri) := by
    obtain ⟨d, among, same⟩ := distinctClasses_covers member
    exact List.any_eq_true.mpr ⟨d, among, beq_iff_eq.mpr same⟩
  have fold (rest : List Class) : distinctClasses (before ++ rest) = rest.foldl
      (fun kept c => if kept.any (·.iri == c.iri) then kept else kept ++ [c])
      (distinctClasses before) := List.foldl_append
  rw [fold, fold, List.foldl_cons, if_pos kept]

theorem combine_again {before after : List Candidate} {r : Candidate} (member : r ∈ before) :
    Alike Eq Shape.Repeats (m.combine p (before ++ after))
      (m.combine p (before ++ r :: after)) := by
  have refl (x : Generated Shape) : Alike Eq Shape.Repeats x x := by
    cases x with
    | ok shape => exact .ok .same
    | error e => exact .error rfl
  unfold combine
  rw [List.filterMap_append, List.filterMap_append, List.filterMap_append, List.filterMap_append]
  cases r with
  | described c =>
    have among : c ∈ before.filterMap (·.described?) := List.mem_filterMap.mpr ⟨_, member, rfl⟩
    have plain : (Candidate.described c :: after).filterMap (·.plain?) =
      after.filterMap (·.plain?) := rfl
    have described : (Candidate.described c :: after).filterMap (·.described?) =
      c :: after.filterMap (·.described?) := rfl
    rw [plain, described, distinctClasses_again among]
    exact refl _
  | plain v =>
    have among : v ∈ before.filterMap (·.plain?) := List.mem_filterMap.mpr ⟨_, member, rfl⟩
    have plain : (Candidate.plain v :: after).filterMap (·.plain?) =
      v :: after.filterMap (·.plain?) := rfl
    have described : (Candidate.plain v :: after).filterMap (·.described?) =
      after.filterMap (·.described?) := rfl
    rw [plain, described]
    generalize before.filterMap (·.plain?) = vs at among
    generalize after.filterMap (·.plain?) = ws
    cases vs with
    | nil => cases among
    | cons w vs =>
      cases distinctClasses (before.filterMap (·.described?) ++ after.filterMap (·.described?)) with
      | nil => exact .ok (.further rfl among)
      | cons c cs => exact .error rfl

/-- A further copy of an element is mapped to a further copy of what the element is mapped to. -/
theorem mapM_again {ε α β : Type} {g : α → Except ε β} {before after : List α} {x : α}
    (member : x ∈ before) : Alike Eq
      (fun ys zs => ∃ bs as y, y ∈ bs ∧ ys = bs ++ as ∧ zs = bs ++ y :: as)
      ((before ++ after).mapM g) ((before ++ x :: after).mapM g) := by
  rw [List.mapM_append, List.mapM_append, List.mapM_cons]
  cases first : before.mapM g with
  | error e => exact .error rfl
  | ok bs =>
    obtain ⟨y, among, made⟩ := forall₂_mem_left (except_mapM_ok first) member
    rw [made]
    cases after.mapM g with
    | error e => exact .error rfl
    | ok as => exact .ok ⟨bs, as, y, among, rfl, rfl⟩

/-- A further copy of a datum stays among plain values, and changes nothing else. -/
theorem shapeOf_repeats (h : p.Repeats q) :
    Alike Eq Shape.Repeats (m.shapeOf p) (m.shapeOf q) := by
  cases h with
  | same =>
    cases m.shapeOf p with
    | ok shape => exact .ok .same
    | error e => exact .error rfl
  | @further before after t given member =>
    have filled : p.types ≠ [] := by
      rw [given]
      exact List.append_ne_nil_of_left_ne_nil (List.ne_nil_of_mem member) _
    rw [shapeOf_combine filled, shapeOf_combine (by simp), given]
    refine (mapM_again (g := m.candidate p) member).bind ?_
    rintro _ _ ⟨bs, as, r, among, rfl, rfl⟩
    exact combine_again among

theorem shapeOf_redeclare_repeats (h : p.Repeats q) : Alike Eq
    (fun shape shape' => ∃ again, shape.Repeats again ∧ shape' = again.map (Class.redeclare f))
    (m.shapeOf p) ((m.redeclare f).shapeOf q) := by
  rw [shapeOf_redeclare]
  have both := shapeOf_repeats (m := m) h
  generalize m.shapeOf p = x, m.shapeOf q = y at both ⊢
  cases both with
  | ok repeated => exact .ok ⟨_, repeated, rfl⟩
  | error same => exact .error same

theorem spliceTarget_repeats (h : p.Repeats q) :
    (m.redeclare f).spliceTarget q = Class.redeclare f <$> m.spliceTarget p := by
  rw [spliceTarget_redeclare]
  refine congrArg _ (Alike.eq ?_).symm
  have iri : q.iri = p.iri := by rw [h.fields]
  unfold spliceTarget
  rw [iri]
  refine (shapeOf_repeats h).bind fun shape again repeated => ?_
  cases repeated with
  | same => exact .refl
  | further plain _ =>
    rw [plain]
    exact .refl

/-- Each datum of a property with plain values is one of them. -/
theorem shapeOf_plain_length {vs : List Primitive} (h : m.shapeOf p = .ok (.primitive vs)) :
    vs.length = p.types.length := by
  obtain ⟨r, resolves⟩ := m.resolves_exists p
  obtain rfl := h.symm.trans resolves.shapeOf_eq
  cases resolves with
  | plain _ each => exact each.length_eq.symm

/-- A further copy of a datum shows in the shape if and only if the property has plain values. -/
theorem shapeOf_repeats_iff (h : p.Repeats q) :
    m.shapeOf q = m.shapeOf p ↔ q = p ∨ ∀ vs, m.shapeOf p ≠ .ok (.primitive vs) := by
  constructor
  · intro same
    by_contra both
    obtain ⟨changed, plain⟩ := not_or.mp both
    obtain ⟨vs, read⟩ := not_forall_not.mp plain
    have longer := h.longer changed
    have counted := shapeOf_plain_length read
    have counted' := shapeOf_plain_length (same.trans read)
    omega
  · rintro (rfl | other)
    · rfl
    · have both := shapeOf_repeats (m := m) h
      generalize m.shapeOf q = y at both ⊢
      generalize m.shapeOf p = x at both other ⊢
      cases both with
      | error same => rw [same]
      | ok repeated =>
        cases repeated with
        | same => rfl
        | further given _ => exact absurd (congrArg Except.ok given) (other _)

/-! ### Plain values that are alone -/

/-- The only plain value of a property comes twice. -/
structure Doubled (m : Model) (p q : Property) : Prop where
  changed : q ≠ p
  inPlace : p.isSpliced = false
  alone : ∃ v, m.shapeOf p = .ok (.primitive [v])

/-- The property is one that a class which is described has or inherits, and its only plain value
comes twice. -/
def Doubles (m : Model) (f : Class → List Property) (p q : Property) : Prop :=
  ∃ c ∈ m.describedClasses, ∃ ps qs, m.effectiveProperties c = .ok ps ∧
    (m.redeclare f).effectiveProperties (c.redeclare f) = .ok qs ∧ (p, q) ∈ ps.zip qs ∧
    m.Doubled p q

/-- Why a stylesheet that can only handle one plain value of a property is refused. -/
def Plural (m : Model) (f : Class → List Property) (e : GenerationError) : Prop :=
  ∃ p q, m.Doubles f p q ∧ e = .multiplePrimitiveTypes p.iri

theorem only_several {vs : List Primitive} (several : vs.length ≠ 1) :
    Primitive.only p vs = .error (.multiplePrimitiveTypes p.iri) := by
  match vs, several with
  | [], _ => rfl
  | _ :: _ :: _, _ => rfl

/-- A further copy of a plain value leads to a refusal, which is a new one if the value was
alone. -/
theorem only_repeats {before after : List Primitive} {v : Primitive} (member : v ∈ before)
    (alone : (before ++ after).length = 1 → m.Doubles f p q) :
    Halts (m.Plural f) Eq (Primitive.only p (before ++ after))
      (Primitive.only p (before ++ v :: after)) := by
  have some : 0 < before.length := List.length_pos_of_mem member
  have several : (before ++ v :: after).length ≠ 1 := by
    rw [List.length_append, List.length_cons]
    omega
  rw [only_several several]
  by_cases one : (before ++ after).length = 1
  · exact .stopped ⟨p, q, alone one, rfl⟩
  · rw [only_several one]
    exact .alike .refl

theorem Doubled.several (twice : m.Doubled p q) (h : p.Repeats q) : q.isSpliced = false ∧
    ∃ ws, (m.redeclare f).shapeOf q = .ok (.primitive ws) ∧ ws.length = 2 := by
  refine ⟨by rw [h.fields]; exact twice.inPlace, ?_⟩
  obtain ⟨v, alone⟩ := twice.alone
  have both := shapeOf_redeclare_repeats (m := m) (f := f) h
  rw [alone] at both
  generalize read : (m.redeclare f).shapeOf q = x at both ⊢
  cases both with
  | ok found =>
    obtain ⟨again, repeated, rfl⟩ := found
    have plain : ∃ ws, again.map (Class.redeclare f) = .primitive ws := by
      cases repeated <;> exact ⟨_, rfl⟩
    obtain ⟨ws, plain⟩ := plain
    rw [plain] at read ⊢
    refine ⟨ws, rfl, ?_⟩
    rw [shapeOf_plain_length read, h.longer twice.changed, ← shapeOf_plain_length alone]
    rfl

/-- A plain value that is alone and gets a further copy comes twice. -/
theorem Doubled.of_further {before after : List Primitive} {v : Primitive} {g : Class → Class}
    (inPlace : p.isSpliced = false) (read : m.shapeOf p = .ok (.primitive (before ++ after)))
    (read' : (m.redeclare f).shapeOf q = .ok (Shape.map g (.primitive (before ++ v :: after))))
    (one : (before ++ after).length = 1) : m.Doubled p q := by
  refine ⟨?_, inPlace, ?_⟩
  · rintro rfl
    have counted := shapeOf_plain_length read
    have counted' := shapeOf_plain_length read'
    simp only [List.length_map, List.length_append, List.length_cons] at counted counted'
    omega
  · obtain ⟨w, alone⟩ := List.length_eq_one_iff.mp one
    exact ⟨w, alone ▸ read⟩

/-! ### Properties of a class -/

theorem effectiveProperties_repeats (again : Repeating f) :
    Alike Eq (List.Forall₂ Property.Repeats) (m.effectiveProperties c)
      ((m.redeclare f).effectiveProperties (c.redeclare f)) := by
  unfold effectiveProperties
  rw [ancestors_redeclare, bind_map_left]
  refine Alike.refl.bind ?_
  rintro above _ rfl
  rw [← List.map_reverse, ← List.map_singleton, ← List.map_append]
  refine .ok (List.rel_flatMap (forall₂_redeclare f _) ?_)
  rintro d _ rfl
  exact again d

theorem effectiveProperties_doubles (again : Repeating f) (described : c ∈ m.describedClasses) :
    Alike Eq (List.Forall₂ fun p q => p.Repeats q ∧ (m.Doubled p q → m.Doubles f p q))
      (m.effectiveProperties c) ((m.redeclare f).effectiveProperties (c.redeclare f)) := by
  have both := effectiveProperties_repeats (m := m) (c := c) again
  generalize own : m.effectiveProperties c = x,
    own' : (m.redeclare f).effectiveProperties (c.redeclare f) = x' at both ⊢
  cases both with
  | error same => exact .error same
  | @ok ps qs each =>
    obtain ⟨count, zipped⟩ := List.forall₂_iff_zip.mp each
    exact .ok (List.forall₂_iff_zip.mpr ⟨count, fun {p q} pair =>
      ⟨zipped pair, fun twice => ⟨c, described, ps, qs, own, own', pair, twice⟩⟩⟩)

/-- A class none of whose properties has several plain values. -/
def PlainAlone (m : Model) (c : Class) : Prop := ∀ ps, m.effectiveProperties c = .ok ps →
  ∀ p ∈ ps, p.isSpliced = false → ∀ vs, m.shapeOf p = .ok (.primitive vs) → vs.length = 1

theorem Doubles.shown (again : Repeating f) (h : m.Doubles f p q) :
    ∃ c ∈ (m.redeclare f).describedClasses, ¬ (m.redeclare f).PlainAlone c := by
  obtain ⟨c, described, ps, qs, own, own', pair, twice⟩ := h
  have both := effectiveProperties_repeats (m := m) (c := c) again
  rw [own, own'] at both
  have repeated : p.Repeats q := by
    cases both with
    | ok each => exact (List.forall₂_iff_zip.mp each).2 pair
  obtain ⟨inPlace, ws, read, two⟩ := twice.several (f := f) repeated
  obtain ⟨among, plain⟩ := List.mem_filter.mp described
  refine ⟨c.redeclare f, List.mem_filter.mpr ⟨List.mem_map_of_mem among, plain⟩, fun alone => ?_⟩
  have one := alone qs own' q (List.of_mem_zip pair).2 inPlace ws read
  omega

theorem propertyCount_repeats (again : Repeating f) :
    (m.redeclare f).propertyCount = m.propertyCount := by
  have each (c : Class) : (c.redeclare f).properties.length = c.properties.length :=
    (again c).length_eq.symm
  simp only [propertyCount, redeclare_classes, List.length_flatMap, List.map_map,
    Function.comp_def, each]

/-! ### Spliced properties -/

theorem splices_repeats (again : Repeating f) : m.SplicesAlike f := fun c =>
  (effectiveProperties_repeats again).map fun ps qs own =>
    (forall₂_filter own fun p q h => by rw [h.fields]).imp fun p q h =>
      ⟨by rw [h.fields], spliceTarget_repeats h⟩

/-! ### Circles -/

theorem targets_repeats {shape shape' : Shape} (h : shape.Repeats shape') :
    (shape'.map (Class.redeclare f)).targets = shape.targets.map (Class.redeclare f) := by
  cases h with
  | same => cases shape <;> rfl
  | further plain _ =>
    rw [plain]
    rfl

theorem successors_repeats (again : Repeating f) :
    Alike Eq (fun ds ds' => ds' = ds.map (Class.redeclare f)) (m.successors c)
      ((m.redeclare f).successors (c.redeclare f)) := by
  unfold successors
  rw [parent?_redeclare, bind_map_left]
  refine Alike.refl.bind ?_
  rintro parent _ rfl
  refine (Alike.mapM (again c) fun p q h => shapeOf_redeclare_repeats (f := f) h).bind
    fun shapes shapes' read => .ok ?_
  have targets : shapes'.flatMap Shape.targets =
      (shapes.flatMap Shape.targets).map (Class.redeclare f) := by
    induction read with
    | nil => rfl
    | cons first _ ih =>
      obtain ⟨shape, repeated, rfl⟩ := first
      rw [List.flatMap_cons, List.flatMap_cons, List.map_append, ih, targets_repeats repeated]
  rw [targets, List.map_append]
  cases parent <;> rfl

theorem walk_repeats (again : Repeating f) (path : List String) : ∀ done c,
    (m.redeclare f).walk path done (c.redeclare f) = m.walk path done c := by
  induction path using walk_induction m with
  | step path ih =>
    intro done c
    rw [walk, walk, Class.redeclare_iri]
    split
    · rfl
    have same : (m.redeclare f).canEnter path c.iri = m.canEnter path c.iri :=
      canEnter_redeclare path c.iri
    by_cases way : m.canEnter path c.iri
    · rw [dif_pos way, dif_pos (same.trans way)]
      refine (Alike.eq ((successors_repeats again).bind ?_)).symm
      rintro next _ rfl
      rw [List.foldlM_map]
      rw [foldlM_congr fun d _ done => ih c.iri way done d]
      exact .refl
    · rw [dif_neg way, dif_neg fun entered => way (same.symm.trans entered)]

theorem checkAcyclic_repeats (again : Repeating f) :
    (m.redeclare f).checkAcyclic = m.checkAcyclic := by
  have root (done : List String) (iri : String) :
      (do (m.redeclare f).walk [] done (← (m.redeclare f).lookUp iri (m.redeclare f).iri)) =
        (do m.walk [] done (← m.lookUp iri m.iri)) := by
    rw [lookUp_redeclare, bind_map_left]
    exact bind_congr fun c => walk_repeats again [] done c
  unfold checkAcyclic
  simp only [root]
  rfl

end Model

end RdfXmlMapping
