import Mathlib.Data.List.Forall2
import RdfXmlMapping.Proofs.Model.Shapes
import RdfXmlMapping.Proofs.Query.Trees

/-!
How deep the triples of a query lie in groups that may be missing and in branches of which one
applies. `nesting_dictated`: the depth of each is told from the path of properties that leads to it.
-/

namespace RdfXmlMapping

namespace Model

/-- The values of a property are the instances of one class. -/
def leadsToOne (m : Model) (p : Property) : Bool :=
  match m.shapeOf p with
  | .ok (.single _) => true
  | _ => false

/-- The values of a property are the instances of one of several classes. -/
def leadsToChoice (m : Model) (p : Property) : Bool :=
  match m.shapeOf p with
  | .ok (.choice _) => true
  | _ => false

end Model

namespace Query

/-! ### Depths -/

/-- The numbers of groups that may be missing and of branches around a triple. -/
structure Depth where
  optionals : Nat
  branches : Nat
  deriving DecidableEq, Repr

def Depth.optional (d : Depth) : Depth := { d with optionals := d.optionals + 1 }

def Depth.branch (d : Depth) : Depth := { d with branches := d.branches + 1 }

mutual

/-- The triples of a condition, each with its depth, where the condition itself has the depth
`d`. -/
def Pattern.nestings (d : Depth) : Pattern → List (Triple × Depth)
  | .triple t => [(t, d)]
  | .optional group => groupNestings d.optional group
  | .union branches => branchNestings d.branch branches

def groupNestings (d : Depth) : List Pattern → List (Triple × Depth)
  | [] => []
  | p :: ps => p.nestings d ++ groupNestings d ps

def branchNestings (d : Depth) : List (List Pattern) → List (Triple × Depth)
  | [] => []
  | b :: bs => groupNestings d b ++ branchNestings d bs

end

variable {m : Model} {d : Depth}

mutual

theorem Pattern.nestings_fst (d : Depth) : (p : Pattern) → (p.nestings d).map (·.1) = p.triples
  | .triple _ => rfl
  | .optional group => groupNestings_fst d.optional group
  | .union branches => branchNestings_fst d.branch branches

theorem groupNestings_fst (d : Depth) : (ps : List Pattern) →
    (groupNestings d ps).map (·.1) = groupTriples ps
  | [] => rfl
  | p :: ps => by
    rw [groupNestings, List.map_append, Pattern.nestings_fst d p, groupNestings_fst d ps,
      groupTriples]

theorem branchNestings_fst (d : Depth) : (bs : List (List Pattern)) →
    (branchNestings d bs).map (·.1) = branchTriples bs
  | [] => rfl
  | b :: bs => by
    rw [branchNestings, List.map_append, groupNestings_fst d b, branchNestings_fst d bs,
      branchTriples]

end

theorem groupNestings_append (ps qs : List Pattern) :
    groupNestings d (ps ++ qs) = groupNestings d ps ++ groupNestings d qs := by
  induction ps with
  | nil => rfl
  | cons p ps ih => rw [List.cons_append, groupNestings, groupNestings, ih, List.append_assoc]

theorem groupNestings_singleton (p : Pattern) : groupNestings d [p] = p.nestings d := by
  simp [groupNestings]

/-! ### Depths told from the model -/

/-- The property that a step goes over: that of its number among all properties of its class. -/
def StepOver (m : Model) (step : Step) (p : Property) : Prop :=
  ∃ c ps, m.find? step.iri = some c ∧ m.effectiveProperties c = .ok ps ∧
    ps[step.property]? = some p

/-- The properties on the way to a place. -/
def Along (m : Model) (place : Place) (ps : List Property) : Prop :=
  List.Forall₂ (StepOver m) place.path ps

/-- The number of candidates for the root of documents of a group. -/
def groupSize (m : Model) (group : Nat) : Nat := (m.roots[group]?.getD []).length

/-- The class of a resource need not be stated: it is one of several for a root, or the only one for
the value of a property. -/
def typeIsOptional (m : Model) (group : Nat) (ps : List Property) : Bool :=
  match ps.getLast? with
  | none => 1 < groupSize m group
  | some p => m.leadsToOne p

/-- The branches around all that is said about the documents of a group. -/
def rootBranches (m : Model) (group : Nat) : Nat :=
  (if groupSize m group = 1 then 0 else 1) + if m.roots.length = 1 then 0 else 1

/-- The depth of what is said about a resource to which the properties lead. -/
def depthAlong (m : Model) (group : Nat) (ps : List Property) : Depth where
  optionals := ps.countP (·.isOptional)
  branches := ps.countP m.leadsToChoice + rootBranches m group

/-- The depth at which a fact is said. -/
inductive Dictates (m : Model) : Fact → Depth → Prop
  | isA {place : Place} {iri meaning : String} {ps : List Property} : Along m place ps →
      Dictates m (.isA place iri meaning)
        ⟨ps.countP (·.isOptional) + (typeIsOptional m place.group ps).toNat,
          ps.countP m.leadsToChoice + rootBranches m place.group⟩
  | leads {owner value : Place} {iri : String} {p : Property} {ps : List Property} :
      Along m owner ps → Dictates m (.leads owner iri p value)
        ⟨(ps ++ [p]).countP (·.isOptional), ps.countP m.leadsToChoice + rootBranches m owner.group⟩

/-! ### What is made of a class -/

/-- The conditions are those that describe an instance of the class on some way to it. -/
def Portrays (m : Model) (typeIsOptional : Bool) (c : Class) (ps : List Pattern) : Prop :=
  ∃ path v s u, classPatterns m path v typeIsOptional c s = .ok (ps, u)

/-- The conditions state the class of an instance, if it has a meaning. -/
inductive StatesType (typeIsOptional : Bool) (c : Class) : List Pattern → Prop
  | nothing : c.meaning = none → StatesType typeIsOptional c []
  | stated {meaning : String} (t : Triple) : c.meaning = some meaning →
      StatesType typeIsOptional c [if typeIsOptional then .optional [.triple t] else .triple t]

/-- The conditions describe the values of a property. -/
inductive DescribesValue (m : Model) : Shape → List Pattern → Prop
  | literal {values : List Primitive} : DescribesValue m (.primitive values) []
  | single {c : Class} {ps : List Pattern} : Portrays m true c ps → DescribesValue m (.single c) ps
  | choice {plan : ChoicePlan} {branches : List (List Pattern)} :
      List.Forall₂ (Portrays m false) plan.candidates branches →
      DescribesValue m (.choice plan) [.union branches]

/-- The conditions lead over a property and describe its values. -/
def DescribesProperty (m : Model) (p : Property) (ps : List Pattern) : Prop :=
  ∃ shape t content, m.shapeOf p = .ok shape ∧ DescribesValue m shape content ∧
    ps = if p.isOptional then [.optional (.triple t :: content)] else .triple t :: content

variable {c : Class} {p : Property} {ps : List Pattern} {s u : Progress} {flag : Bool} {v : Nat}

theorem typePatterns_states (h : typePatterns v flag c s = .ok (ps, u)) : StatesType flag c ps := by
  cases read : c.meaning with
  | none =>
    rw [typePatterns_none _ _ read] at h
    cases h
    exact .nothing read
  | some meaning =>
    rw [typePatterns_some _ _ read] at h
    cases h
    exact .stated _ read

theorem portrays_all {path : List String} {cs : List Class} {out : List (List Pattern)}
    (h : Runs (classPatterns m path v flag) cs out s u) : List.Forall₂ (Portrays m flag) cs out :=
  runs_forall₂ h fun _ _ _ _ _ made => ⟨path, v, _, _, made⟩

theorem valuePatterns_describes {path : List String} {shape : Shape}
    (shaped : m.shapeOf p = .ok shape) (h : valuePatterns m path v shape s = .ok (ps, u)) :
    DescribesValue m shape ps := by
  cases shape with
  | primitive _ =>
    cases pure_ok h
    exact .literal
  | single target => exact .single ⟨path, v, s, u, h⟩
  | choice plan =>
    obtain ⟨branches, candidates, rfl⟩ := valuePatterns_choice_ok h
    have several : decide (plan.candidates.length = 1) = false :=
      decide_eq_false (by have := Model.shapeOf_choice_several shaped; omega)
    rw [several] at candidates
    exact .choice (portrays_all candidates)

/-- The type of an instance comes first, then its properties one after the other. -/
theorem Portrays.parts (h : Portrays m flag c ps) : ∃ type properties out,
    m.effectiveProperties c = .ok properties ∧ StatesType flag c type ∧
      List.Forall₂ (DescribesProperty m) properties out ∧ ps = type ++ out.flatten := by
  obtain ⟨path, v, s, u, h⟩ := h
  obtain ⟨_, type, s₁, properties, out, typed, inherited, described, rfl⟩ := classPatterns_ok h
  refine ⟨type, properties, out, inherited, typePatterns_states typed, ?_, rfl⟩
  refine runs_forall₂ described fun p _ group u w h => ?_
  obtain ⟨shape, value, e, u₃, content, shaped, _, led, followed, rfl⟩ := propertyPatterns_ok h
  rw [propertyTriple_eq] at led
  cases led
  exact ⟨shape, _, content, shaped, valuePatterns_describes shaped followed, rfl⟩

/-! ### Depths of what is made -/

/-- The facts are said at the depths of the triples. -/
def SaidAt (m : Model) (facts : List Fact) (nestings : List (Triple × Depth)) : Prop :=
  List.Forall₂ (Dictates m) facts (nestings.map (·.2))

variable {facts rest : List Fact} {xs ys : List (Triple × Depth)} {place : Place}
  {along : List Property} {group : Nat} {topic : Topic}

theorem SaidAt.append (first : SaidAt m facts xs) (second : SaidAt m rest ys) :
    SaidAt m (facts ++ rest) (xs ++ ys) := by
  rw [SaidAt, List.map_append]
  exact List.rel_append first second

theorem groupNestings_optional (isOptional : Bool) (ps : List Pattern) :
    groupNestings d (if isOptional then [.optional ps] else ps) =
      groupNestings (if isOptional then d.optional else d) ps := by
  cases isOptional with
  | false => rfl
  | true => exact groupNestings_singleton _

/-- The depth of the triple of a property. -/
def edgeDepth (m : Model) (group : Nat) (along : List Property) (p : Property) : Depth :=
  ⟨(along ++ [p]).countP (·.isOptional), along.countP m.leadsToChoice + rootBranches m group⟩

theorem edgeDepth_eq : edgeDepth m group along p =
    if p.isOptional then (depthAlong m group along).optional else depthAlong m group along := by
  rw [edgeDepth, List.countP_append, List.countP_singleton]
  split <;> rfl

theorem depthAlong_snoc : depthAlong m group (along ++ [p]) =
    if m.leadsToChoice p then (edgeDepth m group along p).branch
    else edgeDepth m group along p := by
  rw [depthAlong, edgeDepth, List.countP_append (p := m.leadsToChoice), List.countP_singleton]
  split
  · rw [Depth.branch, Nat.add_right_comm]
  · rfl

theorem typeIsOptional_snoc : typeIsOptional m group (along ++ [p]) = m.leadsToOne p := by
  simp [typeIsOptional]

/-- The classes of a topic are found under their identities, and its properties are those of its
class from the number on. -/
def Topic.Of (m : Model) : Topic → Prop
  | cls _ c => m.Knows c
  | properties _ iri k ps =>
    ∃ c all, m.find? iri = some c ∧ m.effectiveProperties c = .ok all ∧ all.drop k = ps
  | candidates _ cs => ∀ c ∈ cs, m.Knows c

/-- Whatever conditions are made for the topic say the facts at the right depths. -/
def Topic.Nested (m : Model) (place : Place) (along : List Property) (facts : List Fact) :
    Topic → Prop
  | cls _ c => ∀ ps, Portrays m (typeIsOptional m place.group along) c ps →
      SaidAt m facts (groupNestings (depthAlong m place.group along) ps)
  | properties _ _ _ ps => ∀ out, List.Forall₂ (DescribesProperty m) ps out →
      SaidAt m facts (groupNestings (depthAlong m place.group along) out.flatten)
  | candidates _ cs => ∀ branches,
      List.Forall₂ (Portrays m (typeIsOptional m place.group along)) cs branches →
      SaidAt m facts (branchNestings (depthAlong m place.group along) branches)

theorem StatesType.saidAt (h : StatesType (typeIsOptional m place.group along) c ps)
    (way : Along m place along) : SaidAt m (c.meaning.toList.map (.isA place c.iri))
      (groupNestings (depthAlong m place.group along) ps) := by
  cases h with
  | nothing none =>
    rw [none]
    exact .nil
  | @stated meaning t some =>
    have dictated : Dictates m (.isA place c.iri meaning) _ := .isA way
    rw [some, groupNestings_singleton]
    cases flag : typeIsOptional m place.group along <;> rw [flag] at dictated
    · exact .cons dictated .nil
    · exact .cons dictated .nil

/-- The description of a value lies as deep as the triple that leads to it, and one branch deeper if
it is one of several. -/
theorem DescribesValue.saidAt {shape : Shape} {number k : Nat} {iri : String}
    (h : DescribesValue m shape ps) (shaped : m.shapeOf p = .ok shape)
    (nested : Topic.Nested m (place.value number iri k) (along ++ [p]) facts
      (.candidates 0 shape.targets)) :
    SaidAt m facts (groupNestings (edgeDepth m place.group along p) ps) := by
  simp only [Topic.Nested, typeIsOptional_snoc, depthAlong_snoc, Model.leadsToOne,
    Model.leadsToChoice, shaped] at nested
  cases h with
  | literal => exact nested [] .nil
  | single made =>
    have said := nested [ps] (.cons made .nil)
    rw [branchNestings, branchNestings, List.append_nil] at said
    exact said
  | choice made =>
    rw [groupNestings_singleton]
    exact nested _ made

theorem FactsOf.nested (h : FactsOf m place topic facts) (of : topic.Of m)
    (way : Along m place along) : topic.Nested m place along facts := by
  induction h generalizing along with
  | @cls place number c properties facts outside inherited _ ih =>
    intro ps made
    obtain ⟨type, properties', out, inherited', stated, each, rfl⟩ := made.parts
    obtain rfl := Except.ok.inj (inherited.symm.trans inherited')
    rw [groupNestings_append]
    exact (stated.saidAt way).append (ih ⟨c, properties, of, inherited, rfl⟩ way out each)
  | noProperty =>
    intro out each
    cases each
    exact .nil
  | @property place number k iri p ps shape below rest shaped _ _ inner others =>
    intro out each
    obtain ⟨c, all, found, inherited, from_⟩ := of
    have here : all[k]? = some p := by rw [← List.head?_drop, from_, List.head?_cons]
    have later : all.drop (k + 1) = ps := by rw [← List.tail_drop, from_, List.tail_cons]
    have way' : Along m (place.value number iri k) (along ++ [p]) :=
      List.rel_append way (.cons ⟨c, all, found, inherited, here⟩ .nil)
    have known : ∀ d ∈ shape.targets, m.Knows d :=
      fun d member => Model.Targets.knows ⟨shape, shaped, member⟩
    cases each with
    | cons one each =>
      obtain ⟨shape', t, content, shaped', described, rfl⟩ := one
      obtain rfl := Except.ok.inj (shaped.symm.trans shaped')
      rw [List.flatten_cons, groupNestings_append, groupNestings_optional, ← edgeDepth_eq]
      refine SaidAt.append (.cons (.leads way) ?_)
        (others ⟨c, all, found, inherited, later⟩ way _ each)
      exact described.saidAt shaped (inner known way')
  | noCandidate =>
    intro branches each
    cases each
    exact .nil
  | candidate _ _ first rest =>
    intro branches each
    cases each with
    | cons one others =>
      obtain ⟨known, knows⟩ := List.forall_mem_cons.mp of
      exact (first known way _ one).append (rest knows way _ others)

/-! ### Roots -/

/-- The conditions describe the root of a document, which is an instance of one of the classes. -/
inductive DescribesRoot (m : Model) : List Class → List Pattern → Prop
  | one {c : Class} {ps : List Pattern} : Portrays m false c ps → DescribesRoot m [c] ps
  | several {cs : List Class} {branches : List (List Pattern)} : cs.length ≠ 1 →
      List.Forall₂ (Portrays m (1 < cs.length)) cs branches → DescribesRoot m cs [.union branches]

/-- The conditions describe the documents of a root group. -/
def DescribesGroup (m : Model) (group : List String) (ps : List Pattern) : Prop :=
  ∃ cs, List.Forall₂ (fun iri c => m.find? iri = some c) group cs ∧ DescribesRoot m cs ps

/-- The depth of all that is said about the documents of a model. -/
def modelDepth (m : Model) : Depth := ⟨0, if m.roots.length = 1 then 0 else 1⟩

theorem rootPatterns_describes {group : List String} (h : rootPatterns m group s = .ok (ps, u)) :
    DescribesGroup m group ps := by
  obtain ⟨candidates, found, ⟨c, rfl, made⟩ | ⟨many, branches, followed, rfl⟩⟩ := rootPatterns_ok h
  · exact ⟨[c], found, .one ⟨_, _, _, _, made⟩⟩
  · exact ⟨candidates, found, .several many (portrays_all followed)⟩

theorem DescribesRoot.saidAt {k : Nat} {cs : List Class} (h : DescribesRoot m cs ps)
    (size : groupSize m k = cs.length)
    (nested : Topic.Nested m (.root k) [] facts (.candidates 0 cs)) :
    SaidAt m facts (groupNestings (modelDepth m) ps) := by
  have depth : depthAlong m k [] =
      if cs.length = 1 then modelDepth m else (modelDepth m).branch := by
    rw [depthAlong, rootBranches, size]
    split
    · simp [modelDepth]
    · simp [modelDepth, Depth.branch, Nat.add_comm]
  simp only [Topic.Nested, Place.root, depth, typeIsOptional, List.getLast?_nil, size] at nested
  cases h with
  | one made =>
    have said := nested [ps] (.cons made .nil)
    rw [branchNestings, branchNestings, List.append_nil] at said
    exact said
  | several many made =>
    rw [if_neg many] at nested
    rw [groupNestings_singleton]
    exact nested _ made

theorem GroupFacts.saidAt {k : Nat} {groups : List (List String)} (h : GroupFacts m k groups facts)
    (from_ : m.roots.drop k = groups) {out : List (List Pattern)}
    (described : List.Forall₂ (DescribesGroup m) groups out) :
    SaidAt m (statements facts) (branchNestings (modelDepth m) out) := by
  induction h generalizing out with
  | noGroup =>
    cases described
    exact .nil
  | @group k group groups candidates facts rest found about others ih =>
    have here : m.roots[k]? = some group := by rw [← List.head?_drop, from_, List.head?_cons]
    have later : m.roots.drop (k + 1) = groups := by rw [← List.tail_drop, from_, List.tail_cons]
    have only : statements facts = facts := List.filter_eq_self.mpr fun f member =>
      (about.grounded trivial f member).2
    have known : ∀ c ∈ candidates, m.Knows c := fun c member =>
      (forall₂_mem_right found member).elim fun _ found => (Model.find?_knows found.2).1
    have size : groupSize m k = candidates.length := by
      rw [groupSize, here, Option.getD_some, found.length_eq]
    cases described with
    | cons one each =>
      obtain ⟨cs, found', root⟩ := one
      have unique : Relator.RightUnique fun iri c => m.find? iri = some c :=
        fun _ _ _ here there => Option.some.inj (here.symm.trans there)
      obtain rfl := List.right_unique_forall₂' unique found found'
      rw [List.cons_append, statements, List.filter_cons_of_neg (by simp [Fact.isStatement]),
        ← statements, statements_append, only]
      exact (root.saidAt size (about.nested known .nil)).append (ih later each)

theorem modelPatterns_saidAt (expansion : Expansion m facts) (h : modelPatterns m s = .ok (ps, u)) :
    SaidAt m (statements facts) (groupNestings ⟨0, 0⟩ ps) := by
  unfold modelPatterns at h
  obtain ⟨out, s₁, followed, h⟩ := bind_ok h
  have described := runs_forall₂ (R := DescribesGroup m) (mapM_ok followed)
    fun _ _ _ _ _ made => rootPatterns_describes made
  have said := expansion.saidAt rfl described
  rw [modelDepth, described.length_eq] at said
  match out, h with
  | [patterns], h =>
    cases pure_ok h
    rw [branchNestings, branchNestings, List.append_nil] at said
    exact said
  | [], h =>
    cases pure_ok h
    exact said
  | first :: second :: others, h =>
    cases pure_ok h
    rw [groupNestings_singleton]
    exact said

/-- Every triple says a fact about the documents, and it lies in as many groups that may be missing
and in as many branches as the model dictates for that fact. -/
theorem nesting_dictated {q : Query} (h : ofModel m = .ok q) : ∃ facts, Expansion m facts ∧
    List.Forall₂ (fun f x => Says (variableOf facts) f x.1 ∧ Dictates m f x.2) (statements facts)
      (groupNestings ⟨0, 0⟩ q.pattern) := by
  obtain ⟨facts, table, expansion, written, _, _, template⟩ := ofModel_writes h
  obtain ⟨_, _, h⟩ := except_bind_ok h
  obtain ⟨⟨pattern, final⟩, made, same⟩ := except_bind_ok h
  obtain rfl := Except.ok.inj same
  have said := modelPatterns_saidAt expansion made
  have told := template_tells expansion written
  rw [template, ← groupNestings_fst ⟨0, 0⟩] at told
  rw [SaidAt] at said
  rw [List.forall₂_map_right_iff] at said told
  exact ⟨facts, expansion, List.forall₂_iff_zip.mpr ⟨said.length_eq, fun member =>
    ⟨List.forall₂_zip told member, List.forall₂_zip said member⟩⟩⟩

theorem nesting_dictated_gallery : ofModel gallery = .ok galleryQuery ∧
    ∃ facts, Expansion gallery facts ∧
      List.Forall₂ (fun f x => Says (variableOf facts) f x.1 ∧ Dictates gallery f x.2)
        (statements facts) (groupNestings ⟨0, 0⟩ galleryQuery.pattern) :=
  ⟨ofModel_gallery, nesting_dictated ofModel_gallery⟩

/-- In the gallery the painter of a painting that a room shows is led to in one group that may be
missing and in two branches. -/
example : (groupNestings ⟨0, 0⟩ galleryQuery.pattern).map (·.2) =
    [⟨0, 1⟩, ⟨0, 1⟩, ⟨1, 1⟩, ⟨1, 2⟩, ⟨1, 2⟩, ⟨1, 2⟩, ⟨1, 2⟩, ⟨0, 2⟩, ⟨1, 2⟩] := by decide

end Query

end RdfXmlMapping
