import RdfXmlMapping.Artifact.Source
import RdfXmlMapping.Model.Recursion
import RdfXmlMapping.Proofs.Alike
import RdfXmlMapping.Proofs.Model.Reach
import RdfXmlMapping.Proofs.Model.Splicing

/-!
Models with other identities for classes and properties. All that is read off a model is read off
the renamed one too, in terms of the new identities, if these keep classes apart.
-/

namespace RdfXmlMapping

structure Renaming where
  cls : String → String
  property : String → String

def DataType.rename (r : Renaming) : DataType → DataType
  | .primitive iri => .primitive iri
  | .association target => .association (r.cls target)

def Property.rename (r : Renaming) (p : Property) : Property :=
  { p with iri := r.property p.iri, types := p.types.map (·.rename r) }

def Class.rename (r : Renaming) (c : Class) : Class :=
  { c with
    iri := r.cls c.iri
    parents := c.parents.map r.cls
    properties := c.properties.map (·.rename r) }

/-- The model with new identities wherever classes and properties are declared or referred to. -/
def Model.rename (r : Renaming) (m : Model) : Model :=
  { m with roots := m.roots.map (·.map r.cls), classes := m.classes.map (·.rename r) }

def Source.rename (r : Renaming) (s : Source) : Source := { s with model := s.model.rename r }

/-! ### Identities that occur in a model -/

def DataType.target? : DataType → Option String
  | .primitive _ => none
  | .association target => some target

def Class.identities (c : Class) : List String :=
  c.iri :: c.parents ++ c.properties.flatMap (·.types.filterMap (·.target?))

/-- The identities of classes in a model: all that are declared or referred to. -/
def Model.identities (m : Model) : List String :=
  m.classes.flatMap (·.identities) ++ m.rootCandidates

namespace Renaming

variable (r : Renaming) (m : Model)

/-- Classes that are kept apart in the model have different identities after the renaming. -/
def KeepsApart : Prop :=
  ∀ a ∈ m.identities, ∀ b ∈ m.identities, r.cls a = r.cls b → a = b

def OnIri (a a' : String) : Prop := a ∈ m.identities ∧ a' = r.cls a

def OnClass (c c' : Class) : Prop := c ∈ m.classes ∧ c' = c.rename r

def OnProperty (p p' : Property) : Prop := m.Declares p ∧ p' = p.rename r

/-- What refers to a class: the model itself, a class or a property, with what it becomes. -/
inductive OnReferrer : String → String → Prop
  | model : OnReferrer m.iri m.iri
  | cls {c : Class} : c ∈ m.classes → OnReferrer c.iri (r.cls c.iri)
  | property {p : Property} : m.Declares p → OnReferrer p.iri (r.property p.iri)

/-- A cause in terms of the old and of the new identities. -/
inductive OnError : GenerationError → GenerationError → Prop
  | emptyDataTypes (p : String) : OnError (.emptyDataTypes p) (.emptyDataTypes (r.property p))
  | heterogeneousDataTypes (p : String) :
    OnError (.heterogeneousDataTypes p) (.heterogeneousDataTypes (r.property p))
  | multipleInheritance (c : String) :
    OnError (.multipleInheritance c) (.multipleInheritance (r.cls c))
  | inheritanceCycle (c : String) : OnError (.inheritanceCycle c) (.inheritanceCycle (r.cls c))
  | parentOutsideChoice (p c parent : String) :
    OnError (.parentOutsideChoice p c parent)
      (.parentOutsideChoice (r.property p) (r.cls c) (r.cls parent))
  | unknownClass (c : String) {a a' : String} :
    r.OnReferrer m a a' → OnError (.unknownClass c a) (.unknownClass (r.cls c) a')
  | duplicateRootElement (c other element : String) :
    OnError (.duplicateRootElement c other element)
      (.duplicateRootElement (r.cls c) (r.cls other) element)
  | dematerializedNonClass (p : String) :
    OnError (.dematerializedNonClass p) (.dematerializedNonClass (r.property p))
  | dematerializationCycle (p : String) :
    OnError (.dematerializationCycle p) (.dematerializationCycle (r.property p))
  | reversePrimitive (p : String) : OnError (.reversePrimitive p) (.reversePrimitive (r.property p))
  | recursiveModel (c : String) : OnError (.recursiveModel c) (.recursiveModel (r.cls c))
  | unresolvedImport (c specification : String) (kind : ArtifactKind) :
    OnError (.unresolvedImport c specification kind)
      (.unresolvedImport (r.cls c) specification kind)

variable {r m} {a a' b b' : String} {c c' d d' : Class} {p p' : Property}
  {cs cs' : List Class} {path path' : List String}

/-! ### Declarations -/

theorem mem_identities (known : c ∈ m.classes) (inside : a ∈ c.identities) : a ∈ m.identities :=
  List.mem_append_left _ (List.mem_flatMap.mpr ⟨c, known, inside⟩)

theorem OnClass.iri (h : r.OnClass m c c') : r.OnIri m c.iri c'.iri :=
  ⟨mem_identities h.1 (List.mem_append_left _ List.mem_cons_self), h.2 ▸ rfl⟩

theorem OnClass.referrer (h : r.OnClass m c c') : r.OnReferrer m c.iri c'.iri := h.2 ▸ .cls h.1

theorem OnClass.label (h : r.OnClass m c c') : c'.label = c.label := h.2 ▸ rfl

theorem OnClass.isForeign (h : r.OnClass m c c') : (m.rename r).isForeign c' = m.isForeign c :=
  h.2 ▸ rfl

theorem OnClass.parents (h : r.OnClass m c c') :
    List.Forall₂ (r.OnIri m) c.parents c'.parents := by
  obtain ⟨known, rfl⟩ := h
  refine forall₂_map fun a member => ⟨mem_identities known ?_, rfl⟩
  exact List.mem_append_left _ (List.mem_cons_of_mem _ member)

theorem OnClass.properties (h : r.OnClass m c c') :
    List.Forall₂ (r.OnProperty m) c.properties c'.properties := by
  obtain ⟨known, rfl⟩ := h
  exact forall₂_map fun p member => ⟨⟨c, known, member⟩, rfl⟩

theorem OnProperty.referrer (h : r.OnProperty m p p') : r.OnReferrer m p.iri p'.iri :=
  h.2 ▸ .property h.1

theorem OnProperty.target (h : r.OnProperty m p p') (refers : .association a ∈ p.types) :
    r.OnIri m a (r.cls a) := by
  obtain ⟨c, known, declared⟩ := h.1
  refine ⟨mem_identities known (List.mem_append_right _ ?_), rfl⟩
  exact List.mem_flatMap.mpr ⟨p, declared, List.mem_filterMap.mpr ⟨_, refers, rfl⟩⟩

theorem onClasses (r : Renaming) (m : Model) :
    List.Forall₂ (r.OnClass m) m.classes (m.rename r).classes :=
  forall₂_map fun _ known => ⟨known, rfl⟩

theorem onRoots (r : Renaming) (m : Model) :
    List.Forall₂ (List.Forall₂ (r.OnIri m)) m.roots (m.rename r).roots :=
  forall₂_map fun group listed => forall₂_map fun _ member =>
    ⟨List.mem_append_right _ (List.mem_flatten.mpr ⟨group, listed, member⟩), rfl⟩

theorem onRootCandidates (r : Renaming) (m : Model) :
    List.Forall₂ (r.OnIri m) m.rootCandidates (m.rename r).rootCandidates :=
  List.rel_flatten (onRoots r m)

/-! ### Comparisons -/

variable (apart : r.KeepsApart m)

include apart

theorem OnIri.beq (h : r.OnIri m a a') (h' : r.OnIri m b b') : (a' == b') = (a == b) := by
  obtain ⟨known, rfl⟩ := h
  obtain ⟨known', rfl⟩ := h'
  refine Bool.eq_iff_iff.mpr (beq_iff_eq.trans (Iff.trans ?_ beq_iff_eq.symm))
  exact ⟨apart a known b known', congrArg r.cls⟩

theorem OnIri.contains (h : r.OnIri m a a') (hs : List.Forall₂ (r.OnIri m) path path') :
    path'.contains a' = path.contains a := by
  rw [List.contains_eq_any_beq, List.contains_eq_any_beq]
  exact forall₂_any hs fun b b' h' => h.beq apart h'

theorem OnIri.any (h : r.OnIri m a a') (hs : List.Forall₂ (r.OnClass m) cs cs') :
    cs'.any (·.iri == a') = cs.any (·.iri == a) :=
  forall₂_any hs fun _ _ related => related.iri.beq apart h

theorem OnIri.findClass (h : r.OnIri m a a') (hs : List.Forall₂ (r.OnClass m) cs cs') :
    Option.Rel (r.OnClass m) (cs.find? (·.iri == a)) (cs'.find? (·.iri == a')) :=
  forall₂_find? hs fun _ _ related => related.iri.beq apart h

theorem OnIri.canEnter (h : r.OnIri m a a') (way : List.Forall₂ (r.OnIri m) path path') :
    (m.rename r).canEnter path' a' = m.canEnter path a := by
  rw [Model.canEnter, Model.canEnter, h.any apart (onClasses r m), h.contains apart way]

theorem OnClass.isRoot (h : r.OnClass m c c') : (m.rename r).isRoot c'.iri = m.isRoot c.iri :=
  h.iri.contains apart (onRootCandidates r m)

/-! ### References -/

theorem OnIri.lookUp (h : r.OnIri m a a') (h' : r.OnReferrer m b b') :
    Alike (r.OnError m) (r.OnClass m) (m.lookUp a b) ((m.rename r).lookUp a' b') := by
  have found : Option.Rel (r.OnClass m) (m.find? a) ((m.rename r).find? a') :=
    h.findClass apart (onClasses r m)
  unfold Model.lookUp
  generalize m.find? a = x, (m.rename r).find? a' = x' at found
  obtain ⟨_, rfl⟩ := h
  cases found with
  | none => exact .error (.unknownClass a h')
  | some related => exact .ok related

theorem OnClass.parent (h : r.OnClass m c c') :
    Alike (r.OnError m) (Option.Rel (r.OnClass m)) (m.parent? c) ((m.rename r).parent? c') := by
  have listed := h.parents
  unfold Model.parent?
  generalize c.parents = parents, c'.parents = parents' at listed
  cases listed with
  | nil => exact .ok .none
  | cons first rest =>
    cases rest with
    | nil => exact (first.lookUp apart h.referrer).map fun _ _ related => .some related
    | cons => exact h.2 ▸ .error (.multipleInheritance c.iri)

theorem ancestorsAbove_alike {start start' : String} (h : r.OnIri m start start')
    (seen : List String) : ∀ seen', List.Forall₂ (r.OnIri m) seen seen' →
      ∀ c c', r.OnClass m c c' → Alike (r.OnError m) (List.Forall₂ (r.OnClass m))
        (m.ancestorsAbove start seen c) ((m.rename r).ancestorsAbove start' seen' c') := by
  induction seen using Model.walk_induction m with
  | step seen ih =>
    intro seen' path c c' related
    rw [Model.ancestorsAbove, Model.ancestorsAbove]
    refine (related.parent apart).bind fun parent parent' found => ?_
    cases found with
    | none => exact .ok .nil
    | @some parent parent' above =>
      dsimp only
      have same := above.iri.canEnter apart path
      by_cases way : m.canEnter seen parent.iri
      · rw [dif_pos way, dif_pos (same.trans way)]
        refine (ih _ way _ (.cons above.iri path) _ _ above).bind fun _ _ further => ?_
        exact .ok (.cons above further)
      · rw [dif_neg way, dif_neg fun entered => way (same.symm.trans entered)]
        exact h.2 ▸ .error (.inheritanceCycle start)

theorem OnClass.effectiveProperties (h : r.OnClass m c c') :
    Alike (r.OnError m) (List.Forall₂ (r.OnProperty m)) (m.effectiveProperties c)
      ((m.rename r).effectiveProperties c') := by
  refine (ancestorsAbove_alike apart h.iri _ _ (.cons h.iri .nil) _ _ h).bind fun _ _ above => ?_
  have line := List.rel_append (List.rel_reverse above) (.cons h .nil)
  exact .ok (forall₂_flatMap line fun _ _ related => related.properties)

theorem addRoot_alike (hs : List.Forall₂ (r.OnClass m) cs cs') (h : r.OnIri m a a') :
    Alike (r.OnError m) (List.Forall₂ (r.OnClass m)) (m.addRoot cs a)
      ((m.rename r).addRoot cs' a') := by
  unfold Model.addRoot
  refine (h.lookUp apart .model).bind fun c c' found => ?_
  have element {d d' : Class} (related : r.OnClass m d d') :
      Model.elementName d' = Model.elementName d := congrArg toNCName related.label
  have other : Option.Rel (r.OnClass m)
      (cs.find? fun d => Model.elementName d == Model.elementName c)
      (cs'.find? fun d => Model.elementName d == Model.elementName c') :=
    forall₂_find? hs fun _ _ related => by rw [element related, element found]
  rw [found.iri.any apart hs]
  generalize (cs.find? fun d => Model.elementName d == Model.elementName c) = x,
    (cs'.find? fun d => Model.elementName d == Model.elementName c') = x' at other
  split
  · exact .ok hs
  · cases other with
    | none => exact .ok (List.rel_append hs (.cons found .nil))
    | some other =>
      dsimp only
      rw [element found]
      exact found.2 ▸ other.2 ▸ .error (.duplicateRootElement _ _ _)

theorem rootClasses_alike : Alike (r.OnError m) (List.Forall₂ (r.OnClass m)) m.rootClasses
    (m.rename r).rootClasses :=
  Alike.foldlM (onRootCandidates r m) (fun _ _ _ _ roots h => addRoot_alike apart roots h) .nil

/-! ### Shapes -/

omit apart

inductive OnPrimitive (r : Renaming) (m : Model) : Primitive → Primitive → Prop
  | datatype (iri : String) : OnPrimitive r m (.datatype iri) (.datatype iri)
  | codelist {c c' : Class} : r.OnClass m c c' → OnPrimitive r m (.codelist c) (.codelist c')

inductive OnCandidate (r : Renaming) (m : Model) : Candidate → Candidate → Prop
  | plain {v v' : Primitive} : r.OnPrimitive m v v' → OnCandidate r m (.plain v) (.plain v')
  | described {c c' : Class} : r.OnClass m c c' → OnCandidate r m (.described c) (.described c')

structure OnDerivation (r : Renaming) (m : Model) (d d' : Derivation) : Prop where
  cls : r.OnClass m d.cls d'.cls
  parent : r.OnClass m d.parent d'.parent

inductive OnBase (r : Renaming) (m : Model) : ChoiceBase → ChoiceBase → Prop
  | rooted {root root' : Class} {derived derived' : List Derivation} : r.OnClass m root root' →
    List.Forall₂ (r.OnDerivation m) derived derived' →
    OnBase r m (.rooted root derived) (.rooted root' derived')
  | placeholder (name : String) : OnBase r m (.placeholder name) (.placeholder name)

structure OnChoice (r : Renaming) (m : Model) (plan plan' : ChoicePlan) : Prop where
  some : plan.candidates ≠ []
  candidates : List.Forall₂ (r.OnClass m) plan.candidates plan'.candidates
  base : r.OnBase m plan.base plan'.base

inductive OnShape (r : Renaming) (m : Model) : Shape → Shape → Prop
  | primitive {vs vs' : List Primitive} : List.Forall₂ (r.OnPrimitive m) vs vs' →
    OnShape r m (.primitive vs) (.primitive vs')
  | single {c c' : Class} : r.OnClass m c c' → OnShape r m (.single c) (.single c')
  | choice {plan plan' : ChoicePlan} : r.OnChoice m plan plan' →
    OnShape r m (.choice plan) (.choice plan')

structure OnParentage (r : Renaming) (m : Model) (x x' : Class × Option Class) : Prop where
  cls : r.OnClass m x.1 x'.1
  parent : Option.Rel (r.OnClass m) x.2 x'.2

theorem onTypes (h : r.OnProperty m p p') :
    List.Forall₂ (fun t t' => t ∈ p.types ∧ t' = t.rename r) p.types p'.types :=
  h.2 ▸ forall₂_map fun _ member => ⟨member, rfl⟩

theorem OnShape.targets {shape shape' : Shape} (h : r.OnShape m shape shape') :
    List.Forall₂ (r.OnClass m) shape.targets shape'.targets := by
  cases h with
  | primitive _ => exact .nil
  | single related => exact .cons related .nil
  | choice related => exact related.candidates

include apart

theorem candidate_alike (h : r.OnProperty m p p') {t : DataType} (member : t ∈ p.types) :
    Alike (r.OnError m) (r.OnCandidate m) (m.candidate p t)
      ((m.rename r).candidate p' (t.rename r)) := by
  cases t with
  | primitive iri => exact .ok (.plain (.datatype iri))
  | association target =>
    refine ((h.target member).lookUp apart h.referrer).bind fun c c' found => ?_
    have codelist : c'.isCodelist = c.isCodelist := found.2 ▸ rfl
    rw [codelist]
    split
    · exact .ok (.plain (.codelist found))
    · exact .ok (.described found)

theorem distinctClasses_alike (hs : List.Forall₂ (r.OnClass m) cs cs') :
    List.Forall₂ (r.OnClass m) (distinctClasses cs) (distinctClasses cs') := by
  refine List.rel_foldl (P := List.Forall₂ (r.OnClass m)) ?_ .nil hs
  intro kept kept' before c c' related
  have same := related.iri.any apart before
  dsimp only
  rw [same]
  split
  · exact before
  · exact List.rel_append before (.cons related .nil)

theorem parentIn_alike (h : r.OnProperty m p p') (hs : List.Forall₂ (r.OnClass m) cs cs')
    (related : r.OnClass m c c') : Alike (r.OnError m) (r.OnParentage m) (m.parentIn p cs c)
      ((m.rename r).parentIn p' cs' c') := by
  unfold Model.parentIn
  refine (related.parent apart).bind fun parent parent' found => ?_
  cases found with
  | none => exact .ok ⟨related, .none⟩
  | @some parent parent' above =>
    have among := above.iri.findClass apart hs
    dsimp only
    generalize cs.find? (·.iri == parent.iri) = x, cs'.find? (·.iri == parent'.iri) = x' at among
    cases among with
    | none => exact h.2 ▸ related.2 ▸ above.2 ▸ .error (.parentOutsideChoice _ _ _)
    | some inside => exact .ok ⟨related, .some inside⟩

theorem planChoice_alike (h : r.OnProperty m p p') (hs : List.Forall₂ (r.OnClass m) cs cs')
    (some : cs ≠ []) : Alike (r.OnError m) (r.OnChoice m) (m.planChoice p cs)
      ((m.rename r).planChoice p' cs') := by
  unfold Model.planChoice
  refine (Alike.mapM hs fun c c' related => parentIn_alike apart h hs related).bind
    fun parents parents' found => ?_
  have derived : List.Forall₂ (r.OnDerivation m)
      (parents.filterMap fun pair => pair.2.map (Derivation.mk pair.1))
      (parents'.filterMap fun pair => pair.2.map (Derivation.mk pair.1)) := by
    refine forall₂_filterMap found ?_
    rintro ⟨c, parent⟩ ⟨c', parent'⟩ ⟨cls, above⟩
    cases above with
    | none => exact .none
    | some above => exact .some ⟨cls, above⟩
  have roots : List.Forall₂ (r.OnParentage m) (parents.filter (·.2.isNone))
      (parents'.filter (·.2.isNone)) := by
    refine forall₂_filter found ?_
    rintro ⟨c, parent⟩ ⟨c', parent'⟩ ⟨_, above⟩
    cases above <;> rfl
  have labels : cs'.map (·.label) = cs.map (·.label) :=
    (forall₂_map_eq (hs.imp fun _ _ related => related.label.symm)).symm
  dsimp only
  rw [labels]
  generalize parents.filter (fun x => x.2.isNone) = found,
    parents'.filter (fun x => x.2.isNone) = found' at roots
  cases roots with
  | nil => exact .ok ⟨some, hs, .placeholder _⟩
  | cons first rest =>
    cases rest with
    | nil => exact .ok ⟨some, hs, .rooted first.cls derived⟩
    | cons => exact .ok ⟨some, hs, .placeholder _⟩

/-- Candidates that are alike have alike plain values, and alike classes. -/
theorem candidates_alike {candidates candidates' : List Candidate}
    (found : List.Forall₂ (r.OnCandidate m) candidates candidates') :
    List.Forall₂ (r.OnPrimitive m) (candidates.filterMap (·.plain?))
      (candidates'.filterMap (·.plain?)) ∧
    List.Forall₂ (r.OnClass m) (distinctClasses (candidates.filterMap (·.described?)))
      (distinctClasses (candidates'.filterMap (·.described?))) := by
  refine ⟨forall₂_filterMap found fun _ _ related => ?_,
    distinctClasses_alike apart (forall₂_filterMap found fun _ _ related => ?_)⟩
  · cases related with
    | plain related => exact .some related
    | described => exact .none
  · cases related with
    | plain => exact .none
    | described related => exact .some related

omit apart in
/-- Some candidate is of one sort or the other. -/
theorem classes_of_no_values {candidates : List Candidate} (given : candidates ≠ [])
    (none : candidates.filterMap (·.plain?) = []) :
    distinctClasses (candidates.filterMap (·.described?)) ≠ [] := by
  cases candidates with
  | nil => exact absurd rfl given
  | cons first rest =>
    cases first with
    | plain v => cases none
    | described c =>
      have member : c ∈ (Candidate.described c :: rest).filterMap (·.described?) :=
        List.mem_cons_self
      obtain ⟨d, kept, _⟩ := Model.distinctClasses_covers member
      exact List.ne_nil_of_mem kept

theorem combine_alike (h : r.OnProperty m p p') {candidates candidates' : List Candidate}
    (given : candidates ≠ []) (found : List.Forall₂ (r.OnCandidate m) candidates candidates') :
    Alike (r.OnError m) (r.OnShape m) (m.combine p candidates)
      ((m.rename r).combine p' candidates') := by
  obtain ⟨plain, classes⟩ := candidates_alike apart found
  have some := classes_of_no_values given
  unfold Model.combine
  generalize candidates.filterMap (·.plain?) = vs, candidates'.filterMap (·.plain?) = vs' at *
  generalize distinctClasses (candidates.filterMap (·.described?)) = ds,
    distinctClasses (candidates'.filterMap (·.described?)) = ds' at *
  cases plain with
  | nil =>
    cases classes with
    | nil => exact absurd rfl (some rfl)
    | cons first rest =>
      have choice := (planChoice_alike apart h (.cons first rest) (some rfl)).map (S := r.OnShape m)
        fun _ _ related => .choice related
      cases rest with
      | nil => exact .ok (.single first)
      | cons => exact choice
  | cons first rest =>
    cases classes with
    | nil => exact .ok (.primitive (.cons first rest))
    | cons => exact h.2 ▸ .error (.heterogeneousDataTypes p.iri)

theorem OnProperty.shape (h : r.OnProperty m p p') :
    Alike (r.OnError m) (r.OnShape m) (m.shapeOf p) ((m.rename r).shapeOf p') := by
  have types := onTypes h
  by_cases filled : p.types = []
  · have filled' : p'.types = [] := by
      rw [filled] at types
      exact List.forall₂_nil_left_iff.mp types
    rw [Model.shapeOf, Model.shapeOf, filled, filled']
    exact h.2 ▸ .error (.emptyDataTypes p.iri)
  · have filled' : p'.types ≠ [] := by
      intro none
      rw [none] at types
      exact filled (List.forall₂_nil_right_iff.mp types)
    rw [Model.shapeOf_combine filled, Model.shapeOf_combine filled']
    refine (Alike.mapM types fun t t' related => related.2 ▸
      candidate_alike apart h related.1).with_runs.bind fun candidates candidates' found => ?_
    obtain ⟨each, _, found⟩ := found
    refine combine_alike apart h (fun none => filled ?_) found
    have count := (except_mapM_ok each).length_eq
    rw [none] at count
    exact List.length_eq_zero_iff.mp count

theorem OnProperty.spliceTarget (h : r.OnProperty m p p') :
    Alike (r.OnError m) (r.OnClass m) (m.spliceTarget p) ((m.rename r).spliceTarget p') := by
  unfold Model.spliceTarget
  refine (h.shape apart).bind fun shape shape' read => ?_
  cases read with
  | single related =>
    dsimp only
    rw [related.isForeign]
    split
    · exact h.2 ▸ .error (.dematerializedNonClass p.iri)
    · exact .ok related
  | primitive _ | choice _ => exact h.2 ▸ .error (.dematerializedNonClass p.iri)

theorem followSplices_alike (path : List String) : ∀ path', List.Forall₂ (r.OnIri m) path path' →
    ∀ done done', List.Forall₂ (r.OnIri m) done done' → ∀ c c', r.OnClass m c c' →
      Alike (r.OnError m) (List.Forall₂ (r.OnIri m)) (m.followSplices path done c)
        ((m.rename r).followSplices path' done' c') := by
  induction path using Model.walk_induction m with
  | step path ih =>
    intro path' ways done done' walked c c' related
    rw [Model.followSplices_eq, Model.followSplices_eq, related.iri.contains apart walked,
      related.iri.canEnter apart ways]
    split
    · exact .ok walked
    split
    next way =>
      refine (related.effectiveProperties apart).bind fun ps ps' inherited => ?_
      have spliced : List.Forall₂ (r.OnProperty m) (ps.filter (·.isSpliced))
          (ps'.filter (·.isSpliced)) := forall₂_filter inherited fun p p' h => h.2 ▸ rfl
      have longer : List.Forall₂ (r.OnIri m) (c.iri :: path) (c'.iri :: path') :=
        .cons related.iri ways
      refine (Alike.foldlM spliced (fun done done' p p' walked h => ?_) walked).bind
        fun done done' walked => .ok (.cons related.iri walked)
      refine (h.spliceTarget apart).bind fun target target' found => ?_
      rw [found.iri.contains apart longer]
      split
      · exact h.2 ▸ .error (.dematerializationCycle p.iri)
      · exact ih _ way _ longer _ _ walked _ _ found
    next => exact related.2 ▸ .error (.unknownClass c.iri (.cls related.1))

theorem checkSplicing_alike :
    Alike (r.OnError m) Eq m.checkSplicing (m.rename r).checkSplicing :=
  (Alike.foldlM (onClasses r m) (fun _ _ _ _ walked related =>
    followSplices_alike apart [] [] .nil _ _ walked _ _ related) .nil).bind fun _ _ _ => .ok rfl

theorem OnClass.successors (h : r.OnClass m c c') : Alike (r.OnError m) (List.Forall₂ (r.OnClass m))
    (m.successors c) ((m.rename r).successors c') := by
  unfold Model.successors
  refine (h.parent apart).bind fun parent parent' above => ?_
  refine (Alike.mapM h.properties fun p p' h => h.shape apart).bind fun shapes shapes' read => ?_
  refine .ok (List.rel_append ?_ (forall₂_flatMap read fun _ _ related => related.targets))
  cases above with
  | none => exact .nil
  | some above => exact .cons above .nil

theorem walk_alike (path : List String) : ∀ path', List.Forall₂ (r.OnIri m) path path' →
    ∀ done done', List.Forall₂ (r.OnIri m) done done' → ∀ c c', r.OnClass m c c' →
      Alike (r.OnError m) (List.Forall₂ (r.OnIri m)) (m.walk path done c)
        ((m.rename r).walk path' done' c') := by
  induction path using Model.walk_induction m with
  | step path ih =>
    intro path' ways done done' walked c c' related
    rw [Model.walk, Model.walk]
    have same := related.iri.canEnter apart ways
    rw [related.iri.contains apart walked]
    split
    · exact .ok walked
    by_cases way : m.canEnter path c.iri
    · rw [dif_pos way, dif_pos (same.trans way)]
      refine (related.successors apart).bind fun next next' leads => ?_
      refine (Alike.foldlM leads (fun _ _ _ _ walked further =>
        ih _ way _ (.cons related.iri ways) _ _ walked _ _ further) walked).bind
        fun _ _ walked => .ok (.cons related.iri walked)
    · rw [dif_neg way, dif_neg fun entered => way (same.symm.trans entered)]
      exact related.2 ▸ .error (.recursiveModel c.iri)

theorem checkAcyclic_alike : Alike (r.OnError m) Eq m.checkAcyclic (m.rename r).checkAcyclic := by
  have root (done done' : List String) (a a' : String)
      (walked : List.Forall₂ (r.OnIri m) done done')
      (h : r.OnIri m a a') : Alike (r.OnError m) (List.Forall₂ (r.OnIri m))
        (m.lookUp a m.iri >>= m.walk [] done)
        ((m.rename r).lookUp a' m.iri >>= (m.rename r).walk [] done') :=
    (h.lookUp apart .model).bind fun c c' found =>
      walk_alike apart [] [] .nil _ _ walked _ _ found
  exact (Alike.foldlM (onRootCandidates r m) root .nil).bind fun _ _ _ => .ok rfl

end Renaming

end RdfXmlMapping
