import RdfXmlMapping.Model.Recursion
import RdfXmlMapping.Proofs.FirstOccurrences
import RdfXmlMapping.Proofs.Steps

/-!
What references between classes lead to. Whatever a model refers to by identity is the first class
with that identity, so that two references to one identity lead to one class.
-/

namespace RdfXmlMapping

/-- What a choice rests on is among its candidates, or named after them. -/
def ChoicePlan.Grounded (plan : ChoicePlan) : Prop :=
  match plan.base with
  | .rooted root derived =>
    root ∈ plan.candidates ∧ ∀ d ∈ derived, d.cls ∈ plan.candidates ∧ d.cls ≠ root
  | .placeholder name => name = String.join (plan.candidates.map (·.label))

theorem ChoicePlan.Grounded.candidate {plan : ChoicePlan} (h : plan.Grounded) :
    ∀ d ∈ plan.derived, d.cls ∈ plan.candidates := by
  intro d member
  rw [Grounded] at h
  rw [derived] at member
  split at member
  next base =>
    rw [base] at h
    exact (h.2 d member).1
  next => cases member

namespace Model

/-- A class that the model finds under its identity. -/
def Knows (m : Model) (c : Class) : Prop := m.find? c.iri = some c

variable {m : Model} {p : Property} {c d : Class}

theorem find?_knows {iri : String} (h : m.find? iri = some c) : m.Knows c ∧ c.iri = iri := by
  have same : c.iri = iri := beq_iff_eq.mp (List.find?_some h :)
  exact ⟨by rw [Knows, same]; exact h, same⟩

theorem knows_mem (h : m.Knows c) : c ∈ m.classes := List.mem_of_find?_eq_some h

theorem knows_eq (left : m.Knows c) (right : m.Knows d) (same : c.iri = d.iri) : c = d := by
  rw [Knows, same] at left
  exact Option.some.inj (left.symm.trans right)

theorem lookUp_knows {iri referrer : String} (h : m.lookUp iri referrer = .ok c) :
    m.Knows c ∧ c.iri = iri := by
  unfold lookUp at h
  split at h
  next found =>
    obtain rfl := Except.ok.inj h
    exact find?_knows found
  next => cases h

theorem parent?_knows (h : m.parent? c = .ok (some d)) : m.Knows d := by
  unfold parent? at h
  split at h
  · cases h
  · obtain ⟨parent, found, same⟩ := except_map_ok h
    obtain rfl := Option.some.inj same
    exact (lookUp_knows found).1
  · cases h

theorem parent?_parents (h : m.parent? c = .ok (some d)) : c.parents = [d.iri] := by
  unfold parent? at h
  split at h
  · cases h
  next one =>
    obtain ⟨parent, found, same⟩ := except_map_ok h
    obtain rfl := Option.some.inj same
    rw [one, (lookUp_knows found).2]
  · cases h

/-- The roots found for some of the candidates, in the order in which these come first. -/
structure RootsOf (m : Model) (candidates : List String) (roots : List Class) : Prop where
  knows : ∀ c ∈ roots, m.Knows c
  named : ∀ iri, (∃ c ∈ roots, c.iri = iri) ↔ iri ∈ candidates
  ordered : candidates.eraseDups.map m.find? = roots.map some
  distinct : (roots.map elementName).Nodup

theorem RootsOf.addRoot {candidates : List String} {before after : List Class} {iri : String}
    (h : m.RootsOf candidates before) (added : m.addRoot before iri = .ok after) :
    m.RootsOf (candidates ++ [iri]) after := by
  unfold Model.addRoot at added
  obtain ⟨c, found, entered⟩ := except_bind_ok added
  obtain ⟨known, rfl⟩ := lookUp_knows found
  split at entered
  next old =>
    obtain rfl := Except.ok.inj entered
    obtain ⟨d, member, same⟩ := List.any_eq_true.mp old
    have seen : c.iri ∈ candidates := (h.named c.iri).mp ⟨d, member, beq_iff_eq.mp same⟩
    refine ⟨h.knows, fun iri => ?_, by rw [eraseDups_seen seen, h.ordered], h.distinct⟩
    rw [h.named, List.mem_append, List.mem_singleton]
    refine ⟨.inl, fun either => either.elim id fun last => last ▸ seen⟩
  next other =>
    have unseen : c.iri ∉ candidates := by
      intro seen
      obtain ⟨d, member, same⟩ := (h.named c.iri).mpr seen
      exact other (List.any_eq_true.mpr ⟨d, member, beq_iff_eq.mpr same⟩)
    split at entered
    · cases entered
    next apart =>
      obtain rfl := Except.ok.inj entered
      refine ⟨fun d member => ?_, fun iri => ?_, ?_, ?_⟩
      · rcases List.mem_append.mp member with old | new
        · exact h.knows d old
        · exact List.mem_singleton.mp new ▸ known
      · simp only [List.mem_append, List.mem_singleton, or_and_right, exists_or, exists_eq_left,
          h.named]
        exact or_congr_right eq_comm
      · have first : m.find? c.iri = some c := known
        rw [eraseDups_new unseen, List.map_append, h.ordered, List.map_append, List.map_singleton,
          first]
        rfl
      · rw [List.map_append]
        refine List.nodup_append.mpr ⟨h.distinct, by simp, ?_⟩
        rintro _ old _ new same
        obtain ⟨d, member, rfl⟩ := List.mem_map.mp old
        obtain rfl := List.mem_singleton.mp new
        exact List.find?_eq_none.mp apart d member (beq_iff_eq.mpr same)

theorem rootsOf_nil : m.RootsOf [] [] where
  knows := nofun
  named := by simp
  ordered := rfl
  distinct := List.nodup_nil

theorem RootsOf.foldlM {seen rest : List String} {before after : List Class}
    (h : m.RootsOf seen before) (added : rest.foldlM m.addRoot before = .ok after) :
    m.RootsOf (seen ++ rest) after := by
  induction rest generalizing seen before with
  | nil =>
    obtain rfl := Except.ok.inj added
    rwa [List.append_nil]
  | cons iri rest ih =>
    rw [List.foldlM_cons] at added
    obtain ⟨next, first, added⟩ := except_bind_ok added
    have whole := ih (h.addRoot first) added
    rwa [List.append_assoc] at whole

theorem rootClasses_roots {roots : List Class} (h : m.rootClasses = .ok roots) :
    m.RootsOf m.rootCandidates roots := rootsOf_nil.foldlM h

theorem rootClasses_knows {roots : List Class} (h : m.rootClasses = .ok roots) :
    ∀ c ∈ roots, m.Knows c := (rootClasses_roots h).knows

theorem rootClasses_isRoot {roots : List Class} (h : m.rootClasses = .ok roots) :
    ∀ c ∈ roots, m.isRoot c.iri := fun c member =>
  List.contains_iff_mem.mpr (((rootClasses_roots h).named c.iri).mp ⟨c, member, rfl⟩)

theorem mem_rootClasses {roots : List Class} (h : m.rootClasses = .ok roots) (known : m.Knows c)
    (root : m.isRoot c.iri) : c ∈ roots := by
  obtain ⟨d, member, same⟩ :=
    ((rootClasses_roots h).named c.iri).mpr (List.contains_iff_mem.mp root)
  exact knows_eq ((rootClasses_roots h).knows d member) known same ▸ member

/-- What holds along a walk wherever it holds after every further step holds along all walks. -/
theorem walk_induction {motive : List String → Prop} (m : Model)
    (step : ∀ path, (∀ iri, m.canEnter path iri → motive (iri :: path)) → motive path)
    (path : List String) : motive path := by
  induction size : (m.unvisited path).length using Nat.strongRecOn generalizing path with
  | ind size ih =>
    refine step path fun iri way => ?_
    have fewer := unvisited_lt way
    exact ih _ (by omega) (iri :: path) rfl

/-! ### Properties -/

def Declares (m : Model) (p : Property) : Prop := ∃ c ∈ m.classes, p ∈ c.properties

theorem ancestorsAbove_knows {start : String} (seen : List String) :
    ∀ c above, m.ancestorsAbove start seen c = .ok above → ∀ d ∈ above, m.Knows d := by
  induction seen using walk_induction m with
  | step seen ih =>
    intro c above h d member
    unfold ancestorsAbove at h
    obtain ⟨parent, found, h⟩ := except_bind_ok h
    split at h
    · obtain rfl := Except.ok.inj h
      cases member
    next p =>
      split at h
      next way =>
        obtain ⟨rest, walked, h⟩ := except_bind_ok h
        obtain rfl := Except.ok.inj h
        rcases List.mem_cons.mp member with rfl | member
        · exact parent?_knows found
        · exact ih p.iri way p rest walked d member
      next => cases h

theorem effectiveProperties_declares {ps : List Property} (known : c ∈ m.classes)
    (h : m.effectiveProperties c = .ok ps) : ∀ p ∈ ps, m.Declares p := by
  obtain ⟨above, walked, h⟩ := except_bind_ok h
  obtain rfl := Except.ok.inj h
  intro p member
  obtain ⟨d, among, declared⟩ := List.mem_flatMap.mp member
  rcases List.mem_append.mp among with ancestor | own
  · have found := ancestorsAbove_knows _ c above walked d (List.mem_reverse.mp ancestor)
    exact ⟨d, knows_mem found, declared⟩
  · obtain rfl := List.mem_singleton.mp own
    exact ⟨d, known, declared⟩

/-! ### Shapes -/

/-- A class whose instances may be described: one that is known and is no codelist. -/
def Describable (m : Model) (c : Class) : Prop := m.Knows c ∧ c.isCodelist = false

theorem candidate_describable {t : DataType} (h : m.candidate p t = .ok (.described c)) :
    m.Describable c := by
  cases t with
  | primitive iri => cases h
  | association target =>
    obtain ⟨found, read, h⟩ := except_bind_ok h
    split at h
    · cases h
    next plain =>
      obtain rfl := Candidate.described.inj (Except.ok.inj h)
      exact ⟨(lookUp_knows read).1, Bool.eq_false_iff.mpr plain⟩

theorem distinctClasses_subset {cs : List Class} : distinctClasses cs ⊆ cs := by
  have step : ∀ rest kept : List Class, rest ⊆ cs → kept ⊆ cs →
      rest.foldl (fun kept c => if kept.any (·.iri == c.iri) then kept else kept ++ [c]) kept ⊆
        cs := by
    intro rest
    induction rest with
    | nil => exact fun kept _ old => old
    | cons c rest ih =>
      intro kept inner old
      refine ih _ (fun d member => inner (List.mem_cons_of_mem _ member)) ?_
      dsimp only
      split
      · exact old
      · exact List.append_subset.mpr ⟨old, by simpa using inner List.mem_cons_self⟩
  exact step cs [] (List.Subset.refl _) (List.nil_subset _)

theorem candidates_describable {ts : List DataType} {candidates : List Candidate}
    (h : ts.mapM (m.candidate p) = .ok candidates) :
    ∀ c ∈ distinctClasses (candidates.filterMap (·.described?)), m.Describable c := by
  intro c member
  obtain ⟨candidate, present, read⟩ := List.mem_filterMap.mp (distinctClasses_subset member)
  cases candidate with
  | plain _ => cases read
  | described d =>
    obtain rfl := Option.some.inj read
    obtain ⟨t, _, found⟩ := forall₂_mem_right (except_mapM_ok h) present
    exact candidate_describable found

theorem parentIn_cls {candidates : List Class} {r : Class × Option Class}
    (h : m.parentIn p candidates c = .ok r) : r.1 = c := by
  unfold parentIn at h
  obtain ⟨parent, _, h⟩ := except_bind_ok h
  split at h
  · exact (Except.ok.inj h) ▸ rfl
  · split at h
    · exact (Except.ok.inj h) ▸ rfl
    · cases h

theorem planChoice_ok {candidates : List Class} {plan : ChoicePlan}
    (h : m.planChoice p candidates = .ok plan) : plan.candidates = candidates ∧ plan.Grounded := by
  unfold planChoice at h
  obtain ⟨parents, each, h⟩ := except_bind_ok h
  have inside : ∀ r ∈ parents, r.1 ∈ candidates ∧ m.parentIn p candidates r.1 = .ok r := by
    intro r member
    obtain ⟨c, present, found⟩ := forall₂_mem_right (except_mapM_ok each) member
    rw [parentIn_cls found]
    exact ⟨present, found⟩
  dsimp only at h
  split at h
  next root absent alone =>
    obtain rfl := Except.ok.inj h
    obtain ⟨among, isNone⟩ := List.mem_filter.mp (alone ▸ List.mem_singleton.mpr rfl :
      (root, absent) ∈ parents.filter (·.2.isNone))
    obtain rfl := Option.isNone_iff_eq_none.mp isNone
    refine ⟨rfl, (inside _ among).1, fun d member => ?_⟩
    obtain ⟨⟨c, parent⟩, present, made⟩ := List.mem_filterMap.mp member
    obtain ⟨_, rfl, rfl⟩ := Option.map_eq_some_iff.mp made
    refine ⟨(inside _ present).1, fun same => ?_⟩
    have both := (inside _ present).2.symm.trans (same ▸ (inside _ among).2)
    cases Except.ok.inj both
  next =>
    obtain rfl := Except.ok.inj h
    exact ⟨rfl, rfl⟩

theorem parentIn_parent {candidates : List Class} {r : Class × Option Class} {parent : Class}
    (known : ∀ c ∈ candidates, m.Knows c) (h : m.parentIn p candidates c = .ok r)
    (derived : r.2 = some parent) : m.parent? c = .ok (some parent) ∧ parent ∈ candidates := by
  unfold parentIn at h
  obtain ⟨found, read, h⟩ := except_bind_ok h
  split at h
  · obtain rfl := Except.ok.inj h
    cases derived
  · split at h
    next candidate among =>
      obtain rfl := Except.ok.inj h
      obtain rfl := Option.some.inj derived
      have inside := List.mem_of_find?_eq_some among
      have same := beq_iff_eq.mp (List.find?_some among :)
      obtain rfl := knows_eq (known _ inside) (parent?_knows read) same
      exact ⟨read, inside⟩
    · cases h

theorem planChoice_derived {candidates : List Class} {plan : ChoicePlan}
    (known : ∀ c ∈ candidates, m.Knows c) (h : m.planChoice p candidates = .ok plan) :
    ∀ d ∈ plan.derived, m.parent? d.cls = .ok (some d.parent) ∧ d.parent ∈ candidates := by
  unfold planChoice at h
  obtain ⟨parents, each, h⟩ := except_bind_ok h
  intro d member
  dsimp only at h
  split at h
  · obtain rfl := Except.ok.inj h
    obtain ⟨r, among, made⟩ := List.mem_filterMap.mp member
    obtain ⟨parent, derived, rfl⟩ := Option.map_eq_some_iff.mp made
    obtain ⟨c, _, found⟩ := forall₂_mem_right (except_mapM_ok each) among
    obtain rfl := parentIn_cls found
    exact parentIn_parent known found derived
  · obtain rfl := Except.ok.inj h
    cases member

/-- The shape that candidates add up to. -/
def combine (m : Model) (p : Property) (candidates : List Candidate) : Generated Shape :=
  match candidates.filterMap (·.plain?), distinctClasses (candidates.filterMap (·.described?)) with
  | [], [c] => return .single c
  | [], classes => .choice <$> m.planChoice p classes
  | primitives, [] => return .primitive primitives
  | _, _ => throw (.heterogeneousDataTypes p.iri)

theorem shapeOf_combine (filled : p.types ≠ []) :
    m.shapeOf p = p.types.mapM (m.candidate p) >>= m.combine p := by
  rw [shapeOf]
  dsimp only
  rw [if_neg (by simpa using filled)]
  rfl

/-- What can become of candidates if they add up to a shape. -/
inductive Combined (m : Model) (p : Property) (candidates : List Candidate) : Shape → Prop
  | primitive (classes : distinctClasses (candidates.filterMap (·.described?)) = []) :
      Combined m p candidates (.primitive (candidates.filterMap (·.plain?)))
  | single {c : Class} (classes : distinctClasses (candidates.filterMap (·.described?)) = [c]) :
      Combined m p candidates (.single c)
  | choice {plan : ChoicePlan} (planned :
      m.planChoice p (distinctClasses (candidates.filterMap (·.described?))) = .ok plan) :
      Combined m p candidates (.choice plan)

theorem combine_ok {candidates : List Candidate} {shape : Shape}
    (h : m.combine p candidates = .ok shape) : m.Combined p candidates shape := by
  unfold combine at h
  split at h
  next _ c _ one =>
    obtain rfl := Except.ok.inj h
    exact .single one
  next =>
    obtain ⟨plan, made, rfl⟩ := except_map_ok h
    exact .choice made
  next none _ =>
    obtain rfl := Except.ok.inj h
    exact .primitive none
  next => cases h

theorem shapeOf_ok {shape : Shape} (h : m.shapeOf p = .ok shape) : ∃ candidates,
    p.types.mapM (m.candidate p) = .ok candidates ∧ m.Combined p candidates shape := by
  by_cases filled : p.types = []
  · rw [shapeOf, filled] at h
    cases h
  · rw [shapeOf_combine filled] at h
    obtain ⟨candidates, each, h⟩ := except_bind_ok h
    exact ⟨candidates, each, combine_ok h⟩

def Leads (m : Model) : Shape → Prop
  | .primitive _ => True
  | .single c => m.Describable c
  | .choice plan => (∀ c ∈ plan.candidates, m.Describable c) ∧ plan.Grounded

theorem shapeOf_leads {shape : Shape} (h : m.shapeOf p = .ok shape) : m.Leads shape := by
  obtain ⟨candidates, each, combined⟩ := shapeOf_ok h
  have known := candidates_describable each
  cases combined with
  | primitive => trivial
  | single one => exact known _ (one ▸ List.mem_singleton.mpr rfl)
  | choice made =>
    obtain ⟨same, grounded⟩ := planChoice_ok made
    exact ⟨by rw [same]; exact known, grounded⟩

theorem shapeOf_choice {plan : ChoicePlan} (h : m.shapeOf p = .ok (.choice plan)) :
    ∃ candidates, (∀ c ∈ candidates, m.Describable c) ∧ m.planChoice p candidates = .ok plan := by
  obtain ⟨candidates, each, combined⟩ := shapeOf_ok h
  cases combined with
  | choice made => exact ⟨_, candidates_describable each, made⟩

/-- A derived candidate has its parent among the candidates. -/
theorem shapeOf_derived {plan : ChoicePlan} (h : m.shapeOf p = .ok (.choice plan)) :
    ∀ d ∈ plan.derived, m.parent? d.cls = .ok (some d.parent) ∧ d.parent ∈ plan.candidates := by
  obtain ⟨candidates, described, made⟩ := shapeOf_choice h
  rw [(planChoice_ok made).1]
  exact planChoice_derived (fun c member => (described c member).1) made

theorem spliceTarget_single (h : m.spliceTarget p = .ok c) :
    m.shapeOf p = .ok (.single c) ∧ m.isForeign c = false := by
  unfold spliceTarget at h
  obtain ⟨shape, read, h⟩ := except_bind_ok h
  split at h
  next single =>
    split at h
    · cases h
    next own =>
      obtain rfl := Except.ok.inj h
      exact ⟨read, Bool.eq_false_iff.mpr own⟩
  next => cases h

/-- What is spliced is a class of the model's own specification. -/
theorem spliceTarget_ok (h : m.spliceTarget p = .ok c) :
    m.Describable c ∧ m.isForeign c = false :=
  ⟨shapeOf_leads (spliceTarget_single h).1, (spliceTarget_single h).2⟩

theorem describedClasses_of_spliceTarget (h : m.spliceTarget p = .ok c) :
    c ∈ m.describedClasses := by
  obtain ⟨⟨known, plain⟩, own⟩ := spliceTarget_ok h
  exact List.mem_filter.mpr ⟨knows_mem known, by simp [plain, own]⟩

end Model

end RdfXmlMapping
