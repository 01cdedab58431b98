import RdfXmlMapping.Proofs.Lifting.Runs
import RdfXmlMapping.Proofs.Lowering.Runs
import RdfXmlMapping.Proofs.Schema.Existence

/-!
What the stylesheets accept, a schema can describe: `schema_of_stylesheet`. A stylesheet has a
template for each class that is described, a schema only has those that the roots lead to, but it
also needs the parents of these, which may be codelists and so have no template.
-/

namespace RdfXmlMapping

namespace Model

/-- A model with a template for each of the classes that it describes. -/
structure Transformable (m : Model) : Prop where
  spliced : m.checkSplicing = .ok ()
  rooted : ∃ roots, m.rootClasses = .ok roots
  described : ∀ c ∈ m.describedClasses, m.Describes c

/-- A class that has no properties but those of some class that is described. -/
def Subsumed (m : Model) (c : Class) : Prop :=
  ∃ ps, m.effectiveProperties c = .ok ps ∧
    ∃ d ∈ m.describedClasses, ∃ qs, m.effectiveProperties d = .ok qs ∧ ps ⊆ qs

variable {m : Model} {p : Property} {c d : Class}

theorem Describable.described (own : m.SelfContained) (h : m.Describable c) :
    c ∈ m.describedClasses := by
  have known := knows_mem h.1
  exact List.mem_filter.mpr ⟨known, by simp [own c known, h.2]⟩

theorem Transformable.subsumed (h : m.Transformable) (described : c ∈ m.describedClasses) :
    m.Subsumed c := by
  obtain ⟨ps, own, _⟩ := h.described c described
  exact ⟨ps, own, c, described, ps, own, List.Subset.refl ps⟩

theorem Subsumed.parent (h : m.Subsumed c) (parent : m.parent? c = .ok (some d)) :
    m.Subsumed d := by
  obtain ⟨ps, own, e, described, qs, found, inside⟩ := h
  obtain ⟨inherited, above, rfl⟩ := effectiveProperties_parent own parent
  exact ⟨inherited, above, e, described, qs, found,
    fun p member => inside (List.mem_append_left _ member)⟩

theorem Subsumed.describes (h : m.Subsumed c) (each : ∀ d ∈ m.describedClasses, m.Describes d) :
    m.Describes c := by
  obtain ⟨ps, own, d, described, qs, found, inside⟩ := h
  obtain ⟨qs', found', fits⟩ := each d described
  obtain rfl := Except.ok.inj (found.symm.trans found')
  exact ⟨ps, own, fun p member => fits p (inside member)⟩

theorem Reached.subsumed (h : m.Transformable) (own : m.SelfContained)
    (expanded : ∀ c, m.Knows c → m.isRoot c.iri → c.isCodelist = false) (reached : m.Reached c) :
    m.Subsumed c := by
  induction reached with
  | @root roots c found member =>
    have known := rootClasses_knows found c member
    have plain := expanded c known (rootClasses_isRoot found c member)
    exact h.subsumed (Describable.described own ⟨known, plain⟩)
  | parent _ parent ih => exact ih.parent parent
  | value _ _ _ needed _ => exact h.subsumed (needed.describable.described own)

theorem Fits.shape (h : m.Fits p) : ∃ shape, m.shapeOf p = .ok shape := by
  cases h with
  | spliced _ target => exact ⟨_, (spliceTarget_single target).1⟩
  | plain _ read _ | single _ read | choice _ read => exact ⟨_, read⟩

theorem Transformable.extended (h : m.Transformable) :
    ∃ iris, Schema.extendedClasses m = .ok iris := by
  have each : ∀ p ∈ m.describedClasses.flatMap (·.properties), ∃ iris,
      Schema.derivedIn m p = .ok iris := by
    intro p member
    obtain ⟨c, described, declared⟩ := List.mem_flatMap.mp member
    obtain ⟨ps, own, fits⟩ := h.described c described
    obtain ⟨shape, read⟩ := (fits p (Schema.properties_subset own declared)).shape
    rw [Schema.derivedIn, read]
    cases shape <;> exact ⟨_, rfl⟩
  obtain ⟨lists, made⟩ := except_mapM_succeeds each
  refine ⟨lists.flatten, ?_⟩
  rw [Schema.extendedClasses, made]
  rfl

theorem Transformable.representable (h : m.Transformable) (own : m.SelfContained)
    (expanded : ∀ c, m.Knows c → m.isRoot c.iri → c.isCodelist = false) : m.Representable where
  spliced := h.spliced
  extended := h.extended
  rooted := h.rooted
  described _ reached := (reached.subsumed h own expanded).describes h.described

end Model

/-! ### What a template has been made of -/

namespace Lifting

variable {m : Model} {o : Import.Outlook} {p : Property} {c : Class} {s t s' t' : Progress}

theorem related_spliced {rs : List Related} (spliced : p.isSpliced)
    (h : related m o p s = .ok (rs, t)) : ∃ d, m.spliceTarget p = .ok d := by
  cases related_made h with
  | spliced _ target => exact ⟨_, target⟩
  | nested plain | plain plain | placeholder plain | stated plain =>
    exact absurd spliced (by simp [plain])

theorem OfInstances.fits (h : OfInstances m p) (inPlace : p.isSpliced = false) : m.Fits p := by
  obtain ⟨shape, read, instances⟩ := h
  cases shape with
  | primitive primitives => exact absurd rfl (instances primitives)
  | single d => exact .single inPlace read
  | choice plan => exact .choice inPlace read

theorem forward_fits {fs : List Forward} (inPlace : p.isSpliced = false)
    (h : forward m p s = .ok (fs, t)) : m.Fits p := by
  cases forward_made h with
  | reverse _ instances => exact (instances inPlace).fits inPlace
  | spliced spliced => exact absurd spliced (by simp [inPlace])
  | plain _ forward read => exact .plain inPlace read forward
  | link _ _ instances => exact instances.fits inPlace

theorem classTemplate_describes {template : Template}
    (h : classTemplate m o c s = .ok (template, t)) : m.Describes c := by
  obtain ⟨ps, fs, rs, u, own, first, second, -⟩ := classTemplate_made h
  have inside := runs_forall₂ (R := fun p _ => p.isSpliced = false → m.Fits p) first
    fun p _ _ _ _ run inPlace => forward_fits inPlace run
  have after := runs_forall₂ (R := fun p _ => p.isSpliced → ∃ d, m.spliceTarget p = .ok d) second
    fun p _ _ _ _ run spliced => related_spliced spliced run
  refine ⟨ps, own, fun p member => ?_⟩
  by_cases spliced : p.isSpliced
  · obtain ⟨_, _, target⟩ := forall₂_mem_left after member
    obtain ⟨d, target⟩ := target spliced
    exact .spliced spliced target
  · obtain ⟨_, _, fits⟩ := forall₂_mem_left inside member
    exact fits (Bool.eq_false_iff.mpr spliced)

theorem generate_transformable {source : Source} {l : Lifting} (h : generate source = .ok l) :
    source.model.Transformable := by
  obtain ⟨cs, _, _, made⟩ := generate_made h
  have each := runs_forall₂ (R := fun c _ => source.model.Describes c) made.templates
    fun c _ _ _ _ run => classTemplate_describes run
  refine ⟨made.checked, ⟨cs, made.found⟩, fun c member => ?_⟩
  obtain ⟨_, _, describes⟩ := forall₂_mem_left each member
  exact describes

end Lifting

namespace Lowering

variable {y : Plan} {p : Property} {c : Class} {s t : Progress}

theorem item_fits {i : Item} (h : y.item p s = .ok (i, t)) : y.model.Fits p := by
  cases item_made h with
  | spliced spliced target => exact .spliced spliced target
  | element inPlace read content =>
    cases content with
    | codelist forward | literal forward => exact .plain inPlace read forward
    | instanceOf => exact .single inPlace read
    | identity | choice => exact .choice inPlace read

theorem classTemplate_describes {template : Template}
    (h : y.classTemplate c s = .ok (template, t)) : y.model.Describes c := by
  obtain ⟨ps, items, own, made, -⟩ := classTemplate_made h
  have each := runs_forall₂ (R := fun p _ => y.model.Fits p) made fun p _ _ _ _ run => item_fits run
  refine ⟨ps, own, fun p member => ?_⟩
  obtain ⟨_, _, fits⟩ := forall₂_mem_left each member
  exact fits

theorem generate_transformable {source : Source} {l : Lowering} (h : generate source = .ok l) :
    source.model.Transformable := by
  obtain ⟨cs, _, _, made⟩ := generate_made h
  have each := runs_forall₂ (R := fun c _ => source.model.Describes c) made.templates
    fun c _ _ _ _ run => classTemplate_describes run
  refine ⟨made.checked, ⟨cs, made.found⟩, fun c member => ?_⟩
  obtain ⟨_, _, describes⟩ := forall₂_mem_left each member
  exact describes

end Lowering

/-- A model of classes of its own that a stylesheet can be made of has a schema under all rules of
extraction, unless a codelist may be the root of a document. -/
theorem schema_of_stylesheet {s : Source} (own : s.model.SelfContained)
    (expanded : ∀ c, s.model.Knows c → s.model.isRoot c.iri → c.isCodelist = false)
    (accepted : (∃ l, Lifting.generate s = .ok l) ∨ ∃ l, Lowering.generate s = .ok l)
    (rules : ExtractionRules) :
    ∃ schema, Schema.generate (Schema.extracting s rules) = .ok schema := by
  have transformable : s.model.Transformable := by
    rcases accepted with ⟨l, made⟩ | ⟨l, made⟩
    · exact Lifting.generate_transformable made
    · exact Lowering.generate_transformable made
  exact Schema.generate_succeeds (s := Schema.extracting s rules) own
    (transformable.representable own expanded)

/-- A stable whose horses extend a codelist of breeds and have a choice of keepers. As the classes
have no meaning, documents can be read but not written. -/
def stables : Source :=
  let property (label : String) (targets : List String) : Property :=
    targets.foldl Property.association (Property.make label ("https://ex.org/" ++ label))
  { model := (Model.make "stables" "riding").rootedAt ["Horse"]
      |>.declaring { (Class.make "Breed" "Breed").declaring (property "studbook" ["Stable"]) with
        isCodelist := true }
      |>.declaring (((Class.make "Horse" "Horse").extending "Breed")
        |>.declaring (property "keeper" ["Person", "Rider"])
        |>.declaring { property "box" ["Box"] with isSpliced := true })
      |>.declaring (Class.make "Person" "Person")
      |>.declaring ((Class.make "Rider" "Rider").extending "Person")
      |>.declaring ((Class.make "Box" "Box").declaring (property "stable" ["Stable"]))
      |>.declaring ((Class.make "Stable" "Stable").declaring (property "horse" ["Horse"]))
    manifests := []
    config := { output := { baseAddress := "https://own.org/" } } }

theorem schema_of_stylesheet_stables : stables.model.SelfContained ∧
    (Lifting.generate stables).isOk ∧
    Lowering.generate stables = .error (.missingInterpretation "Horse" .root) ∧
    ∃ schema, Schema.generate (Schema.extracting stables Schema.named) = .ok schema := by
  have own : stables.model.SelfContained := by
    unfold Model.SelfContained
    decide
  have plain : ∀ c ∈ stables.model.classes, stables.model.isRoot c.iri →
      c.isCodelist = false := by decide
  have lifted : (Lifting.generate stables).isOk := by decide +kernel
  have refused : Lowering.generate stables = .error (.missingInterpretation "Horse" .root) := by
    decide +kernel
  obtain ⟨l, made⟩ := except_isOk lifted
  exact ⟨own, lifted, refused, schema_of_stylesheet own
    (fun c known => plain c (Model.knows_mem known)) (.inl ⟨l, made⟩) Schema.named⟩

end RdfXmlMapping
