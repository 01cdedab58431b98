import RdfXmlMapping.Artifact.Set
import RdfXmlMapping.Model.Build
import RdfXmlMapping.Proofs.Stylesheet.Redeclare
import RdfXmlMapping.Proofs.Lifting.Runs
import RdfXmlMapping.Proofs.Lowering.Runs
import RdfXmlMapping.Proofs.Schema.Repetition

/-!
What becomes of a model in which data of properties are repeated: `repeated_data`. The query stays
as it is and the schema can be made as before. A stylesheet stays as it is too, unless a property
that it describes has just one plain value: the further copy makes that two, and a stylesheet can
only handle one.
-/

namespace RdfXmlMapping

variable {m : Model} {f : Class → List Property} {p q : Property} {c : Class}

/-! ### Queries -/

namespace Query

theorem refuseReversePrimitive_repeats (h : p.Repeats q) {shape again : Shape}
    (repeated : shape.Repeats again) : refuseReversePrimitive q (again.map (Class.redeclare f)) =
      refuseReversePrimitive p shape := by
  obtain ⟨ts, rfl⟩ : ∃ ts, q = { p with types := ts } := ⟨_, h.fields⟩
  cases repeated with
  | same => cases shape <;> rfl
  | further given _ =>
    rw [given]
    rfl

theorem classPatterns_repeats (again : Repeating f) (path : List String) :
    ∀ subject typeIsOptional c,
      classPatterns (m.redeclare f) path subject typeIsOptional (c.redeclare f) =
        classPatterns m path subject typeIsOptional c := by
  induction path using Model.walk_induction m with
  | step path ih =>
    intro subject typeIsOptional c
    rw [classPatterns, classPatterns]
    have same : (m.redeclare f).canEnter path (c.redeclare f).iri = m.canEnter path c.iri :=
      Model.canEnter_redeclare path c.iri
    by_cases way : m.canEnter path c.iri
    · rw [dif_pos way, dif_pos (same.trans way)]
      have inner := ih c.iri way
      change (typePatterns subject typeIsOptional c >>= _) = _
      refine bind_congr fun type => (StepsAlike.eq ?_).symm
      refine (StepsAlike.lift (Model.effectiveProperties_repeats again)).bind fun ps qs own => ?_
      refine (StepsAlike.mapM (S := Eq) own fun p q h => ?_).bind
        fun _ _ same => .pure (by rw [forall₂_eq same])
      refine (StepsAlike.lift (Model.shapeOf_redeclare_repeats h)).bind ?_
      rintro shape _ ⟨read, repeated, rfl⟩
      rw [refuseReversePrimitive_repeats h repeated]
      obtain ⟨ts, rfl⟩ : ∃ ts, q = { p with types := ts } := ⟨_, h.fields⟩
      refine StepsAlike.refl.bind fun _ _ _ => ?_
      change StepsAlike _ _ _ _ (propertyTriple subject p >>= _)
      refine StepsAlike.refl.bind ?_
      rintro ⟨value, edge⟩ _ rfl
      cases repeated with
      | further given _ =>
        rw [given]
        exact .refl
      | same =>
        cases shape with
        | primitive vs => exact .refl
        | single d =>
          dsimp only [Shape.map]
          rw [Class.redeclare_iri, inner]
          exact .refl
        | choice plan =>
          have each (alone : Bool) : classPatterns (m.redeclare f) (c.iri :: path) value alone ∘
            Class.redeclare f = classPatterns m (c.iri :: path) value alone :=
              funext (inner value alone)
          dsimp only [Shape.map, ChoicePlan.map]
          rw [List.length_map, List.mapM_map, Class.redeclare_iri, each]
          exact .refl
    · rw [dif_neg way, dif_neg fun entered => way (same.symm.trans entered)]
      rfl

theorem rootPatterns_repeats (again : Repeating f) (group : List String) :
    rootPatterns (m.redeclare f) group = rootPatterns m group := by
  unfold rootPatterns
  refine bind_congr fun subject => (StepsAlike.eq ?_).symm
  have found : StepsAlike Eq Eq (List.Forall₂ fun c c' => c' = c.redeclare f)
      (group.mapM fun iri => (liftM (m.lookUp iri m.iri) : Build Class))
      (group.mapM fun iri =>
        (liftM ((m.redeclare f).lookUp iri (m.redeclare f).iri) : Build Class)) := by
    refine StepsAlike.mapM (R := Eq) (List.forall₂_same.mpr fun _ _ => rfl) ?_
    rintro iri _ rfl
    rw [Model.lookUp_redeclare, Model.redeclare_iri]
    refine .lift ?_
    cases m.lookUp iri m.iri with
    | ok c => exact .ok rfl
    | error e => exact .error rfl
  refine found.bind fun cs cs' found => ?_
  obtain rfl : cs' = cs.map (Class.redeclare f) := by
    induction found with
    | nil => rfl
    | cons first _ ih => rw [first, ih, List.map_cons]
  have several : (cs.map (Class.redeclare f)).mapM (classPatterns (m.redeclare f) [] subject
      (1 < (cs.map (Class.redeclare f)).length)) =
        cs.mapM (classPatterns m [] subject (1 < cs.length)) := by
    rw [List.length_map, List.mapM_map]
    exact mapM_congr fun c _ => classPatterns_repeats again [] subject _ c
  rcases cs with - | ⟨c, - | ⟨d, rest⟩⟩
  · exact .refl
  · change StepsAlike _ _ _ _ (classPatterns (m.redeclare f) [] subject false (c.redeclare f))
    rw [classPatterns_repeats again]
    exact .refl
  · simp only [List.map_cons] at several ⊢
    rw [several]
    exact .refl

theorem ofModel_repeats (again : Repeating f) : ofModel (m.redeclare f) = ofModel m := by
  have patterns : modelPatterns (m.redeclare f) = modelPatterns m := by
    have each : rootPatterns (m.redeclare f) = rootPatterns m :=
      funext (rootPatterns_repeats again)
    unfold modelPatterns
    rw [each]
    rfl
  unfold ofModel
  rw [Model.checkAcyclic_repeats again, patterns]

end Query

/-! ### Stylesheets to RDF -/

namespace Lifting

variable {o : Import.Outlook}

theorem splicedNames_repeats (again : Repeating f) (chain : List String) : ∀ c,
    splicedNames (m.redeclare f) chain (c.redeclare f) = splicedNames m chain c := by
  induction chain using Model.walk_induction m with
  | step chain ih =>
    intro c
    rw [splicedNames, splicedNames]
    refine (Alike.eq ((Model.effectiveProperties_repeats again).bind fun ps qs own => ?_)).symm
    refine (Alike.mapM (S := Eq) own fun p q h => ?_).bind
      fun _ _ same => .ok (by rw [forall₂_eq same])
    rw [Model.spliceTarget_repeats h, bind_map_left]
    obtain ⟨ts, rfl⟩ : ∃ ts, q = { p with types := ts } := ⟨_, h.fields⟩
    change Alike _ _ _ (if p.isSpliced then _ else _)
    split
    · refine Alike.refl.bind ?_
      rintro d _ rfl
      have enters : (m.redeclare f).canEnter chain (d.redeclare f).iri = m.canEnter chain d.iri :=
        Model.canEnter_redeclare chain d.iri
      by_cases way : m.canEnter chain d.iri
      · rw [dif_pos way, dif_pos (enters.trans way), Class.redeclare_iri, ih d.iri way]
        exact .refl
      · rw [dif_neg way, dif_neg fun entered => way (enters.symm.trans entered)]
        exact .refl
    · exact .refl

theorem contentNames_repeats (again : Repeating f) :
    contentNames (m.redeclare f) (c.redeclare f) = contentNames m c :=
  splicedNames_repeats again [c.iri] c

theorem forward_repeats (again : Repeating f) (h : p.Repeats q)
    (twice : m.Doubled p q → m.Doubles f p q) :
    StepsHalt (m.Plural f) Eq (forward m p) (forward (m.redeclare f) q) := by
  have shape := (Model.shapeOf_redeclare_repeats (m := m) (f := f) h).with_runs
  have target := Model.spliceTarget_repeats (m := m) (f := f) h
  obtain ⟨ts, rfl⟩ : ∃ ts, q = { p with types := ts } := ⟨_, h.fields⟩
  unfold forward
  rw [target]
  change StepsHalt _ _ _ (if p.isSpliced then _ else _)
  split
  · change StepsHalt _ _ _ (if p.isReverse then _ else _)
    split
    · exact .refl
    · change StepsHalt _ _ _ (predicateOf p >>= _)
      refine StepsHalt.refl.bind ?_
      rintro predicate _ rfl
      rw [lift_map_bind]
      refine StepsHalt.refl.bind ?_
      rintro d _ rfl
      rw [contentNames_repeats again]
      exact .refl
  next inPlace =>
    refine (StepsHalt.lift (.alike shape)).bind ?_
    rintro shape _ ⟨read, read', repeated, reads, rfl⟩
    change StepsHalt _ _ _ (plainForward p (repeated.map (Class.redeclare f)))
    rw [plainForward_map]
    cases reads with
    | same => exact .refl
    | further given member =>
      rw [given] at read ⊢
      have alone := fun one => twice (.of_further (Bool.eq_false_iff.mpr inPlace) read read' one)
      dsimp only [plainForward]
      split
      · exact .refl
      · refine StepsHalt.refl.bind ?_
        rintro predicate _ rfl
        refine (StepsHalt.lift (Model.only_repeats member alone)).bind ?_
        rintro one _ rfl
        exact .refl

theorem related_repeats (again : Repeating f) (h : p.Repeats q) :
    related (m.redeclare f) o q = related m o p := by
  have shape := Model.shapeOf_redeclare_repeats (m := m) (f := f) h
  have target := Model.spliceTarget_repeats (m := m) (f := f) h
  obtain ⟨ts, rfl⟩ : ∃ ts, q = { p with types := ts } := ⟨_, h.fields⟩
  unfold related
  rw [target, lift_map_bind]
  change (if p.isSpliced then _ else _) = _
  split
  · refine bind_congr fun d => ?_
    rw [contentNames_repeats again]
    rfl
  · refine (StepsAlike.eq ((StepsAlike.lift shape).bind ?_)).symm
    rintro shape _ ⟨read, repeated, rfl⟩
    change StepsAlike _ _ _ _ (plainRelated (m.redeclare f) o p (read.map (Class.redeclare f)))
    rw [plainRelated_redeclare]
    cases repeated with
    | same => exact .refl
    | further given _ =>
      rw [given]
      exact .refl

theorem classTemplate_repeats (again : Repeating f) (described : c ∈ m.describedClasses) :
    StepsHalt (m.Plural f) Eq (classTemplate m o c)
      (classTemplate (m.redeclare f) o (c.redeclare f)) := by
  have each := Model.effectiveProperties_doubles again described
  unfold classTemplate
  refine (StepsHalt.lift (.alike each)).bind fun ps qs own => ?_
  refine (StepsHalt.mapM own fun p q h => forward_repeats again h.1 h.2).bind ?_
  rintro fs _ rfl
  refine (StepsHalt.mapM own fun p q h => ?_).bind ?_
  · rw [related_repeats again h.1]
    exact .refl
  · rintro rs _ rfl
    exact .refl

theorem rules_repeats (again : Repeating f) :
    StepsHalt (m.Plural f) Eq (rules m o) (rules (m.redeclare f) o) := by
  have described : (m.redeclare f).describedClasses = m.describedClasses.map (Class.redeclare f) :=
    List.filter_map
  have roots (cs : List Class) :
      (cs.map (Class.redeclare f)).mapM (rootRule (m.redeclare f) o) = cs.mapM (rootRule m o) := by
    rw [List.mapM_map]
    rfl
  unfold rules
  rw [Model.rootClasses_redeclare, lift_map_bind, described]
  refine StepsHalt.refl.bind ?_
  rintro cs _ rfl
  rw [roots]
  refine StepsHalt.refl.bind ?_
  rintro rs _ rfl
  refine (StepsHalt.mapM (R := fun c c' => c ∈ m.describedClasses ∧ c' = c.redeclare f)
    (forall₂_map fun c member => ⟨member, rfl⟩) ?_).bind ?_
  · rintro c _ ⟨member, rfl⟩
    exact classTemplate_repeats again member
  · rintro ts _ rfl
    exact .refl

theorem generate_repeats (again : Repeating f) (s : Source) :
    Halts (s.model.Plural f) Eq (generate s) (generate (s.redeclare f)) := by
  have spliced : (s.redeclare f).model.checkSplicing = s.model.checkSplicing :=
    Model.checkSplicing_redeclare (Model.splices_repeats again)
  unfold generate unchecked
  rw [spliced]
  refine Halts.bind (.alike .refl) fun _ _ _ => ?_
  refine Halts.bind (rules_repeats again _) ?_
  rintro ⟨⟨roots, templates⟩, final⟩ ⟨_, _⟩ ⟨rfl, rfl⟩
  exact .alike .refl

theorem forward_alone {fs : List Forward} {s t : Progress} {vs : List Primitive}
    (run : forward m p s = .ok (fs, t)) (inPlace : p.isSpliced = false)
    (read : m.shapeOf p = .ok (.primitive vs)) : vs.length = 1 := by
  have instances : ¬ OfInstances m p := by
    rintro ⟨shape, read', other⟩
    exact other vs (Except.ok.inj (read'.symm.trans read))
  cases forward_made run with
  | reverse _ of_ => exact absurd (of_ inPlace) instances
  | spliced spliced => exact absurd spliced (by simp [inPlace])
  | plain _ _ read' =>
    obtain rfl := Shape.primitive.inj (Except.ok.inj (read.symm.trans read'))
    rfl
  | link _ _ of_ => exact absurd of_ instances

theorem generate_alone {s : Source} {l : Lifting} (made : generate s = .ok l) :
    ∀ c ∈ s.model.describedClasses, s.model.PlainAlone c := by
  intro c described ps own p member inPlace vs read
  obtain ⟨_, _, _, made⟩ := generate_made made
  obtain ⟨_, _, _, _, run⟩ := forall₂_mem_left (runs_forall₂ (R := fun c template => ∃ s' t,
    classTemplate s.model (s.outlook .lifting) c s' = .ok (template, t)) made.templates
      fun _ _ _ _ _ run => ⟨_, _, run⟩) described
  obtain ⟨ps', fs, _, _, own', first, _⟩ := classTemplate_made run
  obtain rfl := Except.ok.inj (own.symm.trans own')
  obtain ⟨_, _, alone⟩ := forall₂_mem_left (runs_forall₂ (R := fun p _ => p.isSpliced = false →
    ∀ vs, s.model.shapeOf p = .ok (.primitive vs) → vs.length = 1) first
      fun _ _ _ _ _ run inPlace vs read => forward_alone run inPlace read) member
  exact alone inPlace vs read

end Lifting

/-! ### Stylesheets to documents -/

namespace Lowering

variable {x : Plan}

theorem item_repeats (h : p.Repeats q) (twice : x.model.Doubled p q → x.model.Doubles f p q) :
    StepsHalt (x.model.Plural f) Eq (x.item p) ((x.redeclare f).item q) := by
  have shape := (Model.shapeOf_redeclare_repeats (m := x.model) (f := f) h).with_runs
  have target : (x.redeclare f).model.spliceTarget q =
    Class.redeclare f <$> x.model.spliceTarget p := Model.spliceTarget_repeats h
  obtain ⟨ts, rfl⟩ : ∃ ts, q = { p with types := ts } := ⟨_, h.fields⟩
  unfold Plan.item
  rw [target]
  change StepsHalt _ _ _ (if p.isSpliced then _ else _)
  split
  · rw [lift_map_bind]
    exact .refl
  next inPlace =>
    refine (StepsHalt.lift (.alike shape)).bind ?_
    rintro shape _ ⟨read, read', repeated, reads, rfl⟩
    change StepsHalt _ _ _ ((x.redeclare f).contentOf p (repeated.map (Class.redeclare f)) >>= _)
    rw [contentOf_redeclare]
    cases reads with
    | same => exact .refl
    | further given member =>
      rw [given] at read ⊢
      have alone := fun one => twice (.of_further (Bool.eq_false_iff.mpr inPlace) read read' one)
      refine StepsHalt.bind (R := Eq) ?_ ?_
      · dsimp only [Plan.contentOf]
        split
        · exact .refl
        · refine (StepsHalt.lift (Model.only_repeats member alone)).bind ?_
          rintro one _ rfl
          exact .refl
      · rintro content _ rfl
        exact .refl

theorem classTemplate_repeats (again : Repeating f) (described : c ∈ x.model.describedClasses) :
    StepsHalt (x.model.Plural f) Eq (x.classTemplate c)
      ((x.redeclare f).classTemplate (c.redeclare f)) := by
  have each := Model.effectiveProperties_doubles again described
  unfold Plan.classTemplate
  refine (StepsHalt.lift (.alike each)).bind fun ps qs own => ?_
  refine (StepsHalt.mapM own fun p q h => item_repeats h.1 h.2).bind ?_
  rintro is _ rfl
  exact .refl

theorem rootRules_repeats (cs : List Class) :
    (x.redeclare f).rootRules (cs.map (Class.redeclare f)) = x.rootRules cs := by
  induction cs with
  | nil => rfl
  | cons c cs ih =>
    rw [List.map_cons, Plan.rootRules, Plan.rootRules, List.length_map, ih]
    rfl

theorem rules_repeats (again : Repeating f) :
    StepsHalt (x.model.Plural f) Eq x.rules (x.redeclare f).rules := by
  have roots : (x.redeclare f).model.rootClasses =
    List.map (Class.redeclare f) <$> x.model.rootClasses := Model.rootClasses_redeclare
  have described : (x.redeclare f).model.describedClasses =
    x.model.describedClasses.map (Class.redeclare f) := List.filter_map
  unfold Plan.rules
  rw [roots, lift_map_bind, described]
  refine StepsHalt.refl.bind ?_
  rintro cs _ rfl
  rw [rootRules_repeats]
  refine StepsHalt.refl.bind ?_
  rintro rs _ rfl
  refine (StepsHalt.mapM (R := fun c c' => c ∈ x.model.describedClasses ∧ c' = c.redeclare f)
    (forall₂_map fun c member => ⟨member, rfl⟩) ?_).bind ?_
  · rintro c _ ⟨member, rfl⟩
    exact classTemplate_repeats again member
  · rintro ts _ rfl
    exact .refl

theorem generate_repeats (again : Repeating f) (s : Source) :
    Halts (s.model.Plural f) Eq (generate s) (generate (s.redeclare f)) := by
  have spliced : (s.redeclare f).model.checkSplicing = s.model.checkSplicing :=
    Model.checkSplicing_redeclare (Model.splices_repeats again)
  unfold generate unchecked
  rw [spliced, Plan.ofSource_redeclare]
  refine Halts.bind (.alike .refl) fun _ _ _ => ?_
  refine Halts.bind (rules_repeats (x := .ofSource s) again _) ?_
  rintro ⟨⟨roots, templates⟩, final⟩ ⟨_, _⟩ ⟨rfl, rfl⟩
  exact .alike .refl

theorem item_alone {i : Item} {s t : Progress} {vs : List Primitive}
    (run : x.item p s = .ok (i, t)) (inPlace : p.isSpliced = false)
    (read : x.model.shapeOf p = .ok (.primitive vs)) : vs.length = 1 := by
  have alone {one : Primitive} (only : Primitive.only p vs = .ok one) : vs.length = 1 := by
    by_contra several
    rw [Model.only_several several] at only
    cases only
  cases item_made run with
  | spliced spliced => exact absurd spliced (by simp [inPlace])
  | element _ read' content =>
    obtain rfl := Except.ok.inj (read.symm.trans read')
    cases content with
    | codelist _ only | literal _ only => exact alone only

theorem generate_alone {s : Source} {l : Lowering} (made : generate s = .ok l) :
    ∀ c ∈ s.model.describedClasses, s.model.PlainAlone c := by
  intro c described ps own p member inPlace vs read
  obtain ⟨_, _, _, made⟩ := generate_made made
  obtain ⟨_, _, _, _, run⟩ := forall₂_mem_left (runs_forall₂ (R := fun c template => ∃ s' t,
    (Plan.ofSource s).classTemplate c s' = .ok (template, t)) made.templates
      fun _ _ _ _ _ run => ⟨_, _, run⟩) described
  obtain ⟨ps', _, own', each, _⟩ := classTemplate_made run
  obtain rfl := Except.ok.inj (own.symm.trans own')
  obtain ⟨_, _, alone⟩ := forall₂_mem_left (runs_forall₂ (R := fun p _ => p.isSpliced = false →
    ∀ vs, s.model.shapeOf p = .ok (.primitive vs) → vs.length = 1) each
      fun _ _ _ _ _ run inPlace vs read => item_alone run inPlace read) member
  exact alone inPlace vs read

end Lowering

/-! ### All artifacts -/

/-- A further copy of a datum shows in the shape of a property if and only if that has plain values.
It changes neither the query nor whether there is a schema, and of the stylesheets it leads to the
refusal of those that describe a property whose plain value was alone. -/
theorem repeated_data (again : Repeating f) (s : Source) :
    (∀ p q, p.Repeats q → Alike Eq Shape.Repeats (s.model.shapeOf p) (s.model.shapeOf q) ∧
      (s.model.shapeOf q = s.model.shapeOf p ↔
        q = p ∨ ∀ vs, s.model.shapeOf p ≠ .ok (.primitive vs))) ∧
    (s.redeclare f).artifact .query = s.artifact .query ∧
    Alike Eq (fun _ _ => True) (s.artifact .schema) ((s.redeclare f).artifact .schema) ∧
    ∀ kind, kind = .lifting ∨ kind = .lowering →
      ((s.redeclare f).artifact kind = s.artifact kind ∨
        ∃ e, s.model.Plural f e ∧ (s.redeclare f).artifact kind = .error e) ∧
      ∀ p q, s.model.Doubles f p q → ∃ e, (s.redeclare f).artifact kind = .error e := by
  have halts {α : Type} {x x' : Generated α} (g : α → String)
      (h : Halts (s.model.Plural f) Eq x x') : g <$> x' = g <$> x ∨
        ∃ e, s.model.Plural f e ∧ g <$> x' = .error e := by
    cases h with
    | alike both => exact .inl (by rw [both.eq])
    | stopped cause => exact .inr ⟨_, cause, rfl⟩
  have refuses {α : Type} {x : Generated α} (g : α → String) (none : ∀ l, x ≠ .ok l) :
      ∃ e, g <$> x = .error e := by
    cases x with
    | ok l => exact absurd rfl (none l)
    | error e => exact ⟨e, rfl⟩
  refine ⟨fun p q h => ⟨Model.shapeOf_repeats h, Model.shapeOf_repeats_iff h⟩, ?_, ?_, ?_⟩
  · change (do return (← Query.ofModel (s.model.redeclare f)).render _ _) = _
    rw [Query.ofModel_repeats again]
    rfl
  · exact (Schema.generate_repeats again).map fun _ _ _ => trivial
  · rintro kind (rfl | rfl)
    · refine ⟨halts _ (Lifting.generate_repeats again s),
        fun p q twice => refuses _ fun l made => ?_⟩
      obtain ⟨c, described, several⟩ := twice.shown again
      exact several (Lifting.generate_alone made c described)
    · refine ⟨halts _ (Lowering.generate_repeats again s),
        fun p q twice => refuses _ fun l made => ?_⟩
      obtain ⟨c, described, several⟩ := twice.shown again
      exact several (Lowering.generate_alone made c described)

/-- The property with a further copy of its first datum, if it is the one with the label. -/
def Property.again (label : String) (p : Property) : Property :=
  match p.types with
  | t :: ts => if p.label = label then { p with types := t :: ts ++ [t] } else p
  | [] => p

theorem Property.again_repeats (label : String) (p : Property) : p.Repeats (p.again label) := by
  unfold Property.again
  split
  next t ts given =>
    split
    · exact .further (by rw [given, List.append_nil]) List.mem_cons_self
    · exact .same
  next => exact .same

theorem repeating_again (label : String) : Repeating fun c => c.properties.map (·.again label) :=
  fun _ => forall₂_map fun p _ => p.again_repeats label

/-- The note on an order, which is a text. -/
def note : Property :=
  { Property.make "note" "https://ex.org/note" with iri := "Order/note" }.primitive
    "http://www.w3.org/2001/XMLSchema#string"

/-- Orders with a note and a client. -/
def orders : Source where
  model := (Model.make "orders" "shop").rootedAt ["Order"]
    |>.declaring ({ Class.make "Order" "Order" with meaning := some "https://ex.org/Order" }
      |>.declaring note
      |>.declaring ((Property.make "client" "https://ex.org/client").association "Person"))
    |>.declaring (Class.make "Person" "Person")
  manifests := []
  config := {}

/-- The source with the first datum of the properties with a label repeated. -/
def Source.again (s : Source) (label : String) : Source :=
  s.redeclare fun c => c.properties.map (·.again label)

theorem repeated_data_orders : Repeating (fun c => c.properties.map (·.again "client")) ∧
    note.Repeats (note.again "note") ∧
    orders.model.shapeOf (note.again "note") ≠ orders.model.shapeOf note ∧
    (orders.again "client").artifact .query = orders.artifact .query ∧
    ∃ text, (orders.again "client").artifact .lifting = .ok text ∧
      orders.artifact .lifting = .ok text := by
  have again := repeating_again "client"
  have repeats := note.again_repeats "note"
  have plain : orders.model.shapeOf note =
    .ok (.primitive [.datatype "http://www.w3.org/2001/XMLSchema#string"]) := by decide
  have lifted : (Lifting.generate (orders.again "client")).isOk := by decide +kernel
  obtain ⟨l, made⟩ := except_isOk lifted
  obtain ⟨shapes, query, _, stylesheets⟩ := repeated_data again orders
  refine ⟨again, repeats, fun same => ?_, query, Lifting.render l, ?_, ?_⟩
  · rcases (shapes _ _ repeats).2.mp same with unchanged | other
    · exact absurd unchanged (by decide)
    · exact other _ plain
  · rw [Source.artifact, made]
    rfl
  · have text : (orders.again "client").artifact .lifting = .ok (Lifting.render l) := by
      rw [Source.artifact, made]
      rfl
    rcases (stylesheets .lifting (.inl rfl)).1 with same | ⟨e, _, refused⟩
    · exact same.symm.trans text
    · cases refused.symm.trans text

/-- The note is a text once more: its shape has it twice, and there is no stylesheet any more. -/
theorem note_twice_refused : note.Repeats (note.again "note") ∧
    orders.model.shapeOf note =
      .ok (.primitive [.datatype "http://www.w3.org/2001/XMLSchema#string"]) ∧
    orders.model.shapeOf (note.again "note") =
      .ok (.primitive [.datatype "http://www.w3.org/2001/XMLSchema#string",
        .datatype "http://www.w3.org/2001/XMLSchema#string"]) ∧
    (Lifting.generate orders).isOk ∧
    Lifting.generate (orders.again "note") = .error (.multiplePrimitiveTypes "Order/note") :=
  ⟨note.again_repeats "note", by decide, by decide, by decide +kernel, by decide +kernel⟩

end RdfXmlMapping
