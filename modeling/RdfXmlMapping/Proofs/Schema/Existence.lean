import RdfXmlMapping.Proofs.Schema.Inlining
import RdfXmlMapping.Proofs.Schema.Success

/-!
Models that have a schema: `generate_succeeds_iff`. If all classes that the roots lead to can be
described, no step of the generation fails, as only such classes are ever asked for. How content is
extracted plays no part, so that schemas with different extraction describe the same content:
`content_ignores_extraction`.
-/

namespace RdfXmlMapping

/-- A model all of whose content can be put in a schema. -/
structure Model.Representable (m : Model) : Prop where
  spliced : m.checkSplicing = .ok ()
  extended : ∃ iris, Schema.extendedClasses m = .ok iris
  rooted : ∃ roots, m.rootClasses = .ok roots
  described : ∀ c, m.Reached c → m.Describes c

namespace Schema

variable {m : Model} {x : Plan} {c d : Class} {p : Property} {α β : Type}

def Pending.Reached (m : Model) : Pending → Prop
  | .type c | .group c => m.Reached c
  | .placeholder _ => True

/-- Only declarations of classes that the roots lead to are pending. -/
def Progress.Expects (m : Model) (s : Progress) : Prop := ∀ p ∈ s.pending, p.Reached m

/-- A step that does not fail, and asks only for classes that the roots lead to. -/
def Succeeds (m : Model) (f : Build α) : Prop :=
  ∀ s, s.Expects m → ∃ a t, f s = .ok (a, t) ∧ t.Expects m

namespace Succeeds

theorem pure (a : α) : Succeeds m (pure a : Build α) := fun s expects => ⟨a, s, rfl, expects⟩

theorem bind {f : Build α} {g : α → Build β} (first : Succeeds m f)
    (rest : ∀ a, Succeeds m (g a)) : Succeeds m (f >>= g) := by
  intro s expects
  obtain ⟨a, t, run, expects⟩ := first s expects
  rw [bind_of_ok run]
  exact rest a t expects

theorem map {f : Build α} {g : α → β} (h : Succeeds m f) : Succeeds m (g <$> f) := by
  intro s expects
  obtain ⟨a, t, run, expects⟩ := h s expects
  exact ⟨g a, t, by rw [map_eq_pure_bind, bind_of_ok run]; rfl, expects⟩

theorem lift_bind {x : Generated α} {a : α} {g : α → Build β} (read : x = .ok a)
    (rest : Succeeds m (g a)) : Succeeds m ((liftM x : Build α) >>= g) := by
  rw [read, lift_ok_bind]
  exact rest

/-- A step that leaves what is pending as it is. -/
theorem keeps {f : Build α} (h : ∀ s, ∃ a t, f s = .ok (a, t) ∧ t.pending = s.pending) :
    Succeeds m f := by
  intro s expects
  obtain ⟨a, t, run, same⟩ := h s
  exact ⟨a, t, run, fun p member => expects p (same ▸ member)⟩

theorem mapM {f : α → Build β} {xs : List α} (each : ∀ x ∈ xs, Succeeds m (f x)) :
    Succeeds m (xs.mapM f) := by
  induction xs with
  | nil => exact .pure []
  | cons x xs ih =>
    obtain ⟨first, others⟩ := List.forall_mem_cons.mp each
    rw [List.mapM_cons]
    exact first.bind fun _ => (ih others).bind fun _ => .pure _

end Succeeds

/-! ### Requests -/

theorem expects_push {s : Progress} {p : Pending} (expects : s.Expects m) (reached : p.Reached m) :
    ∀ q ∈ s.pending ++ [p], q.Reached m := by
  intro q member
  rcases List.mem_append.mp member with old | new
  · exact expects q old
  · obtain rfl := List.mem_singleton.mp new
    exact reached

theorem requestType_succeeds (reached : m.Reached c) : Succeeds m (x.requestType c) := by
  intro s expects
  refine ⟨_, _, rfl, ?_⟩
  dsimp only
  split
  · exact expects
  · exact expects_push (p := .type c) expects reached

theorem requestGroup_succeeds (reached : m.Reached c) : Succeeds m (x.requestGroup c) := by
  intro s expects
  refine ⟨_, _, rfl, ?_⟩
  dsimp only
  split
  · exact expects
  · exact expects_push (p := .group c) expects reached

theorem resolve_own (own : m.SelfContained) (known : m.Knows c) (o : Import.Outlook) :
    o.resolve m c = .ok none := by
  have local_ := own c (Model.knows_mem known)
  simp [Import.Outlook.resolve, local_]

theorem typeOf_succeeds (own : x.model.SelfContained) (reached : x.model.Reached c) :
    Succeeds x.model (x.typeOf c) :=
  .lift_bind (resolve_own own reached.knows _) (requestType_succeeds reached)

theorem plainType_succeeds (p : Primitive) : Succeeds m (x.plainType p) := by
  cases p with
  | codelist _ => exact .pure _
  | datatype iri =>
    unfold Plan.plainType
    dsimp only
    split
    · exact .pure _
    · exact .keeps fun s => ⟨_, _, rfl, rfl⟩

theorem plainParticle_succeeds (name : String) (occurs : Occurs) (ps : List Primitive) :
    Succeeds m (x.plainParticle name occurs ps) := by
  unfold Plan.plainParticle
  split
  · exact (plainType_succeeds _).bind fun _ => .pure _
  · exact .pure _

theorem choiceType_succeeds (own : x.model.SelfContained) {plan : ChoicePlan}
    (read : x.model.shapeOf p = .ok (.choice plan))
    (reached : ∀ d, x.model.Needs p d → x.model.Reached d) :
    Succeeds x.model (x.choiceType plan) := by
  unfold Plan.choiceType
  split
  next root derived base =>
    refine (typeOf_succeeds own (reached root (.root read base))).bind fun _ => ?_
    refine (Succeeds.mapM fun d member => ?_).bind fun _ => .pure _
    have among : d ∈ plan.derived := by
      rw [ChoicePlan.derived, base]
      exact member
    exact typeOf_succeeds own (reached d.cls (.derived read among))
  next label base =>
    intro s expects
    rw [get_bind]
    cases old : s.placeholders.find? (·.1 == " ".intercalate (plan.candidates.map (·.iri))) with
    | some entry => exact ⟨_, s, rfl, expects⟩
    | none => exact ⟨_, _, rfl, expects_push (p := .placeholder _) expects trivial⟩

/-! ### Content -/

/-- Properties that can be described, as can the classes that they lead to. -/
def Ready (m : Model) (ps : List Property) : Prop :=
  ∀ p ∈ ps, m.Fits p ∧ ∀ d, m.Needs p d → m.Reached d

theorem Describes.ready (h : m.Representable) (reached : m.Reached c) :
    ∃ ps, m.effectiveProperties c = .ok ps ∧ Ready m ps := by
  obtain ⟨ps, own, fits⟩ := h.described c reached
  exact ⟨ps, own, fun p member => ⟨fits p member, fun d needed => .value reached own member needed⟩⟩

theorem member_succeeds (own : x.model.SelfContained) (h : x.model.Representable)
    {path chain : List String}
    (nested : ∀ iri, x.model.canEnter path iri → ∀ qs, SplicedAlong x.model [iri] qs →
      Ready x.model qs → Succeeds x.model (x.particles (iri :: path) [iri] qs))
    (deeper : ∀ iri, x.model.canEnter chain iri → ∀ qs, SplicedAlong x.model (iri :: chain) qs →
      Ready x.model qs → Succeeds x.model (x.particles path (iri :: chain) qs))
    {ps : List Property} (along : SplicedAlong x.model chain ps) (ready : Ready x.model ps)
    (member : p ∈ ps) : Succeeds x.model (x.member path chain p) := by
  obtain ⟨fits, reached⟩ := ready p member
  unfold Plan.member
  cases fits with
  | @spliced d spliced target =>
    have way := along.canEnter h.spliced member spliced target
    obtain ⟨single, _⟩ := Model.spliceTarget_single target
    obtain ⟨qs, found, ready'⟩ := Describes.ready h (reached d (.single single))
    rw [if_pos spliced]
    refine .lift_bind target ?_
    rw [if_pos way]
    refine .lift_bind found ?_
    exact (deeper d.iri way qs (along.step member spliced target found) ready').bind
      fun _ => .pure _
  | plain inPlace read forward =>
    rw [inPlace]
    refine .lift_bind read ?_
    dsimp only
    rw [forward]
    exact (plainParticle_succeeds _ _ _).bind fun _ => .pure _
  | @single d inPlace read =>
    have reached := reached d (.single read)
    rw [inPlace]
    refine .lift_bind read (.lift_bind (resolve_own own reached.knows _) ?_)
    split
    · exact (typeOf_succeeds own reached).bind fun _ => .pure _
    next stays =>
      split
      · exact (requestGroup_succeeds reached).bind fun _ => .pure _
      · have new : d.iri ∉ path := by
          intro old
          exact stays (by simp [old])
        have way := Model.canEnter_of_knows reached.knows new
        obtain ⟨qs, found, ready'⟩ := Describes.ready h reached
        rw [if_pos way]
        refine .lift_bind found ?_
        exact (nested d.iri way qs (splicedAlong_start reached.knows found) ready').bind
          fun _ => .pure _
  | choice inPlace read =>
    rw [inPlace]
    refine .lift_bind read ?_
    exact (choiceType_succeeds own read reached).bind fun _ => .pure _

theorem particles_succeeds (own : x.model.SelfContained) (h : x.model.Representable)
    (path : List String) : ∀ chain ps, SplicedAlong x.model chain ps → Ready x.model ps →
      Succeeds x.model (x.particles path chain ps) := by
  intro chain
  induction path, chain using content_induction x.model with
  | step path chain nested deeper =>
    intro ps along ready
    rw [particles_eq]
    exact (Succeeds.mapM fun p member =>
      member_succeeds own h nested deeper along ready member).bind fun _ => .pure _

theorem content_succeeds (own : x.model.SelfContained) (h : x.model.Representable)
    (reached : x.model.Reached c) : Succeeds x.model (x.content c) := by
  obtain ⟨ps, found, ready⟩ := Describes.ready h reached
  refine .lift_bind found ?_
  exact (particles_succeeds own h [c.iri] [c.iri] ps (splicedAlong_start reached.knows found)
    ready).bind fun _ => .pure _

/-! ### Declarations -/

theorem root_succeeds (own : x.model.SelfContained) (h : x.model.Representable)
    (reached : x.model.Reached c) : Succeeds x.model (x.root c) := by
  refine .lift_bind (resolve_own own reached.knows _) ?_
  dsimp only
  split
  · exact (typeOf_succeeds own reached).map.bind fun _ => .pure _
  · split
    · exact (requestGroup_succeeds reached).map.bind fun _ => .pure _
    · exact (content_succeeds own h reached).map.bind fun _ => .pure _

theorem declare_succeeds (own : x.model.SelfContained) (h : x.model.Representable) {p : Pending}
    (reached : p.Reached x.model) : Succeeds x.model (x.declare p) := by
  cases p with
  | type c =>
    have reached : x.model.Reached c := reached
    obtain ⟨ps, found, ready⟩ := Describes.ready h reached
    obtain ⟨parent, read⟩ := Model.parent?_of_effectiveProperties found
    refine Succeeds.bind (.keeps fun s => ⟨_, _, rfl, rfl⟩) fun s => ?_
    by_cases extended : x.extended.contains c.iri = true
    · have base : x.extensionBase c = .ok parent := by
        rw [Plan.extensionBase, if_pos extended, read]
      refine .lift_bind base ?_
      cases parent with
      | none => exact (content_succeeds own h reached).bind fun _ => .pure _
      | some d =>
        refine (typeOf_succeeds own (reached.parent read)).bind fun _ => ?_
        have inherited := properties_subset found
        have along := (splicedAlong_start reached.knows found).subset inherited
        exact (particles_succeeds own h [c.iri] [c.iri] c.properties along fun p member =>
          ready p (inherited member)).bind fun _ => .pure _
    · have base : x.extensionBase c = .ok none := by rw [Plan.extensionBase, if_neg extended]
      exact .lift_bind base ((content_succeeds own h reached).bind fun _ => .pure _)
  | group c =>
    refine Succeeds.bind (.keeps fun s => ⟨_, _, rfl, rfl⟩) fun s => ?_
    exact (content_succeeds own h reached).bind fun _ => .pure _
  | placeholder name => exact .pure _

theorem drain_succeeds (own : x.model.SelfContained) (h : x.model.Representable) (fuel : Nat) :
    Succeeds x.model (x.drain fuel) := by
  induction fuel with
  | zero => exact .pure []
  | succ fuel ih =>
    intro s expects
    rw [Plan.drain, get_bind]
    cases pending : s.pending with
    | nil => exact ⟨[], s, rfl, expects⟩
    | cons p rest =>
      have reached : p.Reached x.model := expects p (by simp [pending])
      have others : Progress.Expects x.model { s with pending := rest } :=
        fun q member => expects q (by simp [pending, show q ∈ rest from member])
      obtain ⟨d, t, made, expects⟩ := declare_succeeds own h reached _ others
      obtain ⟨ds, u, drained, expects⟩ := ih t expects
      refine ⟨d :: ds, u, ?_, expects⟩
      show (x.declare p >>= fun d => x.drain fuel >>= fun ds => pure (d :: ds))
        { s with pending := rest } = _
      rw [bind_of_ok made, bind_of_ok drained]
      rfl

theorem declarations_succeeds (own : x.model.SelfContained) (h : x.model.Representable) :
    Succeeds x.model x.declarations := by
  obtain ⟨roots, found⟩ := h.rooted
  refine .lift_bind found ?_
  refine (Succeeds.mapM fun c member => root_succeeds own h (.root found member)).bind fun _ => ?_
  refine (drain_succeeds own h _).bind fun _ => ?_
  exact Succeeds.bind (.keeps fun s => ⟨_, _, rfl, rfl⟩) fun _ => .pure _

theorem generate_succeeds {s : Source} (own : s.model.SelfContained) (h : s.model.Representable) :
    ∃ schema, generate s = .ok schema := by
  obtain ⟨iris, extended⟩ := h.extended
  have nothing : (initial s).Expects s.model := fun _ member => by cases member
  obtain ⟨ds, final, made, _⟩ :=
    declarations_succeeds (x := planOf s iris) own h (initial s) nothing
  refine ⟨{
    target := s.model.target?, importsXml := final.usesLanguageText
    imports := final.imports.entries, declarations := ds }, ?_⟩
  rw [generate, h.spliced]
  show (extendedClasses s.model >>= _) = _
  rw [extended]
  show ((planOf s iris).declarations (initial s) >>= _) = _
  rw [made]
  rfl

theorem generate_representable {s : Source} {schema : Schema} (own : s.model.SelfContained)
    (h : generate s = .ok schema) : s.model.Representable := by
  obtain ⟨_, checked, _⟩ := except_bind_ok h
  obtain ⟨extended, ds, final, run, _⟩ := generate_run h
  obtain ⟨o, same, _⟩ := generate_history h run
  obtain ⟨roots, rooted, _⟩ := o.rooted
  have self : o.plan.model.SelfContained := o.model ▸ own
  have collects (c : Class) (known : o.plan.model.Knows c) :
      ∃ ps, o.plan.model.effectiveProperties c = .ok ps := by
    obtain ⟨ps, found, _⟩ := (Model.checkSplicing_spliceable (o.model ▸ checked) known).collects
    exact ⟨ps, found⟩
  refine ⟨checked, ⟨extended, run.classes⟩, ⟨roots, rooted⟩, fun c reached => ?_⟩
  rw [← o.model] at reached ⊢
  obtain ⟨ps, found, placed⟩ := o.reached_covered (o.types_covered self collects) reached
  refine ⟨ps, found, fun p member => ?_⟩
  obtain ⟨_, _, _, made⟩ := placed p member
  exact made.fits

/-- A model of classes of its own has a schema if and only if all that its roots lead to can be
described. -/
theorem generate_succeeds_iff {s : Source} (own : s.model.SelfContained) :
    (∃ schema, generate s = .ok schema) ↔ s.model.Representable := by
  constructor
  · rintro ⟨schema, made⟩
    exact generate_representable own made
  · exact generate_succeeds own

/-! ### Extraction -/

/-- The same source with other rules of extraction. -/
def extracting (s : Source) (rules : ExtractionRules) : Source :=
  { s with config := { s.config with extraction := rules } }

/-- The prefix of the target namespace is none of those that every schema declares for itself. -/
def OwnPrefixFree (m : Model) : Prop :=
  ∀ own uri, m.target? = some (own, uri) → own ∉ fixedPrefixes.map (·.1)

/-- A schema describes the trees of the model, unless a prefix is declared twice in it. -/
theorem trees_rootTrees {s : Source} {schema : Schema} (own : s.model.SelfContained)
    (h : generate s = .ok schema) (depth : Nat) :
    (OwnPrefixFree s.model → Agree (schema.trees depth) (s.model.rootTrees depth)) ∧
      (¬ OwnPrefixFree s.model → schema.trees depth = none) := by
  obtain ⟨_, checked, _⟩ := except_bind_ok h
  obtain ⟨extended, ds, final, run, _⟩ := generate_run h
  obtain ⟨o, _, _⟩ := generate_history h run
  have once : schema.DeclaresOnce ↔ OwnPrefixFree s.model := o.declared_iff
  refine ⟨fun free => ?_, fun taken => if_neg (mt once.mp taken)⟩
  have plain : o.Plain := by
    refine ⟨o.model ▸ own, fun same => ?_, fun c known => ?_⟩
    · obtain ⟨⟨own, uri⟩, target, rfl⟩ := Option.map_eq_some_iff.mp (o.source ▸ same)
      exact free _ uri target (by simp [fixedPrefixes])
    · obtain ⟨ps, found, _⟩ := (Model.checkSplicing_spliceable (o.model ▸ checked) known).collects
      exact ⟨ps, found⟩
  have agree := plain.trees_agree (once.mpr free) depth
  rwa [o.model] at agree

/-- Where all classes are the model's own, the rules of extraction decide neither whether there is a
schema nor what its elements contain. Unless the prefix of the model is one that every schema
declares, a schema describes the trees of the model, in which the content of a class is its identity
and after it all its properties. -/
theorem content_ignores_extraction {s : Source} (own : s.model.SelfContained)
    (rules rules' : ExtractionRules) :
    ((∃ schema, generate (extracting s rules) = .ok schema) ↔
      ∃ schema, generate (extracting s rules') = .ok schema) ∧
    ∀ schema schema', generate (extracting s rules) = .ok schema →
      generate (extracting s rules') = .ok schema' → ∀ depth,
        schema.trees depth = schema'.trees depth ∧
        (OwnPrefixFree s.model →
          ∃ trees, schema.trees depth = some trees ∧ s.model.rootTrees depth = some trees) := by
  refine ⟨?_, fun schema schema' h h' depth => ?_⟩
  · rw [generate_succeeds_iff (s := extracting s rules) own,
      generate_succeeds_iff (s := extracting s rules') own]
    rfl
  · obtain ⟨free, taken⟩ := trees_rootTrees (s := extracting s rules) own h depth
    obtain ⟨free', taken'⟩ := trees_rootTrees (s := extracting s rules') own h' depth
    refine ⟨?_, free⟩
    by_cases apart : OwnPrefixFree s.model
    · obtain ⟨trees, left, right⟩ := free apart
      obtain ⟨trees', left', right'⟩ := free' apart
      obtain rfl := Option.some.inj (right.symm.trans right')
      rw [left, left']
    · rw [taken apart, taken' apart]

/-- A workshop whose parts contain parts, with a choice of owners and an address spliced in. -/
def workshops : Source :=
  let property (label : String) (targets : List String) : Property :=
    targets.foldl Property.association (Property.make label ("https://ex.org/" ++ label))
  { model :=
      { (Model.make "workshops" "craft").rootedAt ["Workshop"]
        |>.declaring ((Class.make "Workshop" "Workshop")
          |>.declaring (property "owner" ["Party", "Person"])
          |>.declaring { property "address" ["Address"] with isSpliced := true }
          |>.declaring (property "part" ["Part"]))
        |>.declaring (Class.make "Party" "Party")
        |>.declaring ((Class.make "Person" "Person").extending "Party")
        |>.declaring ((Class.make "Address" "Address")
          |>.declaring ((property "street" []).primitive Vocabulary.langString))
        |>.declaring ((Class.make "Part" "Part").declaring (property "part" ["Part"]))
      with uri := some "urn:workshops", nsPrefix := some "w" }
    manifests := []
    config := { output := { baseAddress := "https://own.org/" } } }

def named : ExtractionRules := { root := { group := true }, other := { namedType := true } }

set_option maxRecDepth 20000 in
theorem content_ignores_extraction_workshops : workshops.model.SelfContained ∧
    OwnPrefixFree workshops.model ∧
    ∃ schema schema', generate (extracting workshops {}) = .ok schema ∧
      generate (extracting workshops named) = .ok schema' ∧
      schema.declarations.length = 5 ∧ schema'.declarations.length = 6 ∧
      ∀ depth, ∃ trees, schema.trees depth = some trees ∧ schema'.trees depth = some trees ∧
        workshops.model.rootTrees depth = some trees := by
  have own : workshops.model.SelfContained := by
    unfold Model.SelfContained
    decide
  have first : (do return (← generate (extracting workshops {})).declarations.length) = .ok 5 := by
    cbv
  have second : (do return (← generate (extracting workshops named)).declarations.length) =
      .ok 6 := by cbv
  obtain ⟨schema, made, short⟩ := except_bind_ok first
  obtain ⟨schema', made', long⟩ := except_bind_ok second
  have free : OwnPrefixFree workshops.model := by
    rintro _ _ target
    obtain ⟨rfl, -⟩ := Prod.mk.inj (Option.some.inj target)
    decide
  obtain ⟨_, both⟩ := content_ignores_extraction own {} named
  refine ⟨own, free, schema, schema', made, made', Except.ok.inj short, Except.ok.inj long, ?_⟩
  intro depth
  obtain ⟨same, described⟩ := both schema schema' made made' depth
  obtain ⟨trees, found, modelled⟩ := described free
  exact ⟨trees, found, same ▸ found, modelled⟩

def stallName : Property :=
  { (Property.make "name" "https://ex.org/name").primitive (Vocabulary.xsd ++ "string") with
    iri := "Stall/name" }

def stall : Class := (Class.make "Stall" "Stall").declaring stallName

/-- A market with a stall, in a namespace with a prefix that every schema declares for itself. -/
def market : Source where
  model := { (Model.make "market" "trade").rootedAt ["Stall"] |>.declaring stall with
    uri := some "urn:market", nsPrefix := some "xs" }
  manifests := []
  config := { output := { baseAddress := "https://own.org/" } }

theorem market_trees : market.model.rootTrees 1 =
    some [("Stall", [identityTree, .plain "name" ⟨1, some 1⟩ "string"])] := by
  have roots : market.model.rootClasses = .ok [stall] := by cbv
  have own : market.model.effectiveProperties stall = .ok [stallName] := by cbv
  have named : market.model.propertyTrees 0 stallName =
      some [.plain "name" ⟨1, some 1⟩ "string"] := by
    rw [Model.propertyTrees]
    rfl
  have content : market.model.contentTrees 1 [stallName] =
      some [.plain "name" ⟨1, some 1⟩ "string"] := by
    rw [Model.contentTrees, List.mapM_cons, named]
    rfl
  have described : market.model.classTrees 1 stall =
      some [identityTree, .plain "name" ⟨1, some 1⟩ "string"] := by
    rw [Model.classTrees, own]
    change (market.model.contentTrees 1 [stallName] >>= _) = _
    rw [content]
    rfl
  rw [Model.rootTrees, roots]
  change ([stall].mapM fun c => do
    return (Model.elementName c, ← market.model.classTrees 1 c)) = _
  rw [List.mapM_cons, described]
  rfl

set_option maxRecDepth 20000 in
/-- The schema of the market declares a prefix twice, so that it describes no content, although the
model has some. -/
theorem market_undescribed : market.model.SelfContained ∧
    ∃ schema, generate market = .ok schema ∧ ¬ ((toXml schema).attributes.map (·.1)).Nodup ∧
      market.model.rootTrees 1 =
        some [("Stall", [identityTree, .plain "name" ⟨1, some 1⟩ "string"])] ∧
      ∀ depth, schema.trees depth = none := by
  have own : market.model.SelfContained := by
    unfold Model.SelfContained
    decide
  have taken : ¬ OwnPrefixFree market.model := fun free => absurd (free _ _ rfl) (by decide)
  have twice : ((generate market).map fun schema =>
      decide (¬ ((toXml schema).attributes.map (·.1)).Nodup)) = .ok true := by cbv
  obtain ⟨schema, made, holds⟩ := except_map_ok twice
  exact ⟨own, schema, made, of_decide_eq_true holds, market_trees, fun depth =>
    (trees_rootTrees own made depth).2 taken⟩

end Schema

end RdfXmlMapping
