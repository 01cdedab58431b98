import RdfXmlMapping.Model.Recursion
import RdfXmlMapping.Proofs.Content
import RdfXmlMapping.Proofs.Schema.Inlining
import RdfXmlMapping.Proofs.Schema.Resolution
import RdfXmlMapping.Proofs.Schema.Tolerance

/-!
Schemas of all models are made in finitely many steps, whatever their classes refer to. Main
statement: `generation_ends`. Content is put where it is used without a guard and pending
declarations are made without a bound; each run ends, with the outcome of the generation.
-/

namespace RdfXmlMapping

/-! ### Names -/

namespace Lifting

variable {m : Model} {c : Class}

variable (m) in
/-- The names of the elements of a class with those spliced into it, collected without asking which
classes are spliced in already. -/
def namesFreely (c : Class) : ExceptT GenerationError Option (List String) := do
  let again : Class → ExceptT GenerationError Option (List String) := by apply namesFreely
  let names ← (← settled (m.effectiveProperties c)).mapM fun p => do
    if p.isSpliced then
      let target ← settled (m.spliceTarget p)
      again target
    else return [toNCName p.label]
  return names.flatten
partial_fixpoint

theorem namesFreely_settled (checked : m.checkSplicing = .ok ()) (chain : List String) : ∀ c,
    (∀ ps, m.effectiveProperties c = .ok ps → Schema.SplicedAlong m chain ps) →
      namesFreely m c = settled (splicedNames m chain c) := by
  induction chain using Model.walk_induction m with
  | step chain ih =>
    intro c along
    rw [namesFreely, splicedNames_eq]
    apply settled_bind_of
    intro ps own
    refine (congrArg (· >>= _) (settled_mapM fun p member => ?_)).trans
      (settled_bind_of fun _ _ => rfl)
    unfold namesOf
    by_cases spliced : p.isSpliced
    · rw [if_pos spliced, if_pos spliced]
      apply settled_bind_of
      intro d target
      have way := (along ps own).canEnter checked member spliced target
      rw [if_pos way]
      exact ih d.iri way d fun qs inner => (along ps own).step member spliced target inner
    · rw [if_neg spliced, if_neg spliced]
      rfl

end Lifting

/-! ### Declarations -/

namespace Schema

def inlineContent (x : Plan) (limit : Option Nat) (c : Class) :
    Unbounded Progress GenerationError (List Particle) := do
  return .identity :: (← inline x limit [c.iri] (← ended (liftM (x.model.effectiveProperties c))))

def rootFreely (x : Plan) (limit : Option Nat) (c : Class) :
    Unbounded Progress GenerationError Declaration := do
  let imported ← ended (liftM (x.outlook.resolve x.model c))
  let content ←
    if imported.isSome || (x.extractionOf c).namedType then .typed <$> ended (x.typeOf c)
    else if (x.extractionOf c).group then .grouped <$> ended (x.requestGroup c)
    else .nested <$> inlineContent x limit c
  return .root (Model.elementName c) c.title content

def declareFreely (x : Plan) (limit : Option Nat) :
    Pending → Unbounded Progress GenerationError Declaration
  | .type c => do
    let name := (← ended get).names.get c
    match ← ended (liftM (x.extensionBase c)) with
    | some parent =>
      let base ← ended (x.typeOf parent)
      return .extension name c.title base (← inline x limit [c.iri] c.properties)
    | none => return .complexType name c.title (← inlineContent x limit c)
  | .group c => do
    let name := (← ended get).names.get c
    return .group name (← inlineContent x limit c)
  | .placeholder name => return .placeholder name

variable {x : Plan} {limit : Option Nat}

variable (x limit) in
/-- Makes the declarations that are pending, and those that they refer to in turn, until there are
none. -/
def drainFreely : Unbounded Progress GenerationError (List Declaration) := do
  let again : Unbounded Progress GenerationError (List Declaration) := by apply drainFreely
  match (← ended get).pending with
  | [] => return []
  | next :: rest =>
    ended (modify ({ · with pending := rest }))
    let d ← declareFreely x limit next
    return d :: (← again)
partial_fixpoint

def declarationsFreely (x : Plan) (limit : Option Nat) :
    Unbounded Progress GenerationError (List Declaration) := do
  let roots ← (← ended (liftM x.model.rootClasses)).mapM (rootFreely x limit)
  let others ← drainFreely x limit
  let languageText := if (← ended get).usesLanguageText then [.languageText] else []
  return roots ++ others ++ languageText

/-- The schema of a model, made without guards. -/
def generateFreely (limit : Option Nat) (s : Source) : ExceptT GenerationError Option Schema := do
  settled s.model.checkSplicing
  let x := planOf s (← settled (extendedClasses s.model))
  let (declarations, final) ← (declarationsFreely x limit).run (initial s)
  return {
    target := s.model.target?, importsXml := final.usesLanguageText
    imports := final.imports.entries, declarations }

variable {c : Class} {s t : Progress} {done : List Pending}

theorem inlineContent_ended (checked : x.model.checkSplicing = .ok ())
    (enough : ∀ n ∈ limit, x.model.classes.length ≤ n) (known : x.model.Knows c) :
    inlineContent x limit c = ended (x.content c) := by
  apply ended_lift_bind
  intro ps own
  rw [inline_ended checked enough [c.iri] [c.iri] ps (.single known) (splicedAlong_start known own)]
  exact ended_bind_of fun _ => rfl

theorem rootFreely_ended (checked : x.model.checkSplicing = .ok ())
    (enough : ∀ n ∈ limit, x.model.classes.length ≤ n) (known : x.model.Knows c) :
    rootFreely x limit c = ended (x.root c) := by
  apply ended_lift_bind
  intro imported _
  dsimp only
  split
  · rw [ended_map]
    exact ended_bind_of fun _ => rfl
  · split
    · rw [ended_map]
      exact ended_bind_of fun _ => rfl
    · rw [inlineContent_ended checked enough known, ended_map]
      exact ended_bind_of fun _ => rfl

theorem splicedAlong_own (checked : x.model.checkSplicing = .ok ()) (known : x.model.Knows c) :
    SplicedAlong x.model [c.iri] c.properties := by
  obtain ⟨ps, found, _⟩ := (Model.checkSplicing_spliceable checked known).collects
  exact (splicedAlong_start known found).subset (properties_subset found)

theorem declareFreely_ended (checked : x.model.checkSplicing = .ok ())
    (enough : ∀ n ∈ limit, x.model.classes.length ≤ n) {p : Pending} (proper : p.Proper x.model) :
    declareFreely x limit p = ended (x.declare p) := by
  cases p with
  | type c =>
    apply ended_bind_of
    intro s
    apply ended_lift_bind
    intro base _
    cases base with
    | none =>
      dsimp only
      rw [inlineContent_ended checked enough proper.1]
      exact ended_bind_of fun _ => rfl
    | some parent =>
      dsimp only
      apply ended_bind_of
      intro type
      rw [inline_ended checked enough [c.iri] [c.iri] c.properties (.single proper.1)
        (splicedAlong_own checked proper.1)]
      exact ended_bind_of fun _ => rfl
  | group c =>
    apply ended_bind_of
    intro s
    rw [inlineContent_ended checked enough proper.1]
    exact ended_bind_of fun _ => rfl
  | placeholder name => rfl

/-- The loop over pending declarations ends before the fuel of the bounded one does. -/
theorem drainFreely_ended (checked : x.model.checkSplicing = .ok ())
    (enough : ∀ n ∈ limit, x.model.classes.length ≤ n) (fuel : Nat) : ∀ done s, Kept x done s →
      Plan.declarationLimit x.model ≤ done.length + fuel →
        drainFreely x limit s = settled (x.drain fuel s) := by
  induction fuel with
  | zero =>
    intro done s kept bound
    have few := kept.length_lt
    rw [List.length_append] at few
    omega
  | succ fuel ih =>
    intro done s kept bound
    rw [drainFreely]
    refine settled_bind_run rfl fun now _ run => ?_
    cases get_ok run
    cases pending : s.pending with
    | nil => rfl
    | cons p rest =>
      refine settled_bind_run rfl fun _ _ run => ?_
      cases modify_ok run
      have popped := kept.pop pending
      have proper : p.Proper x.model := kept.queue.proper p (by simp [pending])
      rw [declareFreely_ended checked enough proper]
      refine settled_bind_run rfl fun d t made => ?_
      obtain ⟨step, _⟩ := declare_step proper made
      have further := ih (done ++ [p]) t (step.kept _ popped) (by
        rw [List.length_append, List.length_singleton]
        omega)
      exact settled_bind_run further fun _ _ _ => rfl

theorem runs_root_kept {roots : List Class} {ds : List Declaration}
    (known : ∀ c ∈ roots, x.model.Knows c) (runs : Runs x.root roots ds s t) :
    Step x s t := by
  refine (runs_step (P := fun _ _ => True) (fun _ _ _ _ _ => trivial) runs ?_).1
  intro c member d s t run
  exact ⟨(root_step (known c member) run).1, trivial⟩

theorem declarationsFreely_ended (checked : x.model.checkSplicing = .ok ())
    (enough : ∀ n ∈ limit, x.model.classes.length ≤ n) (kept : Kept x [] s) :
    declarationsFreely x limit s = settled (x.declarations s) := by
  refine settled_bind_run rfl fun roots _ run => ?_
  obtain ⟨found, rfl⟩ := lift_ok run
  have known := Model.rootClasses_knows found
  rw [ended_mapM fun c member => rootFreely_ended checked enough (known c member)]
  refine settled_bind_run rfl fun ds t run => ?_
  have kept' := (runs_root_kept known (mapM_ok run)).kept _ kept
  refine settled_bind_run ?_ fun _ _ _ => settled_bind_run rfl fun _ _ _ => rfl
  exact drainFreely_ended checked enough _ [] t kept' (Nat.le_add_left _ _)

theorem generateFreely_settled {source : Source}
    (enough : ∀ n ∈ limit, source.model.classes.length ≤ n) :
    generateFreely limit source = settled (generate source) := by
  apply settled_bind_of
  intro _ checked
  apply settled_bind_of
  intro extended _
  have made := declarationsFreely_ended (x := planOf source extended) checked enough
    (initial_kept source extended)
  show declarationsFreely (planOf source extended) limit (initial source) >>= _ = _
  rw [made]
  exact settled_bind_of fun _ _ => rfl

/-! ### Requests -/

/-- The run that makes a schema has made the declarations, in their order, and stands where others
may be pending. -/
inductive Standing (source : Source) (x : Plan) : List Pending → Progress → Prop
  | start {roots : List Class} {ds : List Declaration} {s : Progress} :
      x.model.rootClasses = .ok roots → roots.mapM x.root (initial source) = .ok (ds, s) →
      Standing source x [] s
  | next {done rest : List Pending} {p : Pending} {d : Declaration} {s t : Progress} :
      Standing source x done s → s.pending = p :: rest →
      x.declare p { s with pending := rest } = .ok (d, t) → Standing source x (done ++ [p]) t

/-- What a declaration is told apart by: whether it is a type or a group, and of which class. -/
def Pending.key : Pending → String × String
  | .type c => ("type", c.iri)
  | .group c => ("group", c.iri)
  | .placeholder name => ("placeholder", name)

theorem Standing.kept {source : Source} {extended : List String}
    (h : Standing source (planOf source extended) done s) :
    Kept (planOf source extended) done s := by
  induction h with
  | start found made =>
    have known := Model.rootClasses_knows found
    exact (runs_root_kept known (mapM_ok made)).kept _ (initial_kept source extended)
  | @next done rest p d s t _ pending made ih =>
    have proper : p.Proper source.model := ih.queue.proper p (by simp [pending])
    exact (declare_step proper made).1.kept _ (ih.pop pending)

theorem key_injective {m : Model} {p q : Pending} (left : p.Proper m) (right : q.Proper m)
    (same : p.key = q.key) : p = q := by
  cases p <;> cases q <;>
    simp only [Pending.key, Prod.mk.injEq, String.reduceEq, false_and, true_and] at same
  · exact congrArg _ (Model.knows_eq left.1 right.1 same)
  · exact congrArg _ (Model.knows_eq left.1 right.1 same)
  · exact congrArg _ same

theorem Kept.keys_nodup (h : Kept x done s) : ((done ++ s.pending).map Pending.key).Nodup := by
  refine List.Nodup.map_on ?_ h.queue.once
  intro p left q right same
  exact key_injective (h.queue.proper p left) (h.queue.proper q right) same

/-- Where splicing has been checked, a schema is made in finitely many steps without any guard, and
with as much nesting as there are classes. No type and no group is declared twice, the names of
what is spliced into a class can be collected, and no model is refused for a circle of classes. -/
theorem generation_ends {source : Source} (checked : source.model.checkSplicing = .ok ()) :
    (∀ limit : Option Nat, (∀ n ∈ limit, source.model.classes.length ≤ n) →
      generateFreely limit source = some (generate source) ∧
      ∀ x : Plan, x.model = source.model → ∀ path, Distinct source.model path → ∀ ps s,
        ∃ outcome, inline x limit path ps s = some outcome) ∧
    (∀ extended done s, Standing source (planOf source extended) done s →
      ((done ++ s.pending).map Pending.key).Nodup ∧
      (done ++ s.pending).length < Plan.declarationLimit source.model) ∧
    (∀ c, ∃ outcome, Lifting.namesFreely source.model c = some outcome ∧
      (source.model.Knows c → Lifting.contentNames source.model c = outcome)) ∧
    ∀ iri, generate source ≠ .error (.recursiveModel iri) := by
  refine ⟨fun limit enough => ⟨generateFreely_settled enough, ?_⟩, ?_, ?_,
    generate_tolerant source⟩
  · intro x same path distinct ps s
    rw [← same] at checked enough distinct
    rw [inline_ended checked enough path [] ps distinct splicedAlong_nil]
    exact ⟨_, rfl⟩
  · intro extended done s standing
    exact ⟨standing.kept.keys_nodup, standing.kept.length_lt⟩
  · intro c
    by_cases known : source.model.Knows c
    · refine ⟨_, Lifting.namesFreely_settled checked [c.iri] c fun ps own => ?_, fun _ => rfl⟩
      exact splicedAlong_start known own
    · refine ⟨_, Lifting.namesFreely_settled checked [] c fun ps own => ?_, fun h => ?_⟩
      · exact splicedAlong_nil
      · exact absurd h known

/-- Members lead to their guild and back, also over an address that is spliced in. -/
def guilds : Source :=
  let property (label : String) : Property := Property.make label ("https://ex.org/" ++ label)
  { model := (Model.make "guilds" "town").rootedAt ["Member"]
      |>.declaring ((Class.make "Member" "Member")
        |>.declaring ((property "guild").association "Guild"))
      |>.declaring ((Class.make "Guild" "Guild")
        |>.declaring ((property "member").association "Member")
        |>.declaring { (property "seat").association "Address" with isSpliced := true })
      |>.declaring ((Class.make "Address" "Address")
        |>.declaring ((property "guardian").association "Guild"))
    manifests := []
    config := { output := { baseAddress := "https://own.org/" } } }

set_option maxRecDepth 20000 in
theorem generation_ends_guilds : guilds.model.checkSplicing = .ok () ∧
    guilds.model.checkAcyclic = .error (.recursiveModel "Member") ∧
    generateFreely (some 3) guilds = some (generate guilds) ∧ (generate guilds).isOk := by
  have checked : guilds.model.checkSplicing = .ok () := by cbv
  have circle : guilds.model.checkAcyclic = .error (.recursiveModel "Member") := by cbv
  have made : (generate guilds).isOk := by cbv
  obtain ⟨runs, _⟩ := generation_ends checked
  have enough : ∀ n ∈ some 3, guilds.model.classes.length ≤ n := by decide
  exact ⟨checked, circle, (runs (some 3) enough).1, made⟩

end Schema

end RdfXmlMapping
