import RdfXmlMapping.Proofs.Model.Redeclare
import RdfXmlMapping.Proofs.Schema.Resolution

/-!
Schemas of models that differ in properties only. The generation takes the same steps for both as
long as no properties that differ are asked for.
-/

namespace RdfXmlMapping.Schema

variable {x : Plan} {f : Class → List Property} {p : Property} {c : Class}

/-- The plan for the model with other properties. -/
def Plan.redeclare (f : Class → List Property) (x : Plan) : Plan :=
  { x with model := x.model.redeclare f }

/-- A type is asked for in the same way, as a class is only kept to be declared if it belongs to the
model's own specification. -/
theorem typeOf_redeclare (shown : x.model.isForeign c = false → c.redeclare f = c) :
    (x.redeclare f).typeOf (c.redeclare f) = x.typeOf c := by
  change (liftM (x.outlook.resolve (x.model.redeclare f) (c.redeclare f)) : Build _) >>= _ = _
  rw [Import.Outlook.resolve_redeclare]
  unfold Plan.typeOf
  cases resolved : x.outlook.resolve x.model c with
  | error e => rw [lift_error_bind, lift_error_bind]
  | ok found =>
    cases found with
    | none =>
      rw [shown (Import.Outlook.resolve_none resolved)]
      rfl
    | some d => rfl

theorem plainType_redeclare (primitive : Primitive) :
    (x.redeclare f).plainType (primitive.map (Class.redeclare f)) = x.plainType primitive := by
  cases primitive <;> rfl

theorem memberType_map (g : Class → Class) (primitive : Primitive) :
    Plan.memberType (primitive.map g) = Plan.memberType primitive := by
  cases primitive <;> rfl

theorem plainParticle_redeclare (name : String) (occurs : Occurs) (primitives : List Primitive) :
    (x.redeclare f).plainParticle name occurs (primitives.map (·.map (Class.redeclare f))) =
      x.plainParticle name occurs primitives := by
  have members (several : List Primitive) :
      (several.map (·.map (Class.redeclare f))).map Plan.memberType =
        several.map Plan.memberType := by
    rw [List.map_map]
    exact List.map_congr_left fun primitive _ => memberType_map _ primitive
  rcases primitives with - | ⟨one, - | ⟨two, rest⟩⟩
  · rfl
  · change (x.redeclare f).plainType (one.map (Class.redeclare f)) >>= _ = _
    rw [plainType_redeclare]
    rfl
  · exact congrArg (fun qs : List Xml.QName =>
      (pure (Particle.union name occurs qs.eraseDups) : Build Particle))
        (members (one :: two :: rest))

theorem choiceType_redeclare {plan : ChoicePlan} (grounded : plan.Grounded)
    (shown : ∀ c ∈ plan.candidates, x.model.isForeign c = false → c.redeclare f = c) :
    (x.redeclare f).choiceType (plan.map (Class.redeclare f)) = x.choiceType plan := by
  obtain ⟨candidates, base⟩ := plan
  cases base with
  | rooted root derived =>
    obtain ⟨among, each⟩ : root ∈ candidates ∧
        ∀ d ∈ derived, d.cls ∈ candidates ∧ d.cls ≠ root := grounded
    have others : (derived.map (·.map (Class.redeclare f))).mapM
        (fun d => (x.redeclare f).typeOf d.cls) = derived.mapM fun d => x.typeOf d.cls := by
      rw [List.mapM_map]
      exact mapM_congr fun d member => typeOf_redeclare (shown d.cls (each d member).1)
    change ((x.redeclare f).typeOf (root.redeclare f) >>= fun type =>
      (derived.map (·.map (Class.redeclare f))).mapM (fun d => (x.redeclare f).typeOf d.cls) >>=
        fun _ => pure type) = _
    rw [typeOf_redeclare (shown root among), others]
    rfl
  | placeholder label =>
    have iris : (candidates.map (Class.redeclare f)).map (·.iri) = candidates.map (·.iri) :=
      List.map_map
    rw [Plan.choiceType, Plan.choiceType]
    dsimp only [ChoicePlan.map, ChoiceBase.map]
    rw [iris]
    rfl

/-- A property is described by the same steps if what is nested and what is spliced in there is. -/
theorem member_redeclare (h : x.model.Hides f) {path chain : List String}
    (nested : ∀ iri, x.model.canEnter path iri → ∀ ps,
      (x.redeclare f).particles (iri :: path) [iri] ps = x.particles (iri :: path) [iri] ps)
    (spliced : ∀ iri, x.model.canEnter chain iri → ∀ ps,
      (x.redeclare f).particles path (iri :: chain) ps = x.particles path (iri :: chain) ps) :
    (x.redeclare f).member path chain p = x.member path chain p := by
  unfold Plan.member
  split
  · change (liftM ((x.model.redeclare f).spliceTarget p) : Build _) >>= _ = _
    rw [Model.spliceTarget_redeclare, lift_map_bind]
    cases target : x.model.spliceTarget p with
    | error e => rw [lift_error_bind, lift_error_bind]
    | ok d =>
      obtain ⟨describable, own⟩ := Model.spliceTarget_ok target
      have shown := h.of_describable describable own
      rw [lift_ok_bind, lift_ok_bind, Model.redeclare_eq.mpr shown]
      change (if (x.model.redeclare f).canEnter chain d.iri then
        (liftM ((x.model.redeclare f).effectiveProperties d) : Build _) >>= _ else _) = _
      rw [Model.canEnter_redeclare,
        h.effectiveProperties (Model.knows_mem describable.1) shown]
      split
      next way => exact bind_congr fun ps => by rw [spliced d.iri way]
      next => rfl
  · change (liftM ((x.model.redeclare f).shapeOf p) : Build _) >>= _ = _
    rw [Model.shapeOf_redeclare, lift_map_bind]
    cases read : x.model.shapeOf p with
    | error e => rw [lift_error_bind, lift_error_bind]
    | ok shape =>
      have leads := Model.shapeOf_leads read
      rw [lift_ok_bind, lift_ok_bind]
      cases shape with
      | primitive primitives =>
        dsimp only [Shape.map]
        rw [plainParticle_redeclare]
      | single d =>
        have shown (own : x.model.isForeign d = false) : d.redeclare f = d :=
          Model.redeclare_eq.mpr (h.of_describable leads own)
        dsimp only [Shape.map]
        rw [typeOf_redeclare shown]
        change (liftM (x.outlook.resolve (x.model.redeclare f) (d.redeclare f)) : Build _) >>=
          _ = _
        rw [Import.Outlook.resolve_redeclare]
        cases resolved : x.outlook.resolve x.model d with
        | error e => rw [lift_error_bind, lift_error_bind]
        | ok imported =>
          cases imported with
          | some _ => rfl
          | none =>
            have shown := shown (Import.Outlook.resolve_none resolved)
            have whole := Model.redeclare_eq.mp shown
            rw [lift_ok_bind, lift_ok_bind, shown]
            have enters : (x.redeclare f).model.canEnter path d.iri =
              x.model.canEnter path d.iri := Model.canEnter_redeclare ..
            have own : (x.redeclare f).model.effectiveProperties d =
              x.model.effectiveProperties d :=
                h.effectiveProperties (Model.knows_mem leads.1) whole
            rw [enters, own]
            by_cases way : x.model.canEnter path d.iri
            · simp only [nested d.iri way]
              rfl
            · simp only [way, Bool.false_eq_true, if_false]
              rfl
      | choice plan =>
        dsimp only [Shape.map]
        rw [choiceType_redeclare leads.2 fun c among own =>
          Model.redeclare_eq.mpr (h.of_describable (leads.1 c among) own)]

theorem particles_redeclare (h : x.model.Hides f) (path : List String) : ∀ chain ps,
    (x.redeclare f).particles path chain ps = x.particles path chain ps := by
  intro chain
  induction path, chain using content_induction x.model with
  | step path chain nested spliced =>
    intro ps
    have each : (x.redeclare f).member path chain = x.member path chain :=
      funext fun p => member_redeclare h nested spliced
    rw [particles_eq, particles_eq, each]

theorem content_redeclare (h : x.model.Hides f) (member : c ∈ x.model.classes)
    (shown : f c = c.properties) : (x.redeclare f).content c = x.content c := by
  have own : (x.redeclare f).model.effectiveProperties c = x.model.effectiveProperties c :=
    h.effectiveProperties member shown
  unfold Plan.content
  rw [own]
  refine bind_congr fun ps => ?_
  rw [particles_redeclare h]

theorem root_redeclare (h : x.model.Hides f) (known : x.model.Knows c)
    (root : x.model.isRoot c.iri) : (x.redeclare f).root c = x.root c := by
  have shown := h.of_root (Model.knows_mem known) root
  have same := Model.redeclare_eq.mpr shown
  have resolved : (x.redeclare f).outlook.resolve (x.redeclare f).model c =
      x.outlook.resolve x.model c := by
    have both := Import.Outlook.resolve_redeclare x.outlook x.model f c
    rwa [same] at both
  have typed : (x.redeclare f).typeOf c = x.typeOf c := by
    have both := typeOf_redeclare (x := x) (f := f) (c := c) fun _ => same
    rwa [same] at both
  unfold Plan.root
  rw [resolved, typed, content_redeclare h (Model.knows_mem known) shown]
  rfl

theorem declare_redeclare (h : x.model.Hides f) {p : Pending}
    (shown : ∀ c, p = .type c ∨ p = .group c → c ∈ x.model.classes ∧ f c = c.properties) :
    (x.redeclare f).declare p = x.declare p := by
  cases p with
  | type c =>
    obtain ⟨member, shown⟩ := shown c (.inl rfl)
    have base : (x.redeclare f).extensionBase c = x.extensionBase c := by
      unfold Plan.extensionBase
      rw [show (x.redeclare f).model.parent? c = x.model.parent? c from h.parent? member shown]
      rfl
    have parentType (d : Class) (found : x.extensionBase c = .ok (some d)) :
        (x.redeclare f).typeOf d = x.typeOf d := by
      have same : d.redeclare f = d := by
        unfold Plan.extensionBase at found
        split at found
        · exact Model.redeclare_eq.mpr (h.parents c member shown d found)
        · cases found
      have both := typeOf_redeclare (x := x) (f := f) (c := d) fun _ => same
      rwa [same] at both
    unfold Plan.declare
    refine bind_congr fun s => ?_
    rw [base]
    cases found : x.extensionBase c with
    | error e => rw [lift_error_bind, lift_error_bind]
    | ok parent =>
      rw [lift_ok_bind, lift_ok_bind]
      cases parent with
      | none =>
        dsimp only
        rw [content_redeclare h member shown]
      | some d =>
        dsimp only
        rw [parentType d found, particles_redeclare h]
  | group c =>
    obtain ⟨member, shown⟩ := shown c (.inr rfl)
    unfold Plan.declare
    refine bind_congr fun s => ?_
    rw [content_redeclare h member shown]
  | placeholder name => rfl

/-! ### Working off the queue -/

variable {s t : Progress} {fuel : Nat}

theorem drain_nil (pending : s.pending = []) : x.drain fuel s = .ok ([], s) := by
  cases fuel with
  | zero => rfl
  | succ fuel =>
    rw [Plan.drain, get_bind, pending]
    rfl

theorem drain_cons {rest : List Pending} {p : Pending} (pending : s.pending = p :: rest) :
    x.drain (fuel + 1) s = (x.declare p >>= fun d => x.drain fuel >>= fun ds => pure (d :: ds))
      { s with pending := rest } := by
  rw [Plan.drain, get_bind, pending]
  rfl

/-- More fuel changes nothing if nothing is pending in the end. -/
theorem drain_more {more : Nat} (enough : fuel ≤ more)
    (finished : ∀ ds t, x.drain fuel s = .ok (ds, t) → t.pending = []) :
    x.drain more s = x.drain fuel s := by
  induction fuel generalizing s more with
  | zero =>
    have done := finished [] s rfl
    rw [drain_nil done, drain_nil done]
  | succ fuel ih =>
    obtain ⟨more, rfl⟩ : ∃ k, more = k + 1 := ⟨more - 1, by omega⟩
    cases pending : s.pending with
    | nil => rw [drain_nil pending, drain_nil pending]
    | cons p rest =>
      rw [drain_cons pending, drain_cons pending]
      cases run : x.declare p { s with pending := rest } with
      | error e => rw [bind_of_error run, bind_of_error run]
      | ok r =>
        rw [bind_of_ok run, bind_of_ok run]
        refine bind_congr_run (ih (by omega) fun ds t drained => finished (r.1 :: ds) t ?_)
        rw [drain_cons pending, bind_of_ok run, bind_of_ok drained]
        rfl

theorem shown_of_proper {p : Pending} (proper : p.Proper x.model)
    (proper' : p.Proper (x.redeclare f).model) :
    ∀ c, p = .type c ∨ p = .group c → c ∈ x.model.classes ∧ f c = c.properties := by
  -- A class that both models know has the same properties in both.
  have shown (c : Class) (owned : x.model.Owns c) (owned' : (x.redeclare f).model.Owns c) :
      c ∈ x.model.classes ∧ f c = c.properties := by
    refine ⟨Model.knows_mem owned.1, Model.redeclare_eq.mp (Option.some.inj ?_)⟩
    have found : (x.model.redeclare f).find? c.iri = some c := owned'.1
    rw [Model.find?_redeclare, owned.1] at found
    exact found
  rintro c (rfl | rfl)
  · exact shown c proper proper'
  · exact shown c proper proper'

theorem drain_redeclare (h : x.model.Hides f) : ∀ done s, Kept x done s →
    Kept (x.redeclare f) done s → (x.redeclare f).drain fuel s = x.drain fuel s := by
  induction fuel with
  | zero => exact fun _ _ _ _ => rfl
  | succ fuel ih =>
    intro done s kept kept'
    cases pending : s.pending with
    | nil => rw [drain_nil pending, drain_nil pending]
    | cons p rest =>
      have proper := kept.queue.proper p (by simp [pending])
      have proper' := kept'.queue.proper p (by simp [pending])
      have same := declare_redeclare h (shown_of_proper proper proper')
      rw [drain_cons pending, drain_cons pending, same]
      cases run : x.declare p { s with pending := rest } with
      | error e => rw [bind_of_error run, bind_of_error run]
      | ok r =>
        rw [bind_of_ok run, bind_of_ok run]
        have first := (declare_step proper run).1.kept _ (kept.pop pending)
        have second := (declare_step proper' (same ▸ run)).1.kept _ (kept'.pop pending)
        exact bind_congr_run (ih _ _ first second)

theorem declarationLimit_le {m : Model}
    (longer : ∀ c ∈ m.classes, c.properties.length ≤ (f c).length) :
    Plan.declarationLimit m ≤ Plan.declarationLimit (m.redeclare f) := by
  have properties : m.propertyCount ≤ (m.redeclare f).propertyCount := by
    unfold Model.propertyCount
    rw [Model.redeclare_classes, List.flatMap_map, List.length_flatMap, List.length_flatMap]
    exact List.sum_le_sum longer
  have classes : (m.redeclare f).classes.length = m.classes.length := List.length_map _
  unfold Plan.declarationLimit
  omega

/-- The queue is worked off in the same way, although there may be more fuel for it. -/
theorem drainAll_redeclare (h : x.model.Hides f)
    (longer : ∀ c ∈ x.model.classes, c.properties.length ≤ (f c).length)
    (kept : Kept x [] s) (kept' : Kept (x.redeclare f) [] s) :
    (x.redeclare f).drain (Plan.declarationLimit (x.redeclare f).model) s =
      x.drain (Plan.declarationLimit x.model) s := by
  rw [drain_redeclare h [] s kept kept']
  refine drain_more (declarationLimit_le longer) fun ds t drained => ?_
  obtain ⟨_, _, finished, _⟩ := drain_step _ [] s ds t kept (Nat.le_add_left _ _) drained
  exact finished

theorem roots_kept {cs : List Class} {ds : List Declaration} (known : ∀ c ∈ cs, x.model.Knows c)
    (run : cs.mapM x.root s = .ok (ds, t)) (kept : Kept x [] s) : Kept x [] t :=
  (runs_step (P := fun _ _ => True) (fun _ _ _ _ good => good) (mapM_ok run)
    fun c member _ _ _ run => ⟨(root_step (known c member) run).1, trivial⟩).1.kept _ kept

theorem roots_redeclare (h : x.model.Hides f) {cs : List Class}
    (found : x.model.rootClasses = .ok cs) : cs.mapM (x.redeclare f).root = cs.mapM x.root :=
  mapM_congr fun c member => root_redeclare h (Model.rootClasses_knows found c member)
    (Model.rootClasses_isRoot found c member)

theorem declarations_redeclare (h : x.model.Hides f)
    (longer : ∀ c ∈ x.model.classes, c.properties.length ≤ (f c).length)
    (kept : Kept x [] s) (kept' : Kept (x.redeclare f) [] s) :
    (x.redeclare f).declarations s = x.declarations s := by
  have roots : (x.redeclare f).model.rootClasses = x.model.rootClasses := h.rootClasses
  rw [Plan.declarations, Plan.declarations, roots]
  cases found : x.model.rootClasses with
  | error e => rw [lift_error_bind, lift_error_bind]
  | ok cs =>
    have each := roots_redeclare h found
    rw [lift_ok_bind, lift_ok_bind, each]
    cases run : cs.mapM x.root s with
    | error e => rw [bind_of_error run, bind_of_error run]
    | ok r =>
      obtain ⟨ds, t⟩ := r
      rw [bind_of_ok run, bind_of_ok run]
      have first : Kept x [] t := roots_kept (Model.rootClasses_knows found) run kept
      have second : Kept (x.redeclare f) [] t :=
        roots_kept (Model.rootClasses_knows (roots.trans found)) (each ▸ run) kept'
      exact bind_congr_run (drainAll_redeclare h longer first second)

/-! ### Schemas -/

theorem derivedIn_redeclare {m : Model} (p : Property) :
    derivedIn (m.redeclare f) p = derivedIn m p := by
  unfold derivedIn
  rw [Model.shapeOf_redeclare, bind_map_left]
  refine bind_congr fun shape => ?_
  cases shape with
  | primitive _ | single _ => rfl
  | choice plan =>
    obtain ⟨candidates, base⟩ := plan
    cases base with
    | placeholder name => rfl
    | rooted root derived =>
      refine congrArg Except.ok ?_
      change (((derived.map (·.map (Class.redeclare f))).filter
        fun d => !(m.redeclare f).isForeign d.cls).map (·.cls.iri)) = _
      rw [List.filter_map, List.map_map]
      rfl

theorem extendedClasses_redeclare {m : Model} (h : m.Hides f) :
    extendedClasses (m.redeclare f) = extendedClasses m := by
  unfold extendedClasses
  rw [h.describedClasses, funext (derivedIn_redeclare (m := m) (f := f))]

theorem initial_redeclare (s : Source) : initial (s.redeclare f) = initial s := by
  have names : ClassNames.ofModel (s.redeclare f).model = ClassNames.ofModel s.model :=
    ClassNames.ofModel_redeclare s.model f
  rw [initial, names]
  rfl

theorem unchecked_redeclare {s : Source} (h : s.model.Hides f)
    (longer : ∀ c ∈ s.model.classes, c.properties.length ≤ (f c).length) :
    unchecked (s.redeclare f) = unchecked s := by
  have extended : extendedClasses (s.redeclare f).model = extendedClasses s.model :=
    extendedClasses_redeclare h
  unfold unchecked
  rw [extended, initial_redeclare]
  refine bind_congr fun extended => ?_
  have kept : Kept ((planOf s extended).redeclare f) [] (initial s) :=
    initial_redeclare s ▸ initial_kept (s.redeclare f) extended
  have same : (planOf (s.redeclare f) extended).declarations (initial s) =
      (planOf s extended).declarations (initial s) :=
    declarations_redeclare (x := planOf s extended) h longer (initial_kept s extended) kept
  rw [StateT.run, StateT.run, same]
  rfl

end RdfXmlMapping.Schema
