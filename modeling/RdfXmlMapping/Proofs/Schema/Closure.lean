import RdfXmlMapping.Proofs.Schema.References

/-!
Schema documents that are complete. The queue is worked off until nothing is pending, so that every
reference to the document itself leads to exactly one declaration in it.
-/

namespace RdfXmlMapping.Schema

open Xml (Attributes Element QName)

variable {x : Plan} {s t : Progress} {c : Class} {d : Declaration}

/-! ### Declarations -/

theorem closed_declared {tag name : String} {es : List Element} (inner : Closed x s es) :
    Closed x s [.node tag [("name", name)] es] :=
  closed_node (fun r member => by simp [referring, referenceKeys] at member) inner

theorem closed_plain {tag : String} {es : List Element} (inner : Closed x s es) :
    Closed x s [.node tag [] es] :=
  closed_node (fun r member => by simp [referring] at member) inner

theorem closed_extending {q : QName} {es : List Element} (good : TypeName x s q)
    (inner : Closed x s es) : Closed x s [.node "xs:extension" [("base", q.text)] es] := by
  refine closed_node (fun r member => ?_) inner
  obtain rfl : r = ("base", q.text) := by simpa [referring, referenceKeys] using member
  exact .base good

theorem closed_documented {title : Labels} {e : Element} (inner : Closed x s [e]) :
    Closed x s (documentation title ++ [e]) :=
  closed_append.mpr ⟨closed_documentation title, inner⟩

theorem root_step (known : x.model.Knows c) (h : x.root c s = .ok (d, t)) :
    Step x s t ∧ Closed x t [d.toXml] ∧ d.toXml.name = "xs:element" := by
  cases root_ok h with
  | @typed type _ _ run =>
    obtain ⟨step, good⟩ := typeOf_step known run
    have own : ∀ r ∈ referring [("name", Model.elementName c), ("type", type.text)],
        Written x t r := by
      intro r member
      obtain rfl : r = ("type", type.text) := by simpa [referring, referenceKeys] using member
      exact .type (.ofClass good)
    refine ⟨step, ?_, ?_⟩
    · rw [Declaration.toXml]
      split
      · exact closed_leaf own
      · exact closed_node own (closed_documentation _)
    · rw [Declaration.toXml]
      split <;> rfl
  | grouped resolved run =>
    have owned : x.model.Owns c := ⟨known, Import.Outlook.resolve_none resolved⟩
    obtain ⟨step, good⟩ := requestGroup_step owned run
    have inner := closed_anonymousType (closed_group good)
    exact ⟨step, closed_declared (closed_documented inner), rfl⟩
  | nested run =>
    obtain ⟨step, good⟩ := content_step known run
    have content := closed_sequence referring_nil good
    exact ⟨step, closed_declared (closed_documented (closed_anonymousType content)), rfl⟩

def Pending.tag : Pending → String
  | .type _ | .placeholder _ => "xs:complexType"
  | .group _ => "xs:group"

def Pending.name (names : ClassNames) : Pending → String
  | .type c | .group c => names.get c
  | .placeholder name => name

theorem extensionBase_knows {parent : Class} (h : x.extensionBase c = .ok (some parent)) :
    x.model.Knows parent := by
  unfold Plan.extensionBase at h
  split at h
  · exact Model.parent?_knows h
  · cases h

theorem declare_step {p : Pending} (proper : p.Proper x.model)
    (h : x.declare p s = .ok (d, t)) : Step x s t ∧ Closed x t [d.toXml] ∧
      d.toXml.name = p.tag ∧ d.toXml.attributes = [("name", p.name s.names)] := by
  cases p with
  | type c =>
    cases declareType_ok h with
    | whole _ run =>
      obtain ⟨step, good⟩ := content_step proper.1 run
      exact ⟨step, closed_declared (closed_documented (closed_plain good)), rfl, rfl⟩
    | extending found named run =>
      obtain ⟨first, base⟩ := typeOf_step (extensionBase_knows found) named
      have declared : ∀ p ∈ c.properties, x.model.Declares p :=
        fun p member => ⟨c, Model.knows_mem proper.1, member⟩
      obtain ⟨second, good⟩ := particles_step x _ _ _ _ _ _ declared run
      have inner := closed_extending (.ofClass (base.mono second.grows))
        (closed_sequence referring_nil good)
      exact ⟨first.trans second,
        closed_declared (closed_documented (closed_plain inner)), rfl, rfl⟩
  | group c =>
    obtain ⟨content, run, rfl⟩ := declareGroup_ok h
    obtain ⟨step, good⟩ := content_step proper.1 run
    exact ⟨step, closed_declared (closed_plain good), rfl, rfl⟩
  | placeholder name =>
    cases pure_ok h
    exact ⟨.refl x _, closed_declared (closed_plain closed_identity), rfl, rfl⟩

theorem closed_languageText : Closed x s [Declaration.languageText.toXml] := by
  refine closed_declared (closed_plain (closed_extending (q := builtin "string") (.standard _) ?_))
  refine closed_leaf fun r member => ?_
  obtain rfl : r = ("ref", "xml:lang") := by simpa [referring, referenceKeys] using member
  exact .language

/-! ### Working off the queue -/

def Answers (m : Model) (p : Pending) (d : Declaration) : Prop :=
  d.toXml.name = p.tag ∧ d.toXml.attributes = [("name", p.name (ClassNames.ofModel m))]

/-- The declaration has been made of what was asked for, and nothing known then is lost in the
end. -/
def Made (x : Plan) (final : Progress) (p : Pending) (d : Declaration) : Prop :=
  ∃ s t, x.declare p s = .ok (d, t) ∧ Grows t final

def RootMade (x : Plan) (final : Progress) (c : Class) (d : Declaration) : Prop :=
  ∃ s t, x.root c s = .ok (d, t) ∧ Grows t final

theorem Kept.name {done : List Pending} (h : Kept x done s) (p : Pending) :
    p.name s.names = p.name (ClassNames.ofModel x.model) := by
  cases p with
  | type c | group c => exact h.get c
  | placeholder name => rfl

theorem Kept.pop {done rest : List Pending} {p : Pending} (h : Kept x done s)
    (pending : s.pending = p :: rest) : Kept x (done ++ [p]) { s with pending := rest } :=
  { h with queue := h.queue.pop pending }

/-- All that is pending is declared, with what is asked for on the way. The induction is on the
fuel; as no more can be asked for than there is fuel, it lasts until nothing is pending. -/
theorem drain_step : ∀ fuel done s ds t, Kept x done s →
    Plan.declarationLimit x.model ≤ done.length + fuel → x.drain fuel s = .ok (ds, t) →
    ∃ rest, Kept x (done ++ rest) t ∧ t.pending = [] ∧ Grows s t ∧
      List.Forall₂ (fun p d => Answers x.model p d ∧ Made x t p d) rest ds ∧
      Closed x t (ds.map Declaration.toXml) := by
  intro fuel
  induction fuel with
  | zero =>
    -- The fuel never runs out.
    intro done s ds t kept enough _
    have few := kept.length_lt
    rw [List.length_append] at few
    omega
  | succ fuel ih =>
    intro done s ds t kept enough h
    obtain ⟨_, _, now, h⟩ := bind_ok h
    cases get_ok now
    cases pending : s.pending with
    | nil =>
      rw [pending] at h
      cases pure_ok h
      exact ⟨[], by rwa [List.append_nil], pending, .refl s, .nil, closed_nil⟩
    | cons p rest =>
      rw [pending] at h
      obtain ⟨_, _, taken, h⟩ := bind_ok h
      cases modify_ok taken
      obtain ⟨d, _, first, h⟩ := bind_ok h
      obtain ⟨ds, _, others, h⟩ := bind_ok h
      cases pure_ok h
      have popped := kept.pop pending
      have proper : p.Proper x.model := kept.queue.proper p (by simp [pending])
      obtain ⟨step, closed, tag, name⟩ := declare_step proper first
      have shorter : Plan.declarationLimit x.model ≤ (done ++ [p]).length + fuel := by
        rw [List.length_append, List.length_singleton]
        omega
      obtain ⟨more, kept', finished, grows, answers, good⟩ :=
        ih (done ++ [p]) _ ds _ (step.kept _ popped) shorter others
      refine ⟨p :: more, by simpa using kept', finished, ?_,
        .cons ⟨⟨tag, ?_⟩, _, _, first, grows⟩ answers, ?_⟩
      · exact Grows.trans (t := { s with pending := rest })
          ⟨rfl, List.Subset.refl _, List.Subset.refl _, List.Subset.refl _, List.Subset.refl _, id⟩
          (step.grows.trans grows)
      · rw [name, popped.name]
      · exact closed_cons.mpr ⟨closed.mono grows, good⟩

def languageDeclarations (s : Progress) : List Declaration :=
  if s.usesLanguageText then [.languageText] else []

theorem declarations_step {ds : List Declaration} (kept : Kept x [] s)
    (h : x.declarations s = .ok (ds, t)) : ∃ roots requests others,
      ds = roots ++ others ++ languageDeclarations t ∧ Kept x requests t ∧ t.pending = [] ∧
      (∀ d ∈ roots, d.toXml.name = "xs:element") ∧
      (∃ cs, x.model.rootClasses = .ok cs ∧ List.Forall₂ (RootMade x t) cs roots) ∧
      List.Forall₂ (fun p d => Answers x.model p d ∧ Made x t p d) requests others ∧
      Closed x t (ds.map Declaration.toXml) := by
  obtain ⟨cs, _, found, h⟩ := bind_ok h
  obtain ⟨found, rfl⟩ := lift_ok found
  obtain ⟨roots, _, made, h⟩ := bind_ok h
  obtain ⟨others, _, drained, h⟩ := bind_ok h
  obtain ⟨_, _, now, h⟩ := bind_ok h
  cases get_ok now
  cases pure_ok h
  have known := Model.rootClasses_knows found
  obtain ⟨step, each⟩ := runs_step
    (P := fun s (d : Declaration) => Closed x s [d.toXml] ∧ d.toXml.name = "xs:element")
    (fun _ _ _ grows good => ⟨good.1.mono grows, good.2⟩) (mapM_ok made)
    fun c member d s t run => root_step (known c member) run
  obtain ⟨requests, kept, finished, grows, answers, good⟩ :=
    drain_step _ [] _ _ _ (step.kept _ kept) (Nat.le_add_left _ _) drained
  have rootsClosed : Closed x t (roots.map Declaration.toXml) := by
    refine closed_iff.mpr fun e member => ?_
    obtain ⟨d, present, rfl⟩ := List.mem_map.mp member
    exact (each d present).1.mono grows
  have languageClosed : Closed x t ((languageDeclarations t).map Declaration.toXml) := by
    unfold languageDeclarations
    split
    · exact closed_languageText
    · exact closed_nil
  have rooted : List.Forall₂ (RootMade x t) cs roots := by
    have runs := runs_ends Grows.refl (fun _ _ _ => Grows.trans) (mapM_ok made)
      fun c member d s t run => (root_step (known c member) run).1.grows
    refine runs.imp fun c d run => ?_
    obtain ⟨s, u, run, more⟩ := run
    exact ⟨s, u, run, more.trans grows⟩
  refine ⟨roots, requests, others, rfl, kept, finished, fun d member => (each d member).2,
    ⟨cs, found, rooted⟩, answers, ?_⟩
  change Closed x t ((roots ++ others ++ languageDeclarations t).map Declaration.toXml)
  rw [List.map_append, List.map_append, closed_append, closed_append]
  exact ⟨⟨rootsClosed, good⟩, languageClosed⟩

/-! ### Names of declarations -/

/-- The names of the declarations that a kind of element makes at the top of a document. -/
def topLevel (tag : String) (es : List Element) : List String :=
  es.filterMap fun e => if e.name = tag then e.attributes.lookup "name" else none

theorem topLevel_append (tag : String) (es fs : List Element) :
    topLevel tag (es ++ fs) = topLevel tag es ++ topLevel tag fs := List.filterMap_append ..

theorem topLevel_nil {tag : String} {es : List Element} (other : ∀ e ∈ es, e.name ≠ tag) :
    topLevel tag es = [] :=
  List.filterMap_eq_nil_iff.mpr fun e member => if_neg (other e member)

def requestedNames (names : ClassNames) (tag : String) (requests : List Pending) : List String :=
  requests.filterMap fun p => if p.tag = tag then some (p.name names) else none

theorem topLevel_answers {m : Model} {requests : List Pending} {ds : List Declaration}
    (h : List.Forall₂ (Answers m) requests ds) (tag : String) :
    topLevel tag (ds.map Declaration.toXml) =
      requestedNames (ClassNames.ofModel m) tag requests := by
  induction h with
  | nil => rfl
  | @cons p d _ _ first _ ih =>
    have head : (if d.toXml.name = tag then d.toXml.attributes.lookup "name" else none) =
        if p.tag = tag then some (p.name (ClassNames.ofModel m)) else none := by
      rw [first.1, first.2]
      rfl
    rw [topLevel] at ih ⊢
    rw [requestedNames] at ih ⊢
    rw [List.map_cons, List.filterMap_cons, List.filterMap_cons, head, ih]

theorem mem_requestedNames {names : ClassNames} {tag name : String} {requests : List Pending} :
    name ∈ requestedNames names tag requests ↔
      ∃ p ∈ requests, p.tag = tag ∧ p.name names = name := by
  simp [requestedNames]

variable {requests : List Pending}

theorem Kept.placeholder_apart {name : String} (kept : Kept x requests t)
    (member : .placeholder name ∈ requests ++ t.pending) :
    MadeUp x.model name ∧ name ∉ (ClassNames.ofModel x.model).taken := by
  obtain ⟨key, present⟩ := (kept.queue.requested (.placeholder name) trivial).mpr member
  obtain ⟨_, made, _, apart⟩ := kept.placeholders.made _ present
  exact ⟨made, apart⟩

theorem Kept.name_injective (kept : Kept x requests t) {p q : Pending}
    (left : p ∈ requests ++ t.pending) (right : q ∈ requests ++ t.pending) (tag : p.tag = q.tag)
    (same : p.name (ClassNames.ofModel x.model) = q.name (ClassNames.ofModel x.model)) : p = q := by
  have apart (c : Class) (name : String) (owned : x.model.Owns c)
      (member : .placeholder name ∈ requests ++ t.pending) :
      (ClassNames.ofModel x.model).get c ≠ name := fun same =>
    (kept.placeholder_apart member).2 (same ▸ (ClassNames.get_own owned).1)
  have kinds : "xs:complexType" ≠ "xs:group" := by decide
  have first := kept.queue.proper p left
  have second := kept.queue.proper q right
  cases p with
  | type c =>
    cases q with
    | type d => exact congrArg Pending.type (ClassNames.get_injective first second same)
    | group d => exact absurd tag kinds
    | placeholder name => exact absurd same (apart c name first right)
  | group c =>
    cases q with
    | group d => exact congrArg Pending.group (ClassNames.get_injective first second same)
    | type d | placeholder name => exact absurd tag kinds.symm
  | placeholder name =>
    cases q with
    | placeholder other => exact congrArg Pending.placeholder same
    | type d => exact absurd same.symm (apart d name second left)
    | group d => exact absurd tag kinds

theorem Kept.requestedNames_nodup (kept : Kept x requests t) (finished : t.pending = [])
    (tag : String) : (requestedNames (ClassNames.ofModel x.model) tag requests).Nodup := by
  have all : requests ++ t.pending = requests := by rw [finished, List.append_nil]
  refine List.pairwise_filterMap.mpr (List.Pairwise.imp_of_mem ?_ (all ▸ kept.queue.once))
  intro p q left right different first here second there same
  have tagOf : ∀ (r : Pending) (n : String),
      (if r.tag = tag then some (r.name (ClassNames.ofModel x.model)) else none) = some n →
        r.tag = tag ∧ r.name (ClassNames.ofModel x.model) = n := by
    intro r n read
    split at read
    next yes => exact ⟨yes, Option.some.inj read⟩
    next => cases read
  obtain ⟨leftTag, leftName⟩ := tagOf p first here
  obtain ⟨rightTag, rightName⟩ := tagOf q second there
  refine different (kept.name_injective ?_ ?_ (leftTag.trans rightTag.symm) ?_)
  · exact List.mem_append_left _ left
  · exact List.mem_append_left _ right
  · rw [leftName, rightName, same]

theorem Kept.languageText_apart (kept : Kept x requests t) (tag : String) :
    languageTextType ∉ requestedNames (ClassNames.ofModel x.model) tag requests := by
  intro member
  obtain ⟨p, present, _, same⟩ := mem_requestedNames.mp member
  have present : p ∈ requests ++ t.pending := List.mem_append_left _ present
  have proper := kept.queue.proper p present
  cases p with
  | type c | group c => exact (ClassNames.get_own proper).2 same
  | placeholder name =>
    have reserved := (ClassNames.ofModel_fits x.model).reserved
    obtain rfl : name = languageTextType := same
    exact (kept.placeholder_apart present).2 reserved

end RdfXmlMapping.Schema
