import RdfXmlMapping.Proofs.PrefixTable
import RdfXmlMapping.Proofs.Stylesheet.Arcs

/-!
How the stylesheet from documents to RDF maps properties. Each property is stated once: inside the
description of the instance, or in the description of a value if it is reverse.
-/

namespace RdfXmlMapping.Lifting

open Stylesheet
open Xml (Attributes Element)

variable {m : Model} {o : Import.Outlook} {p : Property} {s t : Progress} {iri name : String}

/-! ### Names of predicates -/

theorem namespaces_head (l : Lifting) : namespaces (toXml l).attributes =
    [("xsl", Vocabulary.xslt), ("rdf", Vocabulary.rdf)] ++ l.target.toList ++ l.predicates := by
  change namespaces (headAttributes l) = _
  have predicates {f} (named : ∀ a, f a = ("xmlns:" ++ a.1, a.2)) :
      namespaces (l.predicates.map f) = l.predicates := by
    rw [namespaces, List.filterMap_map]
    simp [named, declaredPrefix?_append]
  have fixed : namespaces (Stylesheet.headAttributes ++ [("xmlns:rdf", Vocabulary.rdf)]) =
      [("xsl", Vocabulary.xslt), ("rdf", Vocabulary.rdf)] := by decide
  have excluded : declaredPrefix? "exclude-result-prefixes" = none := by decide
  rw [headAttributes, namespaces_append, namespaces_append, fixed, predicates fun _ => rfl]
  cases l.target with
  | none => rfl
  | some target => simp [namespaces, declaredPrefix?_append, excluded]

/-- What the table of predicates is like in the end: `own` are the prefixes of the target. -/
structure Ready (t : PrefixTable) (own : List String) : Prop where
  sound : t.Sound
  stem : t.stem = "ns"
  reserved : t.reserved = own

theorem numbered_ns {t : PrefixTable} (stem : t.stem = "ns") (n : Nat) :
    (t.numbered n).toList = 'n' :: 's' :: (toString n).toList := by
  rw [PrefixTable.numbered, stem, String.toList_append]
  rfl

theorem numbered_markup {t : PrefixTable} (stem : t.stem = "ns") (n : Nat) :
    ∀ c ∈ (t.numbered n).toList, c ∉ markupChars := by
  have letters : 'n' ∉ markupChars ∧ 's' ∉ markupChars := by decide
  have none : markupChars.all fun c => !c.isDigit := by decide
  intro c member
  rw [numbered_ns stem] at member
  rcases List.mem_cons.mp member with rfl | member
  · exact letters.1
  · rcases List.mem_cons.mp member with rfl | digit
    · exact letters.2
    · intro markup
      have other : c.isDigit = false := by simpa using List.all_eq_true.mp none c markup
      exact absurd (toString_digits n c digit) (Bool.eq_false_iff.mp other)

/-- The prefixes of a table are made of the stem and of digits. -/
theorem Ready.start {t : PrefixTable} {own : List String} (ready : Ready t own)
    {e : String × String} (present : e ∈ t.entries) : e.2.toList.head? = some 'n' := by
  obtain ⟨n, _, same⟩ := ready.sound.named _ present
  rw [same, numbered_ns ready.stem]
  rfl

theorem Ready.plain {t : PrefixTable} {own : List String} (ready : Ready t own)
    {e : String × String} (present : e ∈ t.entries) : ∀ c ∈ e.2.toList, c ∉ markupChars := by
  obtain ⟨n, _, same⟩ := ready.sound.named _ present
  rw [same]
  exact numbered_markup ready.stem n

/-- The name of a predicate is none of those that instructions have. -/
theorem names_start {t : PrefixTable} {own : List String} (ready : Ready t own)
    (names : t.Names iri name) : name.toList.head? = some 'n' := by
  obtain ⟨uri, pre, last, present, rfl, _⟩ := names
  rw [String.append_assoc, String.toList_append, List.head?_append, ready.start present]
  rfl

/-- The document element declares the prefix of a predicate once, for the namespace of it. -/
theorem namespaceOf?_predicate {l : Lifting} {t : PrefixTable}
    (ready : Ready t (l.target.map (·.1)).toList) (declared : l.predicates = t.bindings)
    {uri own : String} (present : (uri, own) ∈ t.entries) :
    namespaceOf? (toXml l).attributes own = some uri := by
  have start : own.toList.head? = some 'n' := ready.start present
  have fixed : [("xsl", Vocabulary.xslt), ("rdf", Vocabulary.rdf)].filter (·.1 = own) = [] := by
    have xsl : "xsl" ≠ own := by
      rintro rfl
      exact absurd start (by decide)
    have rdf : "rdf" ≠ own := by
      rintro rfl
      exact absurd start (by decide)
    simp [xsl, rdf]
  have target : l.target.toList.filter (·.1 = own) = [] := by
    have free := ready.sound.free _ present
    rw [ready.reserved] at free
    cases target : l.target with
    | none => rfl
    | some other =>
      rw [target] at free
      have different : other.1 ≠ own := fun same => free (by simp [same])
      simp [different]
  have predicates : t.bindings.filter (·.1 = own) = [(own, uri)] := by
    have distinct : (t.bindings.map (·.1)).Nodup := by
      rw [PrefixTable.bindings, List.map_map]
      exact ready.sound.distinct
    exact filter_unique distinct (x := (own, uri)) (List.mem_map_of_mem present)
  rw [namespaceOf?, namespaces_head, declared, List.filter_append, List.filter_append, fixed,
    target, predicates]
  rfl

theorem expandedIri?_predicate {l : Lifting} {t : PrefixTable}
    (ready : Ready t (l.target.map (·.1)).toList) (declared : l.predicates = t.bindings)
    (names : t.Names iri name) : expandedIri? (toXml l).attributes name = some iri := by
  obtain ⟨uri, own, last, present, rfl, rfl, _⟩ := names
  have colon : ':' ∉ own.toList := fun inside => ready.plain present ':' inside (by decide)
  rw [expandedIri?, splitName_append colon]
  dsimp only
  rw [namespaceOf?_predicate ready declared present]
  rfl

/-! ### What a run states -/

/-- The property is stated once, by the name of its predicate. -/
def Stated (t : PrefixTable) (p : Property) (es : List (Option String × String)) : Prop :=
  ∃ name, es = [(p.arc.element, name)] ∧ t.Names p.predicate name

theorem Stated.mono {t u : PrefixTable} {es : List (Option String × String)} (h : Stated t p es)
    (more : t.Grows u) : Stated u p es := by
  obtain ⟨name, same, names⟩ := h
  exact ⟨name, same, names.mono more⟩

/-- The element and the predicate of what is stated inside the description of the instance. -/
def Forward.stated : Forward → Option String × String
  | spliced _ predicate _ => (none, predicate)
  | codelist element predicate | languageText element predicate | literal element predicate _
  | link element predicate => (some element, predicate)

/-- The element and the predicate of what the description of the value states. -/
def Related.stated : Related → List (Option String × String)
  | spliced _ _ reverse _ => reverse.toList.map fun predicate => (none, predicate)
  | nested element reverse _ => reverse.toList.map fun predicate => (some element, predicate)

theorem predicateOf_names (h : predicateOf p s = .ok (name, t)) :
    s.predicates.Grows t.predicates ∧ t.predicates.Names p.predicate name := by
  obtain ⟨_, qualified, rfl⟩ := predicateOf_made h
  exact PrefixTable.qualify_names qualified

theorem templateOf_predicates {c : Class} (h : templateOf m o c s = .ok (name, t)) :
    t.predicates = s.predicates := by
  obtain ⟨_, _, _, rfl⟩ := templateOf_made h
  rfl

theorem ReverseMade.names {r : Option String} (h : ReverseMade p s r t) :
    s.predicates.Grows t.predicates ∧ (p.isReverse = false → r = none) ∧
      (p.isReverse → ∃ name, r = some name ∧ t.predicates.Names p.predicate name) := by
  cases h with
  | forward forward =>
    exact ⟨.refl _, fun _ => rfl, fun reverse => absurd reverse (by simp [forward])⟩
  | reverse reverse found =>
    obtain ⟨more, names⟩ := predicateOf_names found
    exact ⟨more, fun forward => absurd reverse (by simp [forward]), fun _ => ⟨_, rfl, names⟩⟩

/-- A property that is not reverse is stated inside the description of the instance. A reverse one
is not, and its values are instances. -/
structure ForwardOf (m : Model) (t : PrefixTable) (p : Property) (fs : List Forward) : Prop where
  forward : p.isReverse = false → Stated t p (fs.map Forward.stated)
  reverse : p.isReverse → fs = []
  instances : p.isReverse → p.isSpliced = false → ∀ primitives,
    m.shapeOf p ≠ .ok (.primitive primitives)

theorem OfInstances.never (h : OfInstances m p) (primitives : List Primitive) :
    m.shapeOf p ≠ .ok (.primitive primitives) := by
  obtain ⟨shape, read, instances⟩ := h
  exact fun same => instances primitives (Except.ok.inj (read.symm.trans same))

theorem plainTriples_stated (element predicate : String) (one : Primitive) :
    (plainTriples element predicate one).stated = (some element, predicate) := by
  cases one with
  | codelist c => rfl
  | datatype iri =>
    unfold plainTriples
    dsimp only
    split <;> rfl

theorem forward_stated {fs : List Forward} (h : forward m p s = .ok (fs, t)) :
    s.predicates.Grows t.predicates ∧ ForwardOf m t.predicates p fs := by
  have stated {f : Forward} {name : String} {t : Progress} (forward : p.isReverse = false)
      (found : predicateOf p s = .ok (name, t)) (same : f.stated = (p.arc.element, name)) :
      s.predicates.Grows t.predicates ∧ ForwardOf m t.predicates p [f] := by
    obtain ⟨more, names⟩ := predicateOf_names found
    exact ⟨more, fun _ => ⟨name, by simp [same], names⟩,
      fun reverse => absurd reverse (by simp [forward]),
      fun reverse => absurd reverse (by simp [forward])⟩
  cases forward_made h with
  | reverse reverse instances =>
    exact ⟨.refl _, fun forward => absurd reverse (by simp [forward]), fun _ => rfl,
      fun _ inPlace => (instances inPlace).never⟩
  | spliced spliced forward found =>
    exact stated forward found (by simp [Forward.stated, Property.arc, spliced])
  | plain inPlace forward _ found =>
    exact stated forward found (by simp [plainTriples_stated, Property.arc, inPlace])
  | link inPlace forward _ found =>
    exact stated forward found (by simp [Forward.stated, Property.arc, inPlace])

/-- A property that is reverse is stated in the description of its value, and no other is. The value
is described by a template if it is spliced in or has one class. -/
structure RelatedOf (m : Model) (t : PrefixTable) (p : Property) (rs : List Related) : Prop where
  forward : p.isReverse = false → rs.flatMap Related.stated = []
  reverse : p.isReverse → (p.isSpliced = false → ∀ primitives,
    m.shapeOf p ≠ .ok (.primitive primitives)) → Stated t p (rs.flatMap Related.stated)
  spliced : p.isSpliced → ∃ d present reverse, m.spliceTarget p = .ok d ∧
    rs = [.spliced present (toNCName p.label) reverse (templateName d.iri)]
  single : p.isSpliced = false → ∀ d, m.shapeOf p = .ok (.single d) →
    rs.flatMap Related.callees = [templateName d.iri]

theorem related_stated {rs : List Related} (h : related m o p s = .ok (rs, t)) :
    s.predicates.Grows t.predicates ∧ RelatedOf m t.predicates p rs := by
  have inside (inPlace : p.isSpliced = false) : p.arc.element = some (toNCName p.label) := by
    simp [Property.arc, inPlace]
  cases related_made h with
  | spliced spliced target _ found made =>
    have element : p.arc.element = none := by simp [Property.arc, spliced]
    obtain ⟨more, none, some⟩ := found.names
    obtain ⟨_, _, rfl⟩ := templateOf_step made
    rw [← templateOf_predicates made] at more some
    refine ⟨more, ⟨fun forward => ?_, fun reverse _ => ?_, fun _ => ⟨_, _, _, target, rfl⟩,
      fun inPlace => absurd spliced (by simp [inPlace])⟩⟩
    · rw [none forward]
      rfl
    · obtain ⟨name, rfl, names⟩ := some reverse
      exact ⟨name, by rw [element]; rfl, names⟩
  | nested inPlace read described found made =>
    obtain ⟨more, none, some⟩ := found.names
    obtain ⟨_, _, rfl⟩ := templateOf_step made
    rw [← templateOf_predicates made] at more some
    refine ⟨more, ⟨fun forward => ?_, fun reverse _ => ?_,
      fun spliced => absurd spliced (by simp [inPlace]), fun _ d same => ?_⟩⟩
    · rw [none forward]
      rfl
    · obtain ⟨name, rfl, names⟩ := some reverse
      exact ⟨name, by rw [inside inPlace]; rfl, names⟩
    · obtain rfl := Except.ok.inj (read.symm.trans same)
      obtain rfl := Option.some.inj described
      rfl
  | plain inPlace read =>
    exact ⟨.refl _, fun _ => rfl, fun _ instances => absurd read (instances inPlace _),
      fun spliced => absurd spliced (by simp [inPlace]),
      fun _ d same => by cases read.symm.trans same⟩
  | placeholder inPlace read _ forward =>
    exact ⟨.refl _, fun _ => rfl, fun reverse => absurd reverse (by simp [forward]),
      fun spliced => absurd spliced (by simp [inPlace]),
      fun _ d same => by cases read.symm.trans same⟩
  | stated inPlace read _ reverse found =>
    obtain ⟨more, names⟩ := predicateOf_names found
    exact ⟨more, fun forward => absurd reverse (by simp [forward]),
      fun _ _ => ⟨_, by rw [inside inPlace]; rfl, names⟩,
      fun spliced => absurd spliced (by simp [inPlace]),
      fun _ d same => by cases read.symm.trans same⟩

theorem ForwardOf.mono {t u : PrefixTable} {fs : List Forward} (h : ForwardOf m t p fs)
    (more : t.Grows u) : ForwardOf m u p fs :=
  { h with forward := fun forward => (h.forward forward).mono more }

theorem RelatedOf.mono {t u : PrefixTable} {rs : List Related} (h : RelatedOf m t p rs)
    (more : t.Grows u) : RelatedOf m u p rs :=
  { h with reverse := fun reverse instances => (h.reverse reverse instances).mono more }

/-- A step with this result that was taken before the table of predicates came to its last state. -/
def Took {α : Type} (step : Build α) (result : α) (last : PrefixTable) : Prop :=
  ∃ s t, step s = .ok (result, t) ∧ t.predicates.Grows last

theorem Took.mono {α : Type} {step : Build α} {result : α} {t u : PrefixTable}
    (h : Took step result t) (more : t.Grows u) : Took step result u := by
  obtain ⟨before, after, run, grown⟩ := h
  exact ⟨before, after, run, grown.trans more⟩

theorem runs_took {α β : Type} {f : α → Build β} {xs : List α} {ys : List β} (h : Runs f xs ys s t)
    (each : ∀ x y s t, f x s = .ok (y, t) → s.predicates.Grows t.predicates) :
    s.predicates.Grows t.predicates ∧
      List.Forall₂ (fun x y => Took (f x) y t.predicates) xs ys :=
  runs_grow (G := fun s t : Progress => s.predicates.Grows t.predicates)
    (P := fun s x y => Took (f x) y s.predicates) (fun _ => .refl _) (fun _ _ _ => .trans)
    (fun _ _ _ _ more took => took.mono more) h
    fun x _ y s t run => ⟨each x y s t run, s, t, run, .refl _⟩

/-- The template of a class, made by two steps for each of its properties. -/
def TemplateTook (m : Model) (o : Import.Outlook) (last : PrefixTable) (c : Class)
    (template : Template) : Prop :=
  ∃ ps fs rs, m.effectiveProperties c = .ok ps ∧
    List.Forall₂ (fun p made => Took (forward m p) made last) ps fs ∧
    List.Forall₂ (fun p made => Took (related m o p) made last) ps rs ∧
    template = ⟨templateName c.iri, c.meaning, fs.flatten, rs.flatten⟩

theorem TemplateTook.mono {t u : PrefixTable} {c : Class} {template : Template}
    (h : TemplateTook m o t c template) (more : t.Grows u) : TemplateTook m o u c template := by
  obtain ⟨ps, fs, rs, own, forwards, relateds, same⟩ := h
  exact ⟨ps, fs, rs, own, forwards.imp fun _ _ took => took.mono more,
    relateds.imp fun _ _ took => took.mono more, same⟩

theorem classTemplate_took {c : Class} {template : Template}
    (h : classTemplate m o c s = .ok (template, t)) :
    s.predicates.Grows t.predicates ∧ TemplateTook m o t.predicates c template := by
  obtain ⟨ps, fs, rs, u, own, first, second, rfl⟩ := classTemplate_made h
  obtain ⟨before, forwards⟩ := runs_took first fun _ _ _ _ run => (forward_stated run).1
  obtain ⟨after, relateds⟩ := runs_took second fun _ _ _ _ run => (related_stated run).1
  exact ⟨before.trans after, ps, fs, rs, own,
    forwards.imp fun _ _ took => took.mono after, relateds, rfl⟩

/-- How the templates of a stylesheet have been made, with the table that predicates are named
by. -/
theorem generate_took {s : Source} {l : Lifting} (h : generate s = .ok l) :
    ∃ t, Ready t (l.target.map (·.1)).toList ∧ l.predicates = t.bindings ∧
      List.Forall₂ (TemplateTook s.model (s.outlook .lifting) t) s.model.describedClasses
        l.templates := by
  obtain ⟨cs, between, last, made⟩ := generate_made h
  obtain ⟨before, -⟩ := runs_took made.roots fun c r s t run => by
    obtain ⟨_, named, -⟩ := rootRule_made run
    exact templateOf_predicates named ▸ .refl _
  obtain ⟨after, each⟩ := runs_grow (G := fun s t : Progress => s.predicates.Grows t.predicates)
    (P := fun u => TemplateTook s.model (s.outlook .lifting) u.predicates) (fun _ => .refl _)
    (fun _ _ _ => .trans) (fun _ _ _ _ more took => took.mono more) made.templates
    fun _ _ _ _ _ run => classTemplate_took run
  have more := before.trans after
  have reserved : last.predicates.reserved = (l.target.map (·.1)).toList := by
    rw [more.reserved, made.target]
    rfl
  exact ⟨last.predicates, ⟨more.sound (PrefixTable.sound_empty _ _), more.stem, reserved⟩,
    made.predicates, each⟩

/-- The template of a class, made of what is stated for its properties one after the other. -/
def TemplateStates (m : Model) (t : PrefixTable) (c : Class) (template : Template) : Prop :=
  ∃ ps fs rs, m.effectiveProperties c = .ok ps ∧ List.Forall₂ (ForwardOf m t) ps fs ∧
    List.Forall₂ (RelatedOf m t) ps rs ∧
    template = ⟨templateName c.iri, c.meaning, fs.flatten, rs.flatten⟩

theorem TemplateTook.states {t : PrefixTable} {c : Class} {template : Template}
    (h : TemplateTook m o t c template) : TemplateStates m t c template := by
  obtain ⟨ps, fs, rs, own, forwards, relateds, same⟩ := h
  refine ⟨ps, fs, rs, own, forwards.imp fun p made took => ?_,
    relateds.imp fun p made took => ?_, same⟩
  · obtain ⟨_, _, run, more⟩ := took
    exact (forward_stated run).2.mono more
  · obtain ⟨_, _, run, more⟩ := took
    exact (related_stated run).2.mono more

/-- What a stylesheet states, with the table that its predicates are named by. -/
theorem generate_states {s : Source} {l : Lifting} (h : generate s = .ok l) :
    ∃ t, Ready t (l.target.map (·.1)).toList ∧ l.predicates = t.bindings ∧
      List.Forall₂ (TemplateStates s.model t) s.model.describedClasses l.templates := by
  obtain ⟨t, ready, declared, each⟩ := generate_took h
  exact ⟨t, ready, declared, each.imp fun _ _ took => took.states⟩

/-! ### What the stylesheet states -/

/-- The name of a predicate, as the document element makes it readable. -/
structure Reads (scope : Attributes) (iri name : String) : Prop where
  expands : expandedIri? scope name = some iri
  start : name.toList.head? = some 'n'

variable {scope : Attributes}

theorem Reads.ne (h : Reads scope iri name) {other : String}
    (start : other.toList.head? ≠ some 'n') : name ≠ other := by
  rintro rfl
  exact start h.start

theorem predicate?_node (h : Reads scope iri name) (attributes : Attributes) (es : List Element) :
    predicate? scope (.node name attributes es) = some iri := by
  have call : name ≠ "xsl:call-template" := h.ne (by decide)
  have type : name ≠ "rdf:type" := h.ne (by decide)
  rw [predicate?, if_neg (by simp [Element.name, call, type])]
  exact h.expands

theorem unwrapped_forEach (selection : String) (es : List Element) :
    unwrapped (forEach selection es) = (some selection, es) := rfl

theorem unwrapped_onlyIf (test : String) (es : List Element) :
    unwrapped (onlyIf test es) = (none, es) := rfl

theorem unwrapped_other {e : Element} (each : e.name ≠ "xsl:for-each") (test : e.name ≠ "xsl:if") :
    unwrapped e = (none, [e]) := by
  rw [unwrapped, if_neg each, if_neg test]

theorem forwardArcs_toXml {f : Forward} (h : Reads scope iri f.stated.2) :
    f.toXml.flatMap (forwardArcs scope) = [⟨f.stated.1, iri, false⟩] := by
  have state (attributes : Attributes) (es : List Element) := predicate?_node h attributes es
  cases f with
  | spliced present predicate element =>
    have alone := unwrapped_other (e := .node predicate [] [nodeCall true (.extended element)])
      (h.ne (by decide)) (h.ne (by decide))
    simp only [Forward.stated] at state
    rw [Forward.toXml, whenPresent]
    split
    · simp [forwardArcs, alone, state, Forward.stated]
    · simp [forwardArcs, unwrapped_onlyIf, state, Forward.stated]
  | codelist | languageText | literal | link =>
    simp only [Forward.stated] at state
    simp [Forward.toXml, forwardArcs, unwrapped_forEach, state, Forward.stated]

theorem reverseArcs_toXml {r : Related} (h : ∀ x ∈ r.stated, Reads scope iri x.2) :
    r.toXml.flatMap (reverseArcs scope) = r.stated.map fun x => ⟨x.1, iri, true⟩ := by
  have node (isReference : Bool) (suffix : Suffix) :
      predicate? scope (nodeCall isReference suffix) = none := rfl
  have called (template : String) (arguments : List Element) :
      unwrapped (call template arguments) = (none, [call template arguments]) := rfl
  have described (es : List Element) : unwrapped (.node "rdf:Description" [] es) =
    (none, [.node "rdf:Description" [] es]) := rfl
  have named (es : List Element) :
      (Element.node "rdf:Description" [] es).name = "rdf:Description" := rfl
  have holds (es : List Element) : (Element.node "rdf:Description" [] es).children = es := rfl
  have is_call (template : String) (arguments : List Element) :
      (call template arguments).name = "xsl:call-template" := rfl
  have is_plain (template : String) : (plainCall template).name = "xsl:call-template" := rfl
  cases r with
  | spliced present element reverse template =>
    cases reverse with
    | none =>
      rw [Related.toXml, whenPresent]
      split <;>
        simp [reverseArcs, unwrapped_onlyIf, called, is_call, Related.stated]
    | some predicate =>
      have state (es : List Element) := predicate?_node (h _ List.mem_cons_self) [] es
      rw [Related.toXml, whenPresent]
      split <;>
        simp [reverseArcs, unwrapped_onlyIf, called, is_call, described, named, holds, node,
          state, Related.stated]
  | nested element reverse template =>
    cases reverse with
    | none =>
      cases template <;>
        simp [Related.toXml, reverseArcs, unwrapped_forEach, is_plain, Related.stated]
    | some predicate =>
      have state (es : List Element) := predicate?_node (h _ List.mem_cons_self) [] es
      cases template <;>
        simp [Related.toXml, reverseArcs, unwrapped_forEach, is_plain, named, holds, node,
          state, Related.stated]

theorem classCalls_forward (f : Forward) : classCalls f.toXml = [] := by
  refine List.filter_eq_nil_iff.mpr fun name called => ?_
  simp [forward_calls called]

theorem classCalls_related (r : Related) :
    classCalls r.toXml = r.callees.filter (· ≠ nodeTemplateName) := by
  cases r with
  | spliced present element reverse template =>
    cases reverse <;>
      simp [classCalls, Related.toXml, Related.callees, callsIn_whenPresent, callsIn, calls_call,
        calls_argument, calls_plain, calls_nodeCall, List.filter_cons]
  | nested element reverse template =>
    cases reverse <;> cases template <;>
      simp [classCalls, Related.toXml, Related.callees, callsIn, calls_forEach,
        calls_nodeCall, plainCall, calls, callee, List.filter_cons]

end RdfXmlMapping.Lifting
