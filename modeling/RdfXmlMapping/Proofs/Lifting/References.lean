import Mathlib
import RdfXmlMapping.Model.Build
import RdfXmlMapping.Proofs.Mapping

/-!
References between instances. A template refers to the instances that belong to a property in one
place and has them described in another. Both places stand under the same conditions and selections,
and hand on the same suffix, so that what is referred to is described (`references_described`).
-/

namespace RdfXmlMapping.Lifting

open Stylesheet
open Xml (Attributes Element)

/-! ### Calls where they stand -/

/-- What an instruction is carried out under. -/
inductive Guard where
  | test (condition : String)
  | each (selection : String)
  deriving DecidableEq, Repr

/-- A call of a template: the conditions and selections around it and the result elements around it,
both from the outermost inwards, and the parameters that it hands on. -/
structure CallSite where
  guards : List Guard
  within : List Element
  callee : String
  parameters : List (String × String)

def parametersOf (es : List Element) : List (String × String) :=
  es.filterMap fun e =>
    if e.name = "xsl:with-param" then
      (e.attributes.lookup "name").map fun name => (name, (e.attributes.lookup "select").getD "")
    else none

mutual

/-- The calls in an element, in the order in which they are written. -/
def callSites (guards : List Guard) (within : List Element) : Element → List CallSite
  | .node name attributes children =>
    if name = "xsl:call-template" then
      (attributes.lookup "name").toList.map fun callee =>
        ⟨guards, within, callee, parametersOf children⟩
    else if name = "xsl:for-each" then
      callSitesIn (guards ++ (attributes.lookup "select").toList.map .each) within children
    else if name = "xsl:if" then
      callSitesIn (guards ++ (attributes.lookup "test").toList.map .test) within children
    else callSitesIn guards (within ++ [.node name attributes children]) children
  | .leaf name attributes | .text name attributes _ =>
    if name = "xsl:call-template" then
      (attributes.lookup "name").toList.map fun callee => ⟨guards, within, callee, []⟩
    else []

def callSitesIn (guards : List Guard) (within : List Element) : List Element → List CallSite
  | [] => []
  | e :: es => callSites guards within e ++ callSitesIn guards within es

end

namespace CallSite

/-- The suffix of the instance that a call is about; every template has none by default. -/
def suffix (x : CallSite) : String := (x.parameters.lookup "suffix").getD Suffix.empty.text

/-- The call writes the attribute that identifies the instance which an element describes. -/
def Identifies (x : CallSite) : Prop :=
  x.callee = nodeTemplateName ∧ x.parameters.lookup "reference" = none

/-- The call writes the attribute that refers to an instance. -/
def Refers (x : CallSite) : Prop :=
  x.callee = nodeTemplateName ∧ x.parameters.lookup "reference" = some "true()"

/-- The call has an instance described by a template, outside of any result element. -/
structure Describes (x : CallSite) (template : String) (guards : List Guard) (suffix : String) :
    Prop where
  callee : x.callee = template
  guards : x.guards = guards
  within : x.within = []
  suffix : x.suffix = suffix

end CallSite

/-! ### What belongs to a property -/

/-- The class whose template describes the values of a property. -/
inductive DescribedBy (m : Model) (p : Property) : Class → Prop
  | spliced {d : Class} : p.isSpliced → m.spliceTarget p = .ok d → DescribedBy m p d
  | single {d : Class} : p.isSpliced = false → m.shapeOf p = .ok (.single d) → DescribedBy m p d
  | root {plan : ChoicePlan} {d : Class} {derived : List Derivation} : p.isSpliced = false →
      m.shapeOf p = .ok (.choice plan) → plan.base = .rooted d derived → DescribedBy m p d

/-- A property whose values no template describes. -/
inductive Undescribed (m : Model) (p : Property) : Prop
  | primitive {primitives : List Primitive} : p.isSpliced = false →
      m.shapeOf p = .ok (.primitive primitives) → Undescribed m p
  | placeholder {plan : ChoicePlan} {label : String} : p.isSpliced = false →
      m.shapeOf p = .ok (.choice plan) → plan.base = .placeholder label → Undescribed m p

/-- The way from a value to the element of its instance; a value that is spliced in has no element
of its own. -/
def wayBack (p : Property) : List Guard := if p.isSpliced then [] else [.each ".."]

/-- What a template holds for a property inside the description of the instance and after it. The
one call for the values of the property stands under `guards` and is about the instance with
`suffix`. -/
structure Linked (scope : Attributes) (p : Property) (template : String) (guards : List Guard)
    (suffix : String) (inside after : List Element) : Prop where
  /-- The values are described once. -/
  described : ∃ call, (callSitesIn [] [] (inside ++ after)).filter (·.callee ≠ nodeTemplateName) =
    [call] ∧ call ∈ callSitesIn [] [] after ∧ call.Describes template guards suffix
  /-- Inside the description, the predicate refers to the instance that the call is about. -/
  forward : p.isReverse = false → ∃ reference predicate,
    (callSitesIn [] [] (inside ++ after)).filter (·.callee = nodeTemplateName) = [reference] ∧
    reference ∈ callSitesIn [] [] inside ∧ reference.Refers ∧ reference.guards = guards ∧
    reference.within = [predicate] ∧ reference.suffix = suffix ∧
    expandedIri? scope predicate.name = some p.predicate
  /-- A description of its own identifies the instance that the call is about, and the predicate in
  it refers back to the instance of the template. -/
  reverse : p.isReverse → ∃ identity reference description predicate,
    (callSitesIn [] [] (inside ++ after)).filter (·.callee = nodeTemplateName) =
      [identity, reference] ∧
    (∀ call ∈ [identity, reference], call ∈ callSitesIn [] [] after) ∧
    identity.Identifies ∧ identity.guards = guards ∧ identity.within = [description] ∧
    identity.suffix = suffix ∧ description.name = "rdf:Description" ∧
    reference.Refers ∧ reference.guards = guards ++ wayBack p ∧
    reference.within = [description, predicate] ∧ reference.suffix = Suffix.own.text ∧
    expandedIri? scope predicate.name = some p.predicate

/-- What a template holds for one property: inside the description of the instance, and after it. -/
structure Halves where
  inside : List Element
  after : List Element

/-- The template of a class: it describes the instance whose suffix is handed to it, with none by
default, and what it holds for its properties refers to the instances that it has described. -/
def TemplateLinks (m : Model) (scope : Attributes) (c : Class) (e : Element) : Prop :=
  ∃ head ps hs, m.effectiveProperties c = .ok ps ∧
    e = template (templateName c.iri) (
      .leaf "xsl:param" [("name", "suffix"), ("select", Suffix.empty.text)] ::
      .node "rdf:Description" [] (nodeCall false .own :: head ++ hs.flatMap Halves.inside) ::
      hs.flatMap Halves.after) ∧
    callSitesIn [] [] head = [] ∧
    List.Forall₂ (fun p h => Undescribed m p ∨ ∃ d guards suffix, DescribedBy m p d ∧
      Linked scope p (templateName d.iri) guards suffix h.inside h.after) ps hs

/-! ### Calls in what is written -/

variable {guards : List Guard} {within es fs : List Element}

theorem callSitesIn_append : callSitesIn guards within (es ++ fs) =
    callSitesIn guards within es ++ callSitesIn guards within fs := by
  induction es with
  | nil => rfl
  | cons e es ih => simp [callSitesIn, ih]

theorem callSites_call {name : String} {arguments : List Element} :
    callSites guards within (call name arguments) =
      [⟨guards, within, name, parametersOf arguments⟩] := rfl

theorem callSites_plainCall {name : String} :
    callSites guards within (plainCall name) = [⟨guards, within, name, []⟩] := rfl

theorem callSites_forEach {selection : String} :
    callSites guards within (forEach selection es) =
      callSitesIn (guards ++ [.each selection]) within es := rfl

theorem callSites_onlyIf {test : String} :
    callSites guards within (onlyIf test es) = callSitesIn (guards ++ [.test test]) within es := rfl

/-- The conditions under which instances are spliced in. -/
def presence (present : List String) : List Guard :=
  if present.isEmpty then [] else [.test (" or ".intercalate present)]

theorem callSitesIn_whenPresent {present : List String} :
    callSitesIn guards within (whenPresent present es) =
      callSitesIn (guards ++ presence present) within es := by
  unfold whenPresent presence
  split
  · rw [List.append_nil]
  · rw [callSitesIn, callSites_onlyIf, callSitesIn, List.append_nil]

/-- A call of the template that writes identities. -/
def nodeSite (guards : List Guard) (within : List Element) (isReference : Bool) (suffix : Suffix) :
    CallSite where
  guards := guards
  within := within
  callee := nodeTemplateName
  parameters := (if isReference then [("reference", "true()")] else []) ++ [("suffix", suffix.text)]

theorem callSites_nodeCall {isReference : Bool} {suffix : Suffix} :
    callSites guards within (nodeCall isReference suffix) =
      [nodeSite guards within isReference suffix] := by
  cases isReference <;> rfl

theorem nodeSite_suffix {isReference : Bool} {suffix : Suffix} :
    (nodeSite guards within isReference suffix).suffix = suffix.text := by
  cases isReference <;> rfl

theorem nodeSite_identifies {suffix : Suffix} : (nodeSite guards within false suffix).Identifies :=
  ⟨rfl, rfl⟩

theorem nodeSite_refers {suffix : Suffix} : (nodeSite guards within true suffix).Refers :=
  ⟨rfl, rfl⟩

theorem callSites_description :
    callSites guards within (.node "rdf:Description" [] es) =
      callSitesIn guards (within ++ [.node "rdf:Description" [] es]) es := rfl

variable {m : Model} {scope : Attributes} {p : Property} {d : Class} {iri name template : String}

theorem callSites_predicate (reads : Reads scope iri name) :
    callSites guards within (.node name [] es) =
      callSitesIn guards (within ++ [.node name [] es]) es := by
  have call : name ≠ "xsl:call-template" := reads.ne (by decide)
  have each : name ≠ "xsl:for-each" := reads.ne (by decide)
  have test : name ≠ "xsl:if" := reads.ne (by decide)
  rw [callSites, if_neg call, if_neg each, if_neg test]

/-! ### What is written for a property -/

/-- What the generators write for a property whose values are described, if the predicate of the
property has this name. A value that is spliced in is there under the same conditions for both. -/
inductive Written (m : Model) (p : Property) (d : Class) (name : String) :
    List Forward → List Related → Prop
  | spliced {present : List String} : p.isSpliced → Written m p d name
      (if p.isReverse then [] else [.spliced present name (toNCName p.label)])
      [.spliced present (toNCName p.label) (if p.isReverse then some name else none)
        (templateName d.iri)]
  | nested : p.isSpliced = false → Written m p d name
      (if p.isReverse then [] else [.link (toNCName p.label) name])
      [.nested (toNCName p.label) (if p.isReverse then some name else none)
        (some (templateName d.iri))]

variable {suffix : Suffix} {inside after : List Element}

theorem linked_forward (call : CallSite) (predicate : Element) (forward : p.isReverse = false)
    (reads : expandedIri? scope predicate.name = some p.predicate)
    (refers : callSitesIn [] [] inside = [nodeSite guards [predicate] true suffix])
    (describes : callSitesIn [] [] after = [call]) (other : template ≠ nodeTemplateName)
    (made : call.Describes template guards suffix.text) :
    Linked scope p template guards suffix.text inside after := by
  have callee : call.callee ≠ nodeTemplateName := made.callee ▸ other
  refine ⟨⟨call, ?_, by simp [describes], made⟩, fun _ => ⟨nodeSite guards [predicate] true suffix,
    predicate, ?_, by simp [refers], nodeSite_refers, rfl, rfl, nodeSite_suffix, reads⟩,
    fun reverse => absurd reverse (by simp [forward])⟩
  · simp [callSitesIn_append, refers, describes, callee, nodeSite]
  · simp [callSitesIn_append, refers, describes, callee, nodeSite]

theorem linked_reverse (call : CallSite) (predicate : Element) (body : List Element)
    (reverse : p.isReverse)
    (reads : expandedIri? scope predicate.name = some p.predicate)
    (nothing : callSitesIn [] [] inside = [])
    (describes : callSitesIn [] [] after = [
      nodeSite guards [.node "rdf:Description" [] body] false suffix,
      nodeSite (guards ++ wayBack p) [.node "rdf:Description" [] body, predicate] true .own, call])
    (other : template ≠ nodeTemplateName) (made : call.Describes template guards suffix.text) :
    Linked scope p template guards suffix.text inside after := by
  have callee : call.callee ≠ nodeTemplateName := made.callee ▸ other
  refine ⟨⟨call, ?_, by simp [describes], made⟩, fun forward => absurd reverse (by simp [forward]),
    fun _ => ⟨_, _, .node "rdf:Description" [] body, predicate, ?_, ?_, nodeSite_identifies, rfl,
      rfl, nodeSite_suffix, rfl, nodeSite_refers, rfl, rfl, nodeSite_suffix, reads⟩⟩
  · simp [callSitesIn_append, nothing, describes, callee, nodeSite]
  · simp [callSitesIn_append, nothing, describes, callee, nodeSite]
  · simp [describes]

theorem spliced_linked {present : List String} (spliced : p.isSpliced)
    (reads : Reads scope p.predicate name) :
    Linked scope p (templateName d.iri) (presence present) (Suffix.extended (toNCName p.label)).text
      ((if p.isReverse then [] else
        [Forward.spliced present name (toNCName p.label)]).flatMap Forward.toXml)
      (Related.spliced present (toNCName p.label) (if p.isReverse then some name else none)
        (templateName d.iri)).toXml := by
  have state (guards : List Guard) (within es : List Element) :
      callSites guards within (.node name [] es) =
        callSitesIn guards (within ++ [.node name [] es]) es := callSites_predicate reads
  have given (value : String) : parametersOf [argument "suffix" value] = [("suffix", value)] := rfl
  have other := templateName_ne_nodeTemplateName d.iri
  let call : CallSite := ⟨presence present, [], templateName d.iri,
    [("suffix", (Suffix.extended (toNCName p.label)).text)]⟩
  cases turned : p.isReverse with
  | false =>
    refine linked_forward call (.node name [] [nodeCall true (.extended (toNCName p.label))]) turned
      reads.expands ?_ ?_ other ⟨rfl, rfl, rfl, rfl⟩
    · simp [Forward.toXml, callSitesIn_whenPresent, callSitesIn, state, callSites_nodeCall]
    · simp [call, Related.toXml, callSitesIn_whenPresent, callSitesIn, callSites_call, given]
  | true =>
    let predicate : Element := .node name [] [nodeCall true .own]
    refine linked_reverse call predicate [nodeCall false (.extended (toNCName p.label)), predicate]
      turned reads.expands rfl ?_ other ⟨rfl, rfl, rfl, rfl⟩
    simp [call, predicate, Related.toXml, callSitesIn_whenPresent, callSitesIn, callSites_call,
      given, callSites_description, callSites_nodeCall, state, wayBack, spliced]

theorem nested_linked (plain : p.isSpliced = false) (reads : Reads scope p.predicate name) :
    Linked scope p (templateName d.iri) [.each (toNCName p.label)] Suffix.empty.text
      ((if p.isReverse then [] else [Forward.link (toNCName p.label) name]).flatMap Forward.toXml)
      (Related.nested (toNCName p.label) (if p.isReverse then some name else none)
        (some (templateName d.iri))).toXml := by
  have state (guards : List Guard) (within es : List Element) :
      callSites guards within (.node name [] es) =
        callSitesIn guards (within ++ [.node name [] es]) es := callSites_predicate reads
  have other := templateName_ne_nodeTemplateName d.iri
  let call : CallSite := ⟨[.each (toNCName p.label)], [], templateName d.iri, []⟩
  cases turned : p.isReverse with
  | false =>
    refine linked_forward call (.node name [] [nodeCall true .empty]) turned reads.expands ?_ ?_
      other ⟨rfl, rfl, rfl, rfl⟩
    · simp [Forward.toXml, callSites_forEach, callSitesIn, state, callSites_nodeCall]
    · simp [call, Related.toXml, callSites_forEach, callSitesIn, callSites_plainCall]
  | true =>
    let predicate : Element := .node name [] [forEach ".." [nodeCall true .own]]
    refine linked_reverse call predicate [nodeCall false .empty, predicate] turned reads.expands rfl
      ?_ other ⟨rfl, rfl, rfl, rfl⟩
    simp [call, predicate, Related.toXml, callSites_forEach, callSitesIn, callSites_plainCall,
      callSites_description, callSites_nodeCall, state, wayBack, plain]

theorem written_linked (reads : Reads scope p.predicate name) {fs : List Forward}
    {rs : List Related} (h : Written m p d name fs rs) :
    ∃ guards suffix, Linked scope p (templateName d.iri) guards suffix (fs.flatMap Forward.toXml)
      (rs.flatMap Related.toXml) := by
  cases h with
  | spliced spliced =>
    rw [List.flatMap_singleton]
    exact ⟨_, _, spliced_linked spliced reads⟩
  | nested plain =>
    rw [List.flatMap_singleton]
    exact ⟨_, _, nested_linked plain reads⟩

/-! ### What a run writes for a property -/

variable {o : Import.Outlook} {s t : Progress} {shape : Shape} {fs : List Forward}
  {rs : List Related} {last : PrefixTable}

theorem describedBy_shape (inPlace : p.isSpliced = false) (read : m.shapeOf p = .ok shape)
    (described : describedBy shape = some d) : DescribedBy m p d := by
  cases shape with
  | primitive primitives => cases described
  | single e =>
    obtain rfl := Option.some.inj described
    exact .single inPlace read
  | choice plan =>
    rw [describedBy] at described
    cases base : plan.base with
    | rooted root derived =>
      rw [base] at described
      obtain rfl := Option.some.inj described
      exact .root inPlace read base
    | placeholder label =>
      rw [base] at described
      cases described

theorem spliced_written {present : List String} {reverse : Option String} (spliced : p.isSpliced)
    (target : m.spliceTarget p = .ok d) (contents : contentNames m d = .ok present)
    (found : ReverseMade p s reverse t) {s' t' : Progress}
    (first : ForwardMade m p s' fs t') : ∃ name, (t.predicates.Names p.predicate name ∨
        t'.predicates.Names p.predicate name) ∧
      Written m p d name fs [.spliced present (toNCName p.label) reverse (templateName d.iri)] := by
  cases found with
  | forward forward =>
    cases first with
    | reverse reverse => exact absurd reverse (by simp [forward])
    | @spliced _ _ name _ _ _ named target' contents' =>
      obtain rfl := Except.ok.inj (target.symm.trans target')
      obtain rfl := Except.ok.inj (contents.symm.trans contents')
      refine ⟨name, .inr (predicateOf_names named).2, ?_⟩
      simpa [forward] using Written.spliced spliced
    | plain inPlace | link inPlace => exact absurd spliced (by simp [inPlace])
  | @reverse name _ reverse named =>
    cases first with
    | reverse =>
      refine ⟨name, .inl (predicateOf_names named).2, ?_⟩
      simpa [reverse] using Written.spliced spliced
    | spliced _ forward | plain _ forward | link _ forward =>
      exact absurd reverse (by simp [forward])

theorem nested_written {reverse : Option String} (inPlace : p.isSpliced = false)
    (read : m.shapeOf p = .ok shape) (described : describedBy shape = some d)
    (found : ReverseMade p s reverse t) {s' t' : Progress}
    (first : ForwardMade m p s' fs t') : ∃ name, (t.predicates.Names p.predicate name ∨
        t'.predicates.Names p.predicate name) ∧
      Written m p d name fs [.nested (toNCName p.label) reverse (some (templateName d.iri))] := by
  cases found with
  | forward forward =>
    cases first with
    | reverse reverse => exact absurd reverse (by simp [forward])
    | spliced spliced => exact absurd spliced (by simp [inPlace])
    | plain _ _ read' =>
      obtain rfl := Except.ok.inj (read.symm.trans read')
      cases described
    | @link name _ _ _ _ named =>
      refine ⟨name, .inr (predicateOf_names named).2, ?_⟩
      simpa [forward] using Written.nested inPlace
  | @reverse name _ reverse named =>
    cases first with
    | reverse =>
      refine ⟨name, .inl (predicateOf_names named).2, ?_⟩
      simpa [reverse] using Written.nested inPlace
    | spliced _ forward | plain _ forward | link _ forward =>
      exact absurd reverse (by simp [forward])

/-- Both passes over the properties write alike for a property, unless no template describes its
values. -/
theorem took_written (first : Took (forward m p) fs last) (second : Took (related m o p) rs last) :
    Undescribed m p ∨ ∃ d name, DescribedBy m p d ∧ last.Names p.predicate name ∧
      Written m p d name fs rs := by
  obtain ⟨_, t, forwards, grown⟩ := first
  obtain ⟨_, u, relateds, grown'⟩ := second
  have made := forward_made forwards
  cases related_made relateds with
  | @spliced d _ _ _ v _ spliced target contents found called =>
    obtain ⟨_, _, rfl⟩ := templateOf_step called
    obtain ⟨name, names, written⟩ := spliced_written spliced target contents found made
    rw [← templateOf_predicates called] at names
    exact .inr ⟨d, name, .spliced spliced target,
      names.elim (·.mono grown') (·.mono grown), written⟩
  | @nested _ d _ _ v _ inPlace read described found called =>
    obtain ⟨_, _, rfl⟩ := templateOf_step called
    obtain ⟨name, names, written⟩ := nested_written inPlace read described found made
    rw [← templateOf_predicates called] at names
    exact .inr ⟨d, name, describedBy_shape inPlace read described,
      names.elim (·.mono grown') (·.mono grown), written⟩
  | plain inPlace read => exact .inl (.primitive inPlace read)
  | placeholder inPlace read base | stated inPlace read base =>
    exact .inl (.placeholder inPlace read base)

/-! ### Templates -/

/-- The lists of what both passes have written, property by property. -/
theorem halves_of {ps : List Property} {fs : List (List Forward)} {rs : List (List Related)}
    (reads : ∀ iri name, last.Names iri name → Reads scope iri name)
    (forwards : List.Forall₂ (fun p made => Took (forward m p) made last) ps fs)
    (relateds : List.Forall₂ (fun p made => Took (related m o p) made last) ps rs) :
    ∃ hs, List.Forall₂ (fun p h => Undescribed m p ∨ ∃ d guards suffix, DescribedBy m p d ∧
        Linked scope p (templateName d.iri) guards suffix h.inside h.after) ps hs ∧
      hs.flatMap Halves.inside = fs.flatten.flatMap Forward.toXml ∧
      hs.flatMap Halves.after = rs.flatten.flatMap Related.toXml := by
  induction forwards generalizing rs with
  | nil =>
    cases relateds
    exact ⟨[], .nil, rfl, rfl⟩
  | @cons p made _ _ first _ ih =>
    cases relateds with
    | @cons _ made' _ _ second relateds =>
      obtain ⟨hs, each, inside, after⟩ := ih relateds
      refine ⟨⟨made.flatMap Forward.toXml, made'.flatMap Related.toXml⟩ :: hs, .cons ?_ each, ?_,
        ?_⟩
      · refine (took_written first second).imp_right fun ⟨d, name, by_class, names, written⟩ => ?_
        obtain ⟨guards, suffix, linked⟩ := written_linked (reads _ _ names) written
        exact ⟨d, guards, suffix, by_class, linked⟩
      · rw [List.flatMap_cons, inside, List.flatten_cons, List.flatMap_append]
      · rw [List.flatMap_cons, after, List.flatten_cons, List.flatMap_append]

theorem TemplateTook.links {c : Class} {template : Template}
    (h : TemplateTook m o last c template)
    (reads : ∀ iri name, last.Names iri name → Reads scope iri name) :
    TemplateLinks m scope c template.toXml := by
  obtain ⟨ps, fs, rs, own, forwards, relateds, rfl⟩ := h
  obtain ⟨hs, each, inside, after⟩ := halves_of reads forwards relateds
  refine ⟨c.meaning.elim [] fun iri => [.leaf "rdf:type" [("rdf:resource", iri)]], ps, hs, own, ?_,
    ?_, each⟩
  · rw [inside, after]
    rfl
  · cases c.meaning <;> rfl

/-- What a template refers to is described: each reference to an instance that belongs to a property
stands under the same conditions and selections as the call that has the instance described, and
hands on the same suffix. -/
theorem references_described {s : Source} {l : Lifting} (h : generate s = .ok l) : ∃ es,
    namedTemplates (toXml l).children = es ++ [nodeTemplate] ∧
    List.Forall₂ (TemplateLinks s.model (toXml l).attributes) s.model.describedClasses es := by
  obtain ⟨t, ready, declared, each⟩ := generate_took h
  have reads (iri name : String) (names : t.Names iri name) : Reads (toXml l).attributes iri name :=
    ⟨expandedIri?_predicate ready declared names, names_start ready names⟩
  exact ⟨_, namedTemplates_lifting l, List.forall₂_map_right_iff.mpr
    (each.imp fun _ _ took => took.links reads)⟩

theorem references_described_shipyard : ∃ l es, generate shipyard = .ok l ∧
    namedTemplates (toXml l).children = es ++ [nodeTemplate] ∧
    List.Forall₂ (TemplateLinks shipyard.model (toXml l).attributes)
      shipyard.model.describedClasses es := by
  have lifted : (generate shipyard).isOk := by decide +kernel
  obtain ⟨l, made⟩ := except_isOk lifted
  obtain ⟨es, templates, links⟩ := references_described made
  exact ⟨l, es, made, templates, links⟩

end RdfXmlMapping.Lifting
