import RdfXmlMapping.Model.Build
import RdfXmlMapping.Proofs.Lifting.Arcs
import RdfXmlMapping.Proofs.Stylesheet.Arcs
import RdfXmlMapping.Proofs.Templates

/-!
Both stylesheets map the properties of a class alike: what the one states of an instance by an
element the other writes as this element, and both call the same templates (`mapping_alike`).
-/

namespace RdfXmlMapping

open Stylesheet
open Xml (Attributes Element)

/-- What the two templates of a class hold for one property: the first inside and after the
description of the instance, the second in its content. -/
structure Piece where
  inside : List Element
  after : List Element
  written : List Element

/-- Both templates map the property as the model does. A value that is spliced in and a value of one
class are handed to the same template. -/
structure Piece.Maps (m : Model) (scope : Attributes) (p : Property) (q : Piece) : Prop where
  lifted : q.inside.flatMap (Lifting.forwardArcs scope) ++
    q.after.flatMap (Lifting.reverseArcs scope) = [p.arc]
  lowered : q.written.flatMap Lowering.itemArcs = [p.arc]
  spliced : p.isSpliced → ∃ d, m.spliceTarget p = .ok d ∧
    Lifting.classCalls (q.inside ++ q.after) = [templateName d.iri] ∧
    callsIn q.written = [templateName d.iri]
  single : p.isSpliced = false → ∀ d, m.shapeOf p = .ok (.single d) →
    Lifting.classCalls (q.inside ++ q.after) = [templateName d.iri] ∧
    callsIn q.written = [templateName d.iri]

/-- The two templates of a class, cut into what they hold for each of its properties. -/
structure CutInto (scope : Attributes) (qs : List Piece) (up down : Element) : Prop where
  lifted : ∃ parameter head, up.children = parameter ::
    .node "rdf:Description" [] (head ++ qs.flatMap (·.inside)) :: qs.flatMap (·.after) ∧
    head.flatMap (Lifting.forwardArcs scope) = [] ∧ Lifting.classCalls head = []
  lowered : ∃ head, down.children = head ++ qs.flatMap (·.written) ∧
    head.flatMap Lowering.itemArcs = [] ∧ callsIn head = []

/-- The two templates of a class map the same elements to the same predicates, and every property
alike. -/
structure MapAlike (m : Model) (scope : Attributes) (c : Class) (up down : Element) : Prop where
  names : up.attributes.lookup "name" = some (templateName c.iri) ∧
    down.attributes.lookup "name" = some (templateName c.iri)
  arcs : (Lifting.arcs scope up).Perm (Lowering.arcs down)
  properties : ∃ ps qs, m.effectiveProperties c = .ok ps ∧ CutInto scope qs up down ∧
    List.Forall₂ (Piece.Maps m scope) ps qs

/-- The templates at the top of a stylesheet that can be called. -/
def Stylesheet.namedTemplates (es : List Element) : List Element :=
  es.filter fun e => e.name = "xsl:template" ∧ (e.attributes.lookup "name").isSome

variable {m : Model} {scope : Attributes} {p : Property}

/-! ### Single properties -/

namespace Lifting

variable {t : PrefixTable}

theorem forwardArcs_flatMap {iri : String} {fs : List Forward}
    (h : ∀ f ∈ fs, Reads scope iri f.stated.2) :
    (fs.flatMap Forward.toXml).flatMap (forwardArcs scope) =
      (fs.map Forward.stated).map fun x => ⟨x.1, iri, false⟩ := by
  induction fs with
  | nil => rfl
  | cons f fs ih =>
    obtain ⟨first, rest⟩ := List.forall_mem_cons.mp h
    rw [List.flatMap_cons, List.flatMap_append, forwardArcs_toXml first, ih rest]
    rfl

theorem reverseArcs_flatMap {iri : String} {rs : List Related}
    (h : ∀ x ∈ rs.flatMap Related.stated, Reads scope iri x.2) :
    (rs.flatMap Related.toXml).flatMap (reverseArcs scope) =
      (rs.flatMap Related.stated).map fun x => ⟨x.1, iri, true⟩ := by
  induction rs with
  | nil => rfl
  | cons r rs ih =>
    rw [List.flatMap_cons, List.forall_mem_append] at h
    rw [List.flatMap_cons, List.flatMap_append, reverseArcs_toXml h.1, ih h.2, List.flatMap_cons,
      List.map_append]

/-- A property is stated once in all. -/
theorem arcs_property (reads : ∀ iri name, t.Names iri name → Reads scope iri name)
    {fs : List Forward} {rs : List Related} (forward : ForwardOf m t p fs)
    (related : RelatedOf m t p rs) :
    (fs.flatMap Forward.toXml).flatMap (forwardArcs scope) ++
      (rs.flatMap Related.toXml).flatMap (reverseArcs scope) = [p.arc] := by
  cases turned : p.isReverse with
  | false =>
    obtain ⟨name, stated, names⟩ := forward.forward turned
    have none := related.forward turned
    have readable : ∀ f ∈ fs, Reads scope p.predicate f.stated.2 := by
      intro f member
      have only : f.stated ∈ fs.map Forward.stated := List.mem_map_of_mem member
      rw [stated] at only
      rw [List.mem_singleton.mp only]
      exact reads _ name names
    have unread : ∀ x ∈ rs.flatMap Related.stated, Reads scope p.predicate x.2 := by simp [none]
    rw [forwardArcs_flatMap readable, reverseArcs_flatMap unread, stated, none]
    simp [Property.arc, turned]
  | true =>
    obtain ⟨name, stated, names⟩ := related.reverse turned (forward.instances turned)
    have readable : ∀ x ∈ rs.flatMap Related.stated, Reads scope p.predicate x.2 := by
      intro x member
      rw [stated] at member
      rw [List.mem_singleton.mp member]
      exact reads _ name names
    rw [forward.reverse turned, reverseArcs_flatMap readable, stated]
    simp [Property.arc, turned]

theorem classCalls_append (es fs : List Element) :
    classCalls (es ++ fs) = classCalls es ++ classCalls fs := by
  simp [classCalls]

theorem classCalls_property (fs : List Forward) (rs : List Related) :
    classCalls (fs.flatMap Forward.toXml ++ rs.flatMap Related.toXml) =
      (rs.flatMap Related.callees).filter (· ≠ nodeTemplateName) := by
  have none : classCalls (fs.flatMap Forward.toXml) = [] := by
    induction fs with
    | nil => rfl
    | cons f fs ih =>
      rw [List.flatMap_cons, classCalls_append, classCalls_forward, ih, List.nil_append]
  rw [classCalls_append, none, List.nil_append]
  induction rs with
  | nil => rfl
  | cons r rs ih =>
    rw [List.flatMap_cons, classCalls_append, classCalls_related, ih, List.flatMap_cons,
      List.filter_append]

end Lifting

/-- The piece for a property, of what the generators have made for it. -/
def Piece.ofProperty (fs : List Lifting.Forward) (rs : List Lifting.Related) (i : Lowering.Item) :
    Piece := ⟨fs.flatMap (·.toXml), rs.flatMap (·.toXml), [i.toXml]⟩

theorem ofProperty_maps {t : PrefixTable}
    (reads : ∀ iri name, t.Names iri name → Lifting.Reads scope iri name)
    {fs : List Lifting.Forward} {rs : List Lifting.Related} {i : Lowering.Item}
    (forward : Lifting.ForwardOf m t p fs) (related : Lifting.RelatedOf m t p rs)
    (item : Lowering.WrittenFor m p i) : (Piece.ofProperty fs rs i).Maps m scope p := by
  have one {d : Class} (lifted : rs.flatMap Lifting.Related.callees = [templateName d.iri])
      (lowered : i.callees = [templateName d.iri]) :
      Lifting.classCalls ((Piece.ofProperty fs rs i).inside ++ (Piece.ofProperty fs rs i).after) =
        [templateName d.iri] ∧
      callsIn (Piece.ofProperty fs rs i).written = [templateName d.iri] := by
    refine ⟨?_, ?_⟩
    · rw [Piece.ofProperty, Lifting.classCalls_property, lifted]
      simp [templateName_ne_nodeTemplateName]
    · rw [Piece.ofProperty, callsIn, callsIn, Lowering.calls_item, lowered, List.append_nil]
  refine ⟨Lifting.arcs_property reads forward related, ?_, fun spliced => ?_,
    fun plain d shape => ?_⟩
  · rw [Piece.ofProperty, List.flatMap_singleton, item.arcs]
  · obtain ⟨d, _, _, target, rfl⟩ := related.spliced spliced
    obtain ⟨d', target', called⟩ := item.spliced spliced
    obtain rfl := Except.ok.inj (target.symm.trans target')
    exact ⟨d, target, one rfl called⟩
  · exact one (related.single plain d shape) (item.single plain d shape)

/-! ### Templates of classes -/

theorem pieces_of {t : PrefixTable} {ps : List Property}
    (reads : ∀ iri name, t.Names iri name → Lifting.Reads scope iri name)
    {fs : List (List Lifting.Forward)} {rs : List (List Lifting.Related)}
    {items : List Lowering.Item} (forwards : List.Forall₂ (Lifting.ForwardOf m t) ps fs)
    (relateds : List.Forall₂ (Lifting.RelatedOf m t) ps rs)
    (written : List.Forall₂ (Lowering.WrittenFor m) ps items) :
    ∃ qs, List.Forall₂ (Piece.Maps m scope) ps qs ∧
      qs.flatMap (·.inside) = fs.flatten.flatMap Lifting.Forward.toXml ∧
      qs.flatMap (·.after) = rs.flatten.flatMap Lifting.Related.toXml ∧
      qs.flatMap (·.written) = items.map Lowering.Item.toXml := by
  induction forwards generalizing rs items with
  | nil =>
    cases relateds
    cases written
    exact ⟨[], .nil, rfl, rfl, rfl⟩
  | cons forward _ ih =>
    cases relateds with
    | cons related relateds =>
      cases written with
      | cons item written =>
        obtain ⟨qs, maps, inside, after, items⟩ := ih relateds written
        refine ⟨.ofProperty _ _ _ :: qs, .cons (ofProperty_maps reads forward related item) maps,
          ?_, ?_, ?_⟩
        · rw [List.flatMap_cons, inside, List.flatten_cons, List.flatMap_append]
          rfl
        · rw [List.flatMap_cons, after, List.flatten_cons, List.flatMap_append]
          rfl
        · rw [List.flatMap_cons, items, List.map_cons]
          rfl

/-- Templates that are cut into pieces for the same properties map the same. -/
theorem arcs_perm {qs : List Piece} {up down : Element} {ps : List Property}
    (cut : CutInto scope qs up down) (maps : List.Forall₂ (Piece.Maps m scope) ps qs) :
    (Lifting.arcs scope up).Perm (Lowering.arcs down) := by
  obtain ⟨parameter, head, children, silent, _⟩ := cut.lifted
  obtain ⟨head', children', silent', _⟩ := cut.lowered
  have lifted : Lifting.arcs scope up =
      qs.flatMap (fun q => q.inside.flatMap (Lifting.forwardArcs scope)) ++
        qs.flatMap fun q => q.after.flatMap (Lifting.reverseArcs scope) := by
    rw [Lifting.arcs, children]
    simp only [Element.children, List.flatMap_append, silent, List.nil_append, List.flatMap_assoc]
  have lowered : Lowering.arcs down = qs.flatMap fun q => q.written.flatMap Lowering.itemArcs := by
    rw [Lowering.arcs, children', List.flatMap_append, silent', List.nil_append, List.flatMap_assoc]
  have together : qs.flatMap (fun q => q.inside.flatMap (Lifting.forwardArcs scope) ++
      q.after.flatMap (Lifting.reverseArcs scope)) =
      qs.flatMap fun q => q.written.flatMap Lowering.itemArcs := by
    refine List.flatMap_congr fun q member => ?_
    obtain ⟨p, _, of⟩ := forall₂_mem_right maps member
    rw [of.lifted, of.lowered]
  rw [lifted, lowered, ← together]
  exact List.flatMap_append_perm _ _ _

theorem templates_alike {t : PrefixTable} {c : Class} {up : Lifting.Template}
    {down : Lowering.Template}
    (reads : ∀ iri name, t.Names iri name → Lifting.Reads scope iri name)
    (states : Lifting.TemplateStates m t c up) (writes : Lowering.TemplateWrites m c down) :
    MapAlike m scope c up.toXml down.toXml := by
  obtain ⟨ps, fs, rs, own, forwards, relateds, rfl⟩ := states
  obtain ⟨ps', items, own', written, rfl⟩ := writes
  obtain rfl := Except.ok.inj (own.symm.trans own')
  obtain ⟨qs, maps, inside, after, wrote⟩ := pieces_of reads forwards relateds written
  have cut : CutInto scope qs
      (Lifting.Template.toXml ⟨templateName c.iri, c.meaning, fs.flatten, rs.flatten⟩)
      (Lowering.Template.toXml ⟨templateName c.iri, items⟩) := by
    constructor
    · refine ⟨.leaf "xsl:param" [("name", "suffix"), ("select", "''")],
        Lifting.nodeCall false .own :: c.meaning.elim [] fun iri =>
          [.leaf "rdf:type" [("rdf:resource", iri)]], ?_, ?_, ?_⟩
      · rw [inside, after]
        rfl
      · cases c.meaning <;> rfl
      · cases c.meaning <;> rfl
    · rw [Lowering.Template.toXml, ← wrote]
      exact ⟨_, rfl, rfl, rfl⟩
  exact ⟨⟨rfl, rfl⟩, arcs_perm cut maps, ps, qs, own, cut, maps⟩

/-! ### Stylesheets -/

namespace Stylesheet

variable {es fs : List Element}

theorem namedTemplates_append :
    namedTemplates (es ++ fs) = namedTemplates es ++ namedTemplates fs := List.filter_append ..

theorem namedTemplates_nil (unnamed : ∀ e ∈ es, e.attributes.lookup "name" = none) :
    namedTemplates es = [] := by
  refine List.filter_eq_nil_iff.mpr fun e member => ?_
  simp [unnamed e member]

theorem namedTemplates_all {α : Type} {f : α → Element} {named : α → String}
    {body : α → List Element} (each : ∀ x, f x = template (named x) (body x)) (xs : List α) :
    namedTemplates (xs.map f) = xs.map f := by
  refine List.filter_eq_self.mpr fun e member => ?_
  obtain ⟨x, _, rfl⟩ := List.mem_map.mp member
  rw [each]
  rfl

theorem namedTemplates_lifting (l : Lifting) :
    namedTemplates (Lifting.toXml l).children =
      l.templates.map Lifting.Template.toXml ++ [Lifting.nodeTemplate] := by
  have imports : namedTemplates (l.imports.map importOf) = [] := by
    refine namedTemplates_nil fun e member => ?_
    obtain ⟨reference, _, rfl⟩ := List.mem_map.mp member
    rfl
  have roots : namedTemplates (l.roots.map Lifting.RootRule.toXml) = [] :=
    namedTemplates_nil fun e member => by
      obtain ⟨r, _, rfl⟩ := List.mem_map.mp member
      rfl
  have templates : namedTemplates (l.templates.map Lifting.Template.toXml) =
      l.templates.map Lifting.Template.toXml := namedTemplates_all (fun _ => rfl) _
  have output : namedTemplates [outputMethod] = [] := rfl
  have last : namedTemplates [Lifting.nodeTemplate, Lifting.identityRule] =
      [Lifting.nodeTemplate] := rfl
  simp only [Lifting.toXml, Element.children, namedTemplates_append, imports, roots, templates,
    output, last, List.nil_append, List.append_nil]

theorem namedTemplates_lowering (l : Lowering) :
    namedTemplates (Lowering.toXml l).children = l.templates.map Lowering.Template.toXml := by
  have imports : namedTemplates (l.imports.map importOf) = [] := by
    refine namedTemplates_nil fun e member => ?_
    obtain ⟨reference, _, rfl⟩ := List.mem_map.mp member
    rfl
  have roots : namedTemplates (l.roots.map Lowering.RootRule.toXml) = [] :=
    namedTemplates_nil fun e member => by
      obtain ⟨r, _, rfl⟩ := List.mem_map.mp member
      rfl
  have templates : namedTemplates (l.templates.map Lowering.Template.toXml) =
      l.templates.map Lowering.Template.toXml := namedTemplates_all (fun _ => rfl) _
  have rest : namedTemplates [outputMethod] = [] ∧
      namedTemplates (Lowering.bindingParameters l.bindings) = [] ∧
      namedTemplates Lowering.globalVariables = [] ∧ namedTemplates Lowering.functions = [] ∧
      namedTemplates Lowering.entryRules = [] ∧ namedTemplates Lowering.valueRules = [] :=
    ⟨rfl, rfl, rfl, rfl, rfl, rfl⟩
  simp only [Lowering.toXml, Element.children, namedTemplates_append, imports, roots, templates,
    rest, List.nil_append, List.append_nil]

end Stylesheet

theorem forall₂_getElem? {α β : Type} {R : α → β → Prop} {xs : List α} {ys : List β}
    (h : List.Forall₂ R xs ys) {i : Nat} {x : α} (found : xs[i]? = some x) :
    ∃ y, ys[i]? = some y ∧ R x y := by
  induction h generalizing i with
  | nil => cases found
  | cons first _ ih =>
    cases i with
    | zero =>
      obtain rfl := Option.some.inj found
      exact ⟨_, rfl, first⟩
    | succ i => exact ih found

/-- The templates that two stylesheets have for a class map its properties alike. Templates come in
the order of the classes. -/
theorem mapping_alike {s : Source} {l : Lifting} {w : Lowering}
    (lifted : Lifting.generate s = .ok l)
    (lowered : Lowering.generate s = .ok w) {i : Nat} {c : Class}
    (described : s.model.describedClasses[i]? = some c) :
    ∃ up down, (namedTemplates (Lifting.toXml l).children)[i]? = some up ∧
      (namedTemplates (Lowering.toXml w).children)[i]? = some down ∧
      MapAlike s.model (Lifting.toXml l).attributes c up down := by
  obtain ⟨t, ready, declared, states⟩ := Lifting.generate_states lifted
  have writes := Lowering.generate_writes lowered
  obtain ⟨up, at_up, of_up⟩ := forall₂_getElem? states described
  obtain ⟨down, at_down, of_down⟩ := forall₂_getElem? writes described
  have reads : ∀ iri name, t.Names iri name → Lifting.Reads (Lifting.toXml l).attributes iri name :=
    fun iri name names =>
      ⟨Lifting.expandedIri?_predicate ready declared names, Lifting.names_start ready names⟩
  refine ⟨up.toXml, down.toXml, ?_, ?_, templates_alike reads of_up of_down⟩
  · have present : (l.templates.map Lifting.Template.toXml)[i]? = some up.toXml := by
      rw [List.getElem?_map, at_up]
      rfl
    rw [namedTemplates_lifting, List.getElem?_append_left (List.getElem?_eq_some_iff.mp present).1,
      present]
  · rw [namedTemplates_lowering, List.getElem?_map, at_down]
    rfl

/-! ### The mapping of a yard -/

/-- A ship with a name, a yard that has built it, and a hull whose content is that of the ship. -/
def ship : Class :=
  let built :=
    { (Property.make "yard" "https://ex.org/built").association "Yard" with isReverse := true }
  let hull :=
    { (Property.make "hull" "https://ex.org/hull").association "Hull" with isSpliced := true }
  { Class.make "Ship" "Ship" with meaning := some "https://ex.org/Ship" }
    |>.declaring ((Property.make "name" "https://ex.org/name").primitive Vocabulary.langString)
    |>.declaring built
    |>.declaring hull

def shipyard : Source where
  model := ((Model.make "yard" "yards").rootedAt ["Ship"]).declaring ship
    |>.declaring { Class.make "Yard" "Yard" with meaning := some "https://ex.org/Yard" }
    |>.declaring ((Class.make "Hull" "Hull").declaring
      ((Property.make "length" "https://ex.org/length").primitive Vocabulary.langString))
  manifests := []
  config := { output := { baseAddress := "https://own.org/" } }

theorem mapping_alike_shipyard : ∃ c l w up down, shipyard.model.describedClasses[0]? = some c ∧
    c.iri = "Ship" ∧ Lifting.generate shipyard = .ok l ∧ Lowering.generate shipyard = .ok w ∧
    (namedTemplates (Lifting.toXml l).children)[0]? = some up ∧
    (namedTemplates (Lowering.toXml w).children)[0]? = some down ∧
    MapAlike shipyard.model (Lifting.toXml l).attributes c up down := by
  have lifted : (Lifting.generate shipyard).isOk := by decide +kernel
  have lowered : (Lowering.generate shipyard).isOk := by decide +kernel
  have first : (shipyard.model.describedClasses[0]?).map (·.iri) = some "Ship" := by decide +kernel
  obtain ⟨l, made⟩ := except_isOk lifted
  obtain ⟨w, made'⟩ := except_isOk lowered
  obtain ⟨c, described, named⟩ := Option.map_eq_some_iff.mp first
  obtain ⟨up, down, at_up, at_down, alike⟩ := mapping_alike made made' described
  exact ⟨c, l, w, up, down, described, named, made, made', at_up, at_down, alike⟩

end RdfXmlMapping
