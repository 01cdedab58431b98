import RdfXmlMapping.Conformance.Agreement
import RdfXmlMapping.Proofs.Lifting.Arcs
import RdfXmlMapping.Proofs.Stylesheet.Readable
import RdfXmlMapping.Proofs.Xml.Scopes

/-!
Stylesheets from documents to RDF can be read back. Predicates are named by prefixes of their own,
so their names end where they are meant to, and a reader finds the rules that were written.
-/

namespace RdfXmlMapping.Lifting

open Stylesheet
open Xml

variable {s : Source} {l : Lifting} {p : Property} {iri name : String}

/-! ### Names of predicates -/

theorem names_isTagName {t : PrefixTable} {own : List String} (ready : Ready t own)
    (names : t.Names iri name) : isTagName name := by
  obtain ⟨uri, pre, last, present, rfl, _, part⟩ := names
  refine isTagName_of (by simp) fun c member => ?_
  rw [String.toList_append, String.toList_append] at member
  rcases List.mem_append.mp member with member | inside
  · rcases List.mem_append.mp member with number | colon
    · exact .inr (ready.plain present c number)
    · exact .inl (by simpa using colon)
  · exact .inr fun markup => not_mem_of_isPart part markup inside

theorem ForwardOf.names {m : Model} {t : PrefixTable} {fs : List Forward} (h : ForwardOf m t p fs) :
    ∀ f ∈ fs, t.Names p.predicate f.stated.2 := by
  intro f member
  cases turned : p.isReverse with
  | true => exact absurd member (by simp [h.reverse turned])
  | false =>
    obtain ⟨name, same, names⟩ := h.forward turned
    have only : f.stated ∈ fs.map Forward.stated := List.mem_map_of_mem member
    rw [same] at only
    rwa [List.mem_singleton.mp only]

theorem RelatedOf.names {m : Model} {t : PrefixTable} {fs : List Forward} {rs : List Related}
    (h : RelatedOf m t p rs) (forward : ForwardOf m t p fs) :
    ∀ r ∈ rs, ∀ x ∈ r.stated, t.Names p.predicate x.2 := by
  intro r member x inside
  have stated : x ∈ rs.flatMap Related.stated := List.mem_flatMap.mpr ⟨r, member, inside⟩
  cases turned : p.isReverse with
  | false => exact absurd stated (by simp [h.forward turned])
  | true =>
    obtain ⟨name, same, names⟩ := h.reverse turned (forward.instances turned)
    rw [same] at stated
    rwa [List.mem_singleton.mp stated]

/-! ### Instructions -/

variable {body : List Element}

@[simp]
theorem isReadable_description :
    isReadable (.node "rdf:Description" [] body) = areReadable body :=
  isReadable_named (by decide)

@[simp]
theorem readable_nodeCall (isReference : Bool) (suffix : Suffix) :
    isReadable (nodeCall isReference suffix) := by
  cases isReference <;> simp [nodeCall, areReadable]

theorem readable_whenPresent {present : List String} {body : List Element}
    (inside : areReadable body) : areReadable (whenPresent present body) := by
  unfold whenPresent
  split
  · exact inside
  · simp [areReadable, inside]

theorem readable_forward {f : Forward} (named : isTagName f.stated.2) : areReadable f.toXml := by
  cases f with
  | spliced present predicate element =>
    refine readable_whenPresent ?_
    have good : isTagName predicate := named
    simp [areReadable, isReadable_named good]
  | literal element predicate datatype =>
    have good : isTagName predicate && ["rdf:datatype"].all isKey :=
      (Bool.and_eq_true _ _).mpr ⟨named, by decide⟩
    have literal : isReadable (.node predicate [("rdf:datatype", datatype)] [valueOf "."]) :=
      (isReadable_node _ rfl good).trans (by simp [areReadable])
    simp [Forward.toXml, areReadable, literal]
  | codelist _ predicate | languageText _ predicate | link _ predicate =>
    have good : isTagName predicate := named
    simp [Forward.toXml, areReadable, isReadable_named good]

theorem readable_related {r : Related} (named : ∀ x ∈ r.stated, isTagName x.2) :
    areReadable r.toXml := by
  cases r with
  | spliced present element reverse template =>
    refine readable_whenPresent ?_
    cases reverse with
    | none => simp [areReadable]
    | some predicate =>
      have good : isTagName predicate := named _ List.mem_cons_self
      simp [areReadable, isReadable_named good]
  | nested element reverse template =>
    cases reverse with
    | none => cases template <;> simp [Related.toXml, areReadable]
    | some predicate =>
      have good : isTagName predicate := named _ List.mem_cons_self
      cases template <;> simp [Related.toXml, areReadable, isReadable_named good]

theorem readable_template {t : PrefixTable} {own : List String} {m : Model} {c : Class}
    {template : Template} (ready : Ready t own) (states : TemplateStates m t c template) :
    isReadable template.toXml := by
  obtain ⟨ps, fs, rs, _, forwards, relateds, rfl⟩ := states
  have inside : areReadable (fs.flatten.flatMap Forward.toXml) := by
    refine areReadable_flatMap fun f member => ?_
    obtain ⟨group, present, member⟩ := List.mem_flatten.mp member
    obtain ⟨p, _, of⟩ := forall₂_mem_right forwards present
    exact readable_forward (names_isTagName ready (of.names f member))
  have after : areReadable (rs.flatten.flatMap Related.toXml) := by
    refine areReadable_flatMap fun r member => ?_
    obtain ⟨group, present, member⟩ := List.mem_flatten.mp member
    obtain ⟨p, declared, of⟩ := forall₂_mem_right relateds present
    obtain ⟨_, _, forward⟩ := forall₂_mem_left forwards declared
    exact readable_related fun x stated =>
      names_isTagName ready (of.names forward r member x stated)
  have type : areReadable
      (c.meaning.elim [] fun iri => [.leaf "rdf:type" [("rdf:resource", iri)]]) := by
    cases c.meaning with
    | none => rfl
    | some iri =>
      have typed : isReadable (.leaf "rdf:type" [("rdf:resource", iri)]) :=
        isReadable_leaf ["rdf:resource"] rfl (by decide)
      simp [areReadable, typed]
  have parameter : isReadable (.leaf "xsl:param" [("name", "suffix"), ("select", "''")]) := by
    decide
  simp [Template.toXml, areReadable, areReadable_append, parameter, inside, after, type]

theorem readable_rule (r : RootRule) : isReadable r.toXml := by
  have document : isReadable (.node "rdf:RDF" [] [plainCall r.template]) :=
    (isReadable_named (by decide)).trans (by simp [areReadable])
  simp [RootRule.toXml, areReadable, document]

theorem headAttributes_keys {t : PrefixTable} {own : List String} (ready : Ready t own)
    (named : l.predicates = t.bindings) (target : ∀ own ∈ l.target.map (·.1), '=' ∉ own.toList) :
    (headAttributes l).all (isKey ·.1) := by
  rw [headAttributes, List.all_append, List.all_append, Bool.and_eq_true, Bool.and_eq_true]
  refine ⟨⟨by decide, ?_⟩, List.all_eq_true.mpr fun a member => ?_⟩
  · cases written : l.target with
    | none => rfl
    | some pair =>
      have free : isKey ("xmlns:" ++ pair.1) := isKey_xmlns.mpr (target pair.1 (by simp [written]))
      simp +decide [free]
  · rw [named] at member
    obtain ⟨_, bound, rfl⟩ := List.mem_map.mp member
    obtain ⟨entry, present, rfl⟩ := List.mem_map.mp bound
    exact isKey_xmlns.mpr fun inside => ready.plain present '=' inside (by decide)

theorem readable_lifting (h : generate s = .ok l)
    (target : ∀ own ∈ l.target.map (·.1), '=' ∉ own.toList) : isReadable (toXml l) := by
  obtain ⟨t, ready, named, states⟩ := generate_states h
  have keys := headAttributes_keys ready named target
  have imports : areReadable (l.imports.map importOf) := by
    refine areReadable_iff.mpr fun e member => ?_
    obtain ⟨reference, _, rfl⟩ := List.mem_map.mp member
    exact isReadable_importOf
  have roots : areReadable (l.roots.map RootRule.toXml) := by
    simp [areReadable_iff, readable_rule]
  have templates : areReadable (l.templates.map Template.toXml) := by
    refine areReadable_iff.mpr fun e member => ?_
    obtain ⟨template, present, rfl⟩ := List.mem_map.mp member
    obtain ⟨c, _, of⟩ := forall₂_mem_right states present
    exact readable_template ready of
  have helpers : areReadable [outputMethod] ∧ areReadable [nodeTemplate, identityRule] := by
    decide +kernel
  have children : areReadable (toXml l).children := by
    simp only [toXml, Element.children, areReadable_append, imports, roots, templates, helpers.1,
      helpers.2, Bool.and_self]
  exact (Bool.and_eq_true _ _).mpr ⟨(Bool.and_eq_true _ _).mpr ⟨by decide, keys⟩, children⟩

/-! ### What stands at the top -/

theorem declares_language (l : Lifting) : DeclaredIn "xsl" Vocabulary.xslt (headAttributes l) where
  member := by
    refine List.mem_append_left _ (List.mem_append_left _ (List.mem_append_left _ ?_))
    exact List.mem_cons_of_mem _ List.mem_cons_self
  key := by decide
  plain := by decide
  other := by decide
  qualified := by decide

def topNames : List String := ["xsl:import", "xsl:output", "xsl:template"]

theorem children_top (l : Lifting) :
    ∀ e ∈ (toXml l).children, isPlain "xsl" e ∧ e.name ∈ topNames := by
  have imports (reference : String) : isPlain "xsl" (importOf reference) ∧
      (importOf reference).name ∈ topNames := by
    simp +decide [importOf, isPlain, Element.attributes, Element.name, topNames]
  have named (name : String) (body : List Element) : isPlain "xsl" (template name body) ∧
      (template name body).name ∈ topNames := by
    simp +decide [template, isPlain, Element.attributes, Element.name, topNames]
  have rules (pattern : String) (body : List Element) : isPlain "xsl" (rule pattern body) ∧
      (rule pattern body).name ∈ topNames := by
    simp +decide [rule, isPlain, Element.attributes, Element.name, topNames]
  intro e member
  simp only [toXml, Element.children, List.mem_append, List.mem_map, List.mem_cons,
    List.not_mem_nil, or_false] at member
  rcases member with (((⟨_, _, rfl⟩ | rfl) | ⟨_, _, rfl⟩) | ⟨_, _, rfl⟩) | rfl | rfl
  · exact imports _
  · decide
  · exact rules _ _
  · exact named _ _
  · exact named _ _
  · exact rules _ _

/-- The patterns that a reader finds at the rules of a stylesheet. -/
theorem patterns_read {n : Node} (h : Xml.Reads [] (toXml l) n) {P : Xml.ExpandedName → Bool}
    (chosen : ∀ last, P ⟨some Vocabulary.xslt, last⟩ = decide (last = "template")) :
    (n.children.filter fun n => n.name?.any P).filterMap (·.attribute? "match") =
      (valuesOf "xsl:template" "match" (toXml l).children).map readValue := by
  have named : ∀ tag ∈ topNames, rawName? tag = some ⟨"xsl", "template"⟩ ↔
      tag = "xsl:template" := by
    decide
  have top := children_top l
  exact children_valuesOf h (declares_language l) (fun e member => (top e member).1)
    (picks_one (fun e member => named e.name (top e member).2) chosen) "match"

end RdfXmlMapping.Lifting
