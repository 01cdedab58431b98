import RdfXmlMapping.Proofs.Content
import RdfXmlMapping.Proofs.Roots
import RdfXmlMapping.Proofs.Stylesheet.Readable
import RdfXmlMapping.Proofs.TypeNames

/-!
Stylesheets to documents can be read back. The names in them that are not fixed are made from
labels, behind the prefix of the model, so that a reader finds the instructions that were written.
-/

namespace RdfXmlMapping.Lowering

open Stylesheet
open Xml

variable {s : Source} {l : Lowering} {name : String}

theorem name_isTagName (label : String) : isTagName (toNCName label) := by
  refine isTagName_of (fun empty => toNCName_ne_nil label (by simp [empty])) fun c member => .inr ?_
  exact fun markup => not_mem_of_isPart (toNCName_part label) markup member

/-! ### Instructions -/

theorem isReadable_classCall {template id : String} {extra : List Element}
    (more : areReadable extra) : isReadable (classCall template id extra) := by
  simp [classCall, areReadable, more]

theorem isReadable_memberVariable (selection : String) : isReadable (memberVariable selection) :=
  isReadable_leaf ["name", "select"] rfl (by decide)

theorem readable_branches (branches : List Branch) : areReadable (branches.map Branch.toXml) := by
  refine areReadable_iff.mpr fun e member => ?_
  obtain ⟨b, _, rfl⟩ := List.mem_map.mp member
  have type : areReadable
      (b.type.elim [] fun type => [argument "type_name" (literal type.text)]) := by
    cases b.type <;> simp [areReadable]
  refine (isReadable_node ["test"] rfl (by decide)).trans ?_
  simp [areReadable, isReadable_classCall type]

theorem readable_content (member : String) (content : Content) :
    areReadable (content.toXml member) := by
  have call (template id : String) : isReadable (classCall template id []) :=
    isReadable_classCall rfl
  cases content with
  | codelist => simp [Content.toXml, areReadable]
  | literal =>
    have applied :
        isReadable (.leaf "xsl:apply-templates" [("select", member), ("mode", "value")]) :=
      isReadable_leaf ["select", "mode"] rfl (by decide)
    simp [Content.toXml, areReadable, applied]
  | instanceOf template => simp [Content.toXml, areReadable, call]
  | identity =>
    have identity : isReadable (identityOf "$member") :=
      (isReadable_named (by decide)).trans (by simp [areReadable])
    simp [Content.toXml, areReadable, isReadable_memberVariable, identity]
  | choice branches otherwise =>
    have last : isReadable (.node "xsl:otherwise" [] [classCall otherwise "$member" []]) :=
      (isReadable_named (by decide)).trans (by simp [areReadable, call])
    have cases : isReadable (.node "xsl:choose" [] (branches.map Branch.toXml ++
        [.node "xsl:otherwise" [] [classCall otherwise "$member" []]])) := by
      refine (isReadable_named (by decide)).trans ?_
      simp [areReadable_append, readable_branches, areReadable, last]
    have types : isReadable (.leaf "xsl:variable" [("name", "types"),
        ("select", "f:rows($subj, f:id-key($member), $type)/sp:binding[@name = $obj]/sp:uri")]) :=
      isReadable_leaf ["name", "select"] rfl (by decide)
    simp [Content.toXml, areReadable, isReadable_memberVariable, types, cases]

/-- An item is readable if the name of its element, if it has one, is a name. -/
theorem readable_item {i : Item}
    (named : ∀ rows name content, i = .element rows name content → isTagName name) :
    isReadable i.toXml := by
  cases i with
  | spliced rows template =>
    have call : isReadable (classCall template rows.member [argument "no_iri" "true()"]) :=
      isReadable_classCall (by simp [areReadable])
    simp [Item.toXml, areReadable, call]
  | element rows name content =>
    have element : isReadable (.node name [] (content.toXml rows.member)) :=
      (isReadable_named (named rows name content rfl)).trans (readable_content _ _)
    simp [Item.toXml, areReadable, element]

theorem readable_template {t : Template} (items : ∀ i ∈ t.items, isReadable i.toXml) :
    isReadable t.toXml := by
  have all : areReadable (t.items.map Item.toXml) := by
    simpa [areReadable_iff] using items
  have identity : isReadable (identityOf "$id") := by decide
  have parameters : areReadable [.leaf "xsl:param" [("name", "id"), ("as", "element()")],
      .leaf "xsl:param" [("name", "type_name"), ("as", "xs:string?"), ("select", "()")],
      .leaf "xsl:param" [("name", "no_iri"), ("as", "xs:boolean"), ("select", "false()")]] := by
    decide
  have key : isReadable (.leaf "xsl:variable" [("name", "key"), ("select", "f:id-key($id)")]) := by
    decide
  simp only [areReadable, Bool.and_true, Bool.and_eq_true] at parameters
  simp [Template.toXml, areReadable, all, identity, parameters, key]

theorem readable_rule {r : RootRule} (named : isTagName r.element.text) : isReadable r.toXml := by
  have call : isReadable (classCall r.template "sp:binding[@name = $subj]/*" []) :=
    isReadable_classCall rfl
  have element : isReadable
      (.node r.element.text [] [classCall r.template "sp:binding[@name = $subj]/*" []]) :=
    (isReadable_named named).trans (by simp [areReadable, call])
  exact (isReadable_node ["match", "priority"] rfl (by decide)).trans
    (by simp [areReadable, element])

/-! ### Names and prefixes -/

theorem generate_rooted (h : generate s = .ok l) : ∃ cs, s.model.rootClasses = .ok cs := by
  obtain ⟨cs, _, _, made⟩ := generate_made h
  exact ⟨cs, made.found⟩

theorem generate_items (h : generate s = .ok l) : ∀ t ∈ l.templates, ∀ rows name content,
    .element rows name content ∈ t.items → ∃ label, name = toNCName label := by
  obtain ⟨_, _, _, made⟩ := generate_made h
  intro t listed rows name content member
  obtain ⟨c, _, u, v, run⟩ := forall₂_mem_right
    (runs_forall₂ (R := fun c t => ∃ u v, Plan.classTemplate _ c u = .ok (t, v)) made.templates
      fun _ _ _ u v run => ⟨u, v, run⟩) listed
  obtain ⟨ps, _, items⟩ := classTemplate_ok run
  obtain ⟨p, _, u, v, run⟩ := forall₂_mem_right
    (runs_forall₂ (R := fun p i => ∃ u v, Plan.item _ p u = .ok (i, v)) items
      fun _ _ _ u v run => ⟨u, v, run⟩) member
  cases item_made run with
  | element => exact ⟨p.label, rfl⟩

theorem rootName_isTagName {own : Option String}
    (unmarked : ∀ p ∈ own, ∀ c ∈ p.toList, c ∉ markupChars) (label : String) :
    isTagName (⟨own, toNCName label⟩ : QName).text := by
  cases own with
  | none => exact name_isTagName label
  | some own =>
    refine isTagName_of (by simp [QName.text]) fun c member => ?_
    rw [QName.text, String.toList_append, String.toList_append] at member
    rcases List.mem_append.mp member with member | last
    · rcases List.mem_append.mp member with first | colon
      · exact .inr (unmarked own rfl c first)
      · exact .inl (by simpa using colon)
    · exact isTagName_plain (name_isTagName label) c last

theorem generate_named (h : generate s = .ok l) :
    ∀ r ∈ l.roots, ∃ label, r.element = ⟨l.target.map (·.1), toNCName label⟩ := by
  obtain ⟨o⟩ := generate_outcome h
  obtain ⟨cs, found⟩ := generate_rooted h
  intro r listed
  have named : r.element ∈ l.roots.map (·.element) := List.mem_map_of_mem listed
  rw [generate_roots found h] at named
  obtain ⟨c, _, same⟩ := List.mem_map.mp named
  exact ⟨c.label, by rw [← same, o.target]; rfl⟩

/-! ### Documents -/

theorem headAttributes_keys (target : ∀ own ∈ l.target.map (·.1), '=' ∉ own.toList)
    (types : ∀ e ∈ l.types, ∀ own ∈ e.bound, '=' ∉ own.toList) :
    (headAttributes l).all (isKey ·.1) := by
  refine List.all_eq_true.mpr fun a member => ?_
  have fixed : (Stylesheet.headAttributes ++ [("xmlns:xs", Vocabulary.xmlSchema),
      ("xmlns:sp", Vocabulary.sparqlResults), ("xmlns:f", functionNamespace),
      ("xmlns:xsi", Vocabulary.xmlSchemaInstance)]).all (isKey ·.1) := by decide
  rw [headAttributes] at member
  rcases List.mem_append.mp member with member | last
  · rcases List.mem_append.mp member with member | bound
    · rcases List.mem_append.mp member with first | own
      · exact List.all_eq_true.mp fixed a first
      · cases written : l.target with
        | none => simp [written] at own
        | some pair =>
          obtain rfl : a = ("xmlns:" ++ pair.1, pair.2) := by simpa [written] using own
          exact isKey_xmlns.mpr (target pair.1 (by simp [written]))
    · obtain ⟨e, listed, binding⟩ := List.mem_filterMap.mp bound
      unfold typeBinding at binding
      split at binding
      next own uri named _ =>
        obtain rfl := Option.some.inj binding
        exact isKey_xmlns.mpr (types e listed own named)
      next => cases binding
  · obtain rfl := List.mem_singleton.mp last
    decide

theorem readable_lowering (h : generate s = .ok l)
    (target : ∀ own ∈ l.target.map (·.1), ∀ c ∈ own.toList, c ∉ markupChars)
    (types : ∀ e ∈ l.types, ∀ own ∈ e.bound, '=' ∉ own.toList) : isReadable (toXml l) := by
  have keys :=
    headAttributes_keys (fun own member inside => target own member '=' inside (by decide)) types
  have imports : areReadable (l.imports.map importOf) := by
    simp [areReadable_iff]
  have roots : areReadable (l.roots.map RootRule.toXml) := by
    refine areReadable_iff.mpr fun e member => ?_
    obtain ⟨r, listed, rfl⟩ := List.mem_map.mp member
    obtain ⟨label, named⟩ := generate_named h r listed
    refine readable_rule ?_
    rw [named]
    exact rootName_isTagName target label
  have templates : areReadable (l.templates.map Template.toXml) := by
    refine areReadable_iff.mpr fun e member => ?_
    obtain ⟨t, listed, rfl⟩ := List.mem_map.mp member
    refine readable_template fun i present => readable_item ?_
    rintro rows name content rfl
    obtain ⟨label, rfl⟩ := generate_items h t listed rows name content present
    exact name_isTagName label
  have parameters : areReadable (bindingParameters l.bindings) := by
    have parameter (name value : String) : isReadable
        (.leaf "xsl:param" [("name", name), ("select", value), ("as", "xs:string")]) :=
      isReadable_leaf ["name", "select", "as"] rfl (by decide)
    simp [bindingParameters, areReadable, parameter]
  have fixed :
      areReadable ([outputMethod] ++ globalVariables ++ functions ++ entryRules ++ valueRules) := by
    decide +kernel
  simp only [areReadable_append, Bool.and_eq_true] at fixed
  obtain ⟨⟨⟨⟨output, globals⟩, functions⟩, entries⟩, values⟩ := fixed
  have children : areReadable (toXml l).children := by
    simp only [toXml, Element.children, areReadable_append, imports, output, parameters, globals,
      functions, entries, roots, templates, values, Bool.and_self]
  exact (Bool.and_eq_true _ _).mpr ⟨(Bool.and_eq_true _ _).mpr ⟨by decide, keys⟩, children⟩

/-! ### What stands at the top -/

theorem declares_language (l : Lowering) : DeclaredIn "xsl" Vocabulary.xslt (headAttributes l) where
  member := by simp [headAttributes, Stylesheet.headAttributes]
  key := by decide
  plain := by decide
  other := by decide
  qualified := by decide

def topNames : List String :=
  ["xsl:import", "xsl:output", "xsl:param", "xsl:variable", "xsl:function", "xsl:template"]

theorem children_top (l : Lowering) :
    ∀ e ∈ (toXml l).children, isPlain "xsl" e ∧ e.name ∈ topNames := by
  have fixed : ∀ e ∈ [outputMethod] ++ globalVariables ++ functions ++ entryRules ++ valueRules,
      isPlain "xsl" e ∧ e.name ∈ topNames := by decide +kernel
  have imports (reference : String) : isPlain "xsl" (importOf reference) ∧
      (importOf reference).name ∈ topNames := by
    simp +decide [importOf, isPlain, Element.attributes, Element.name, topNames]
  have parameter (name value : String) :
      isPlain "xsl"
        (.leaf "xsl:param" [("name", name), ("select", value), ("as", "xs:string")]) := by
    simp +decide [isPlain, Element.attributes, Element.name]
  have parameters : ∀ e ∈ bindingParameters l.bindings, isPlain "xsl" e ∧ e.name ∈ topNames := by
    simp +decide [bindingParameters, parameter, Element.name, topNames]
  have rules (r : RootRule) : isPlain "xsl" r.toXml ∧ r.toXml.name ∈ topNames := by
    simp +decide [RootRule.toXml, isPlain, Element.attributes, Element.name, topNames]
  have templates (t : Template) : isPlain "xsl" t.toXml ∧ t.toXml.name ∈ topNames := by
    simp +decide [Template.toXml, template, isPlain, Element.attributes, Element.name, topNames]
  intro e member
  simp only [List.mem_append] at fixed
  simp only [toXml, Element.children, List.mem_append, List.mem_map] at member
  rcases member with (((((((⟨_, _, rfl⟩ | output) | parameter) | globals) | functions) | entries) |
    ⟨r, _, rfl⟩) | ⟨t, _, rfl⟩) | values
  · exact imports _
  · exact fixed e (.inl (.inl (.inl (.inl output))))
  · exact parameters e parameter
  · exact fixed e (.inl (.inl (.inl (.inr globals))))
  · exact fixed e (.inl (.inl (.inr functions)))
  · exact fixed e (.inl (.inr entries))
  · exact rules r
  · exact templates t
  · exact fixed e (.inr values)

theorem parameters_top (l : Lowering) :
    (toXml l).children.filter (·.name = "xsl:param") = bindingParameters l.bindings := by
  have fixed : [outputMethod].filter (·.name = "xsl:param") = [] ∧
      globalVariables.filter (·.name = "xsl:param") = [] ∧
      functions.filter (·.name = "xsl:param") = [] ∧ entryRules.filter (·.name = "xsl:param") = [] ∧
      valueRules.filter (·.name = "xsl:param") = [] := ⟨rfl, rfl, rfl, rfl, rfl⟩
  have imports : (l.imports.map importOf).filter (·.name = "xsl:param") = [] := by
    simp [importOf, Element.name]
  have rules : (l.roots.map RootRule.toXml).filter (·.name = "xsl:param") = [] := by
    simp [RootRule.toXml, Element.name]
  have templates : (l.templates.map Template.toXml).filter (·.name = "xsl:param") = [] := by
    simp [Template.toXml, template, Element.name]
  have parameters : (bindingParameters l.bindings).filter (·.name = "xsl:param") =
      bindingParameters l.bindings := rfl
  obtain ⟨output, globals, functions, entries, values⟩ := fixed
  simp only [toXml, Element.children, List.filter_append, imports, output, parameters, globals,
    functions, entries, rules, templates, values, List.nil_append, List.append_nil]

/-- The parameters that a reader finds at the top of a stylesheet. -/
theorem parameters_read {n : Node} (h : Xml.Reads [] (toXml l) n) :
    List.Forall₂ (Xml.ReadAs "xsl" Vocabulary.xslt) (bindingParameters l.bindings)
      (n.childrenNamed Vocabulary.xslt "param") := by
  have named : ∀ tag ∈ topNames, rawName? tag = some ⟨"xsl", "param"⟩ ↔ tag = "xsl:param" := by
    decide
  have top := children_top l
  rw [← parameters_top, childrenNamed_eq, ← filter_elements]
  refine picked_read (children_read h (declares_language l) fun e member => (top e member).1) ?_
  exact picks_one (fun e member => named e.name (top e member).2) fun last => by simp

end RdfXmlMapping.Lowering
