import RdfXmlMapping.Proofs.Lifting.Readable
import RdfXmlMapping.Proofs.Schema.Declared
import RdfXmlMapping.Proofs.Schema.Readable

/-!
The roots of a model in its artifacts. The schema declares an element for each root, one stylesheet
has a rule that matches it and the other a rule that writes it, all in the order in which the model
first mentions the roots (`roots_agree`).
-/

namespace RdfXmlMapping

open Xml (Element Node valuesOf)

/-- What follows the last colon of a name. -/
def localName (name : String) : String := .ofList (name.toList.reverse.takeWhile (· ≠ ':')).reverse

namespace Schema

/-- The names of the global elements of a schema. -/
def globalElements (e : Element) : List String := valuesOf "xs:element" "name" e.children

end Schema

namespace Lifting

/-- The names of the elements that the rules of a stylesheet match at the root of a document. -/
def matchedElements (e : Element) : List String :=
  (valuesOf "xsl:template" "match" e.children).filterMap Conformance.rootName?

end Lifting

namespace Lowering

/-- A rule for the instances of a root class; no other rule has a priority. -/
def isRootRule (e : Element) : Bool :=
  e.name = "xsl:template" ∧ (e.attributes.lookup "priority").isSome

/-- The names of the elements that the rules of a stylesheet write as the root of a document. -/
def writtenElements (e : Element) : List String :=
  (e.children.filter isRootRule).flatMap fun rule => rule.children.map fun e => localName e.name

end Lowering

/-! ### Names with a prefix -/

variable {s : Source}

theorem localName_text (own : Option String) {name : String} (free : ':' ∉ name.toList) :
    localName (⟨own, name⟩ : Xml.QName).text = name := by
  have passes : ∀ c ∈ name.toList.reverse, decide (c ≠ ':') = true := by
    intro c member
    refine decide_eq_true ?_
    rintro rfl
    exact free (List.mem_reverse.mp member)
  suffices last : (⟨own, name⟩ : Xml.QName).text.toList.reverse.takeWhile (· ≠ ':') =
      name.toList.reverse by
    rw [localName, last, List.reverse_reverse, String.ofList_toList]
  cases own with
  | none => exact List.takeWhile_eq_self_iff.mpr passes
  | some own =>
    have written : (own ++ ":" ++ name).toList.reverse =
        name.toList.reverse ++ ':' :: own.toList.reverse := by simp
    rw [Xml.QName.text, written, List.takeWhile_append_of_pos passes]
    simp

theorem rootName?_rule {name : String} (filled : name ≠ "") :
    Conformance.rootName? ("/" ++ name) = some (localName name) := by
  obtain ⟨c, cs, written⟩ := List.exists_cons_of_ne_nil (mt String.toList_eq_nil_iff.mp filled)
  have slash : ("/" ++ name).toList = '/' :: c :: cs := by simp [written]
  rw [Conformance.rootName?, slash, localName, written]
  rfl

/-! ### The generators -/

theorem Schema.RootDeclared.bears {x : Plan} {final : Progress} {c : Class} {d : Declaration}
    (h : RootDeclared x final c d) : d.Bears "xs:element" (Model.elementName c) := by
  cases h with
  | typed =>
    unfold Declaration.Bears Declaration.toXml
    dsimp only
    split <;> exact ⟨rfl, rfl⟩
  | grouped => exact ⟨rfl, rfl⟩
  | whole => exact ⟨rfl, rfl⟩

theorem Schema.topLevel_roots {x : Plan} {final : Progress} {cs : List Class}
    {ds : List Declaration} (h : List.Forall₂ (RootDeclared x final) cs ds) :
    topLevel "xs:element" (ds.map Declaration.toXml) = cs.map Model.elementName := by
  induction h with
  | nil => rfl
  | cons first _ ih =>
    obtain ⟨tag, named⟩ := first.bears
    rw [topLevel] at ih ⊢
    rw [List.map_cons, List.filterMap_cons, if_pos tag, named, ih]
    rfl

theorem Schema.generate_elements {schema : Schema} {cs : List Class}
    (found : s.model.rootClasses = .ok cs) (h : generate s = .ok schema) :
    globalElements (toXml schema) = cs.map Model.elementName := by
  obtain ⟨_, _, _, run, _⟩ := generate_run h
  obtain ⟨o, _, _⟩ := generate_history h run
  obtain ⟨before, children, imports, _, _⟩ := o.children_eq
  have others : topLevel "xs:element" (o.others.map Declaration.toXml) = [] := by
    rw [topLevel_answers o.answers]
    refine List.eq_nil_iff_forall_not_mem.mpr fun name member => ?_
    obtain ⟨p, _, tag, _⟩ := mem_requestedNames.mp member
    cases p <;> simp [Pending.tag] at tag
  have language :
      topLevel "xs:element" ((languageDeclarations o.final).map Declaration.toXml) = [] := by
    unfold languageDeclarations
    split <;> rfl
  have head : topLevel "xs:element" before = [] := topLevel_nil fun e member same => by
    rcases imports e member with tag | tag <;> exact absurd (tag.symm.trans same) (by decide)
  have roots : topLevel "xs:element" (o.roots.map Declaration.toXml) = cs.map Model.elementName :=
    topLevel_roots (o.roots_declared found)
  change topLevel "xs:element" (toXml schema).children = _
  rw [children, topLevel_append, topLevel_append, topLevel_append, head, roots, others, language]
  simp

theorem Lifting.generate_roots {l : Lifting} {cs : List Class}
    (found : s.model.rootClasses = .ok cs) (h : generate s = .ok l) :
    l.roots.map (·.element) =
      cs.map fun c => Stylesheet.targetName s.model.target? (Model.elementName c) := by
  obtain ⟨_, _, _, made⟩ := generate_made h
  obtain rfl := Except.ok.inj (found.symm.trans made.found)
  refine (forall₂_map_eq (runs_forall₂ made.roots fun c _ r s t run => ?_)).symm
  obtain ⟨_, _, rfl⟩ := rootRule_made run
  rfl

theorem Lowering.rootRules_elements {x : Plan} {u v : Progress} {cs : List Class}
    {rules : List RootRule} (h : RulesMade x cs rules u v) : rules.map (·.element) =
      cs.map fun c => Stylesheet.targetName x.model.target? (Model.elementName c) := by
  induction h with
  | nil => rfl
  | cons _ _ _ ih => rw [List.map_cons, List.map_cons, ih]

theorem Lowering.generate_roots {l : Lowering} {cs : List Class}
    (found : s.model.rootClasses = .ok cs) (h : generate s = .ok l) :
    l.roots.map (·.element) =
      cs.map fun c => Stylesheet.targetName s.model.target? (Model.elementName c) := by
  obtain ⟨_, _, _, made⟩ := generate_made h
  obtain rfl := Except.ok.inj (found.symm.trans made.found)
  exact rootRules_elements made.roots

/-! ### The documents -/

theorem Xml.valuesOf_append (tag key : String) (es fs : List Element) :
    valuesOf tag key (es ++ fs) = valuesOf tag key es ++ valuesOf tag key fs :=
  List.filterMap_append

theorem Lifting.patterns_eq (l : Lifting) : valuesOf "xsl:template" "match" (toXml l).children =
    (l.roots.map fun r => "/" ++ r.element.text) ++ ["@*|node()"] := by
  have imports : valuesOf "xsl:template" "match" (l.imports.map Stylesheet.importOf) = [] := by
    simp [valuesOf, Stylesheet.importOf, Element.name]
  have templates : valuesOf "xsl:template" "match" (l.templates.map Template.toXml) = [] := by
    simp [valuesOf, Template.toXml, Stylesheet.template, Element.name, Element.attributes]
  have helpers : valuesOf "xsl:template" "match" [Stylesheet.outputMethod] = [] ∧
      valuesOf "xsl:template" "match" [nodeTemplate, identityRule] = ["@*|node()"] := ⟨rfl, rfl⟩
  have rules : valuesOf "xsl:template" "match" (l.roots.map RootRule.toXml) =
      l.roots.map fun r => "/" ++ r.element.text := by
    rw [valuesOf, List.filterMap_map, ← List.filterMap_eq_map]
    rfl
  simp only [toXml, Element.children, Xml.valuesOf_append, imports, templates, helpers, rules,
    List.nil_append, List.append_nil]

/-- The rules match the elements of the roots, whatever a reader makes of their prefixes. -/
theorem Lifting.rootNames_patterns {l : Lifting} {cs : List Class} (read : String → String)
    (roots : l.roots.map (·.element) =
      cs.map fun c => Stylesheet.targetName s.model.target? (Model.elementName c))
    (rules : ∀ c ∈ cs, Conformance.rootName? (read ("/" ++
      (Stylesheet.targetName s.model.target? (Model.elementName c)).text)) =
        some (Model.elementName c))
    (other : Conformance.rootName? (read "@*|node()") = none) :
    ((valuesOf "xsl:template" "match" (toXml l).children).map read).filterMap
      Conformance.rootName? = cs.map Model.elementName := by
  have patterns : (l.roots.map fun r => "/" ++ r.element.text) =
      cs.map fun c =>
        "/" ++ (Stylesheet.targetName s.model.target? (Model.elementName c)).text := by
    have texts := congrArg (List.map fun q : Xml.QName => "/" ++ q.text) roots
    rwa [List.map_map, List.map_map] at texts
  have last : (["@*|node()"].map read).filterMap Conformance.rootName? = [] := by simp [other]
  rw [patterns_eq, List.map_append, List.filterMap_append, last, List.append_nil, patterns,
    List.map_map, List.filterMap_map, ← List.filterMap_eq_map]
  exact List.filterMap_congr rules

theorem Lowering.rootRules_filter (l : Lowering) :
    (toXml l).children.filter isRootRule = l.roots.map RootRule.toXml := by
  have imports : (l.imports.map Stylesheet.importOf).filter isRootRule = [] := by
    simp [isRootRule, Stylesheet.importOf, Element.name]
  have templates : (l.templates.map Template.toXml).filter isRootRule = [] := by
    simp [isRootRule, Template.toXml, Stylesheet.template, Element.name, Element.attributes]
  have helpers : [Stylesheet.outputMethod].filter isRootRule = [] ∧
      (bindingParameters l.bindings).filter isRootRule = [] ∧
      globalVariables.filter isRootRule = [] ∧
      functions.filter isRootRule = [] ∧ entryRules.filter isRootRule = [] ∧
      valueRules.filter isRootRule = [] := ⟨rfl, rfl, rfl, rfl, rfl, rfl⟩
  have rules : (l.roots.map RootRule.toXml).filter isRootRule = l.roots.map RootRule.toXml := by
    refine List.filter_eq_self.mpr fun e member => ?_
    obtain ⟨r, _, rfl⟩ := List.mem_map.mp member
    rfl
  simp only [toXml, Element.children, List.filter_append, imports, templates, helpers, rules,
    List.nil_append, List.append_nil]

theorem Lowering.writtenElements_eq (l : Lowering) :
    writtenElements (toXml l) = l.roots.map fun r => localName r.element.text := by
  rw [writtenElements, rootRules_filter, List.flatMap_map, List.map_eq_flatMap]
  rfl

/-! ### The lists -/

theorem elementName_colon (c : Class) : ':' ∉ (Model.elementName c).toList :=
  not_mem_of_isPart (toNCName_part c.label) (by decide)

theorem rootName?_element (own : Option String) (c : Class) :
    Conformance.rootName? ("/" ++ (⟨own, Model.elementName c⟩ : Xml.QName).text) =
      some (Model.elementName c) := by
  have filled : (⟨own, Model.elementName c⟩ : Xml.QName).text ≠ "" := by
    intro empty
    have none : localName "" = "" := by decide
    have plain := congrArg localName empty
    rw [localName_text own (elementName_colon c), none] at plain
    exact toNCName_ne_nil c.label (String.toList_eq_nil_iff.mpr plain)
  rw [rootName?_rule filled, localName_text own (elementName_colon c)]

theorem Lifting.generate_matches {l : Lifting} {cs : List Class}
    (found : s.model.rootClasses = .ok cs) (h : generate s = .ok l) :
    matchedElements (toXml l) = cs.map Model.elementName := by
  have none : Conformance.rootName? "@*|node()" = none := by decide
  have read := rootNames_patterns id (generate_roots found h)
    (fun c _ => rootName?_element _ c) none
  rwa [List.map_id] at read

theorem Lowering.generate_writes_roots {l : Lowering} {cs : List Class}
    (found : s.model.rootClasses = .ok cs) (h : generate s = .ok l) :
    writtenElements (toXml l) = cs.map Model.elementName := by
  have names := congrArg (List.map fun q : Xml.QName => localName q.text) (generate_roots found h)
  rw [List.map_map, List.map_map] at names
  rw [writtenElements_eq]
  refine names.trans (List.map_congr_left fun c _ => ?_)
  exact localName_text _ (elementName_colon c)

end RdfXmlMapping
