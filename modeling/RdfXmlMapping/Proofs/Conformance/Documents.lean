import RdfXmlMapping.Conformance.Schema
import RdfXmlMapping.Proofs.Schema.Readable
import RdfXmlMapping.Proofs.Schema.Resolution
import RdfXmlMapping.Proofs.Schema.Shapes

/-!
Schema documents as the checks take them in. Where the prefixes are made of name characters, a
reader finds the namespaces, the imports and the declarations that were written (`Schema.found`).
-/

namespace RdfXmlMapping

open Conformance
open Xml (Attributes Element Node Reads StartTag Tagged isNamePart rawName? readValue valuesOf)

variable {schema : Schema} {n : Node}

/-- The prefixes that a schema declares are made of name characters. -/
def Schema.PrefixesNamed (schema : Schema) : Prop :=
  (∀ own ∈ schema.target.map (·.1), ∀ c ∈ own.toList, isNamePart c) ∧
    ∀ e ∈ schema.imports, ∀ own ∈ e.bound, ∀ c ∈ own.toList, isNamePart c

namespace Schema

/-! ### The document element -/

/-- The keys that the document element always may have. -/
def headKeys : List String :=
  ["xmlns:xs", "xmlns:vc", "vc:minVersion", "version", "elementFormDefault", "targetNamespace"]

/-- A prefix of the schema with its namespace. -/
def Declares (schema : Schema) (own uri : String) : Prop :=
  schema.target = some (own, uri) ∨
    ∃ e ∈ schema.imports, e.bound = some own ∧ e.descriptor.uri = some uri

theorem importBinding_some {e : Import.Entry} {a : String × String} (h : importBinding e = some a) :
    ∃ own uri, e.bound = some own ∧ e.descriptor.uri = some uri ∧ a = ("xmlns:" ++ own, uri) := by
  unfold importBinding at h
  split at h
  next own uri bound read => exact ⟨own, uri, bound, read, (Option.some.inj h).symm⟩
  next => cases h

theorem headAttributes_key {a : String × String} (member : a ∈ headAttributes schema) :
    a.1 ∈ headKeys ∨ ∃ own uri, schema.Declares own uri ∧ a = ("xmlns:" ++ own, uri) := by
  rcases List.mem_append.mp member with member | imported
  · rcases List.mem_append.mp member with fixed | target
    · have all : ∀ a ∈ [("xmlns:xs", Vocabulary.xmlSchema),
          ("xmlns:vc", Vocabulary.xmlSchemaVersioning), ("vc:minVersion", "1.1"),
          ("version", "1.1"), ("elementFormDefault", "unqualified")], a.1 ∈ headKeys := by decide
      exact .inl (all a fixed)
    · cases read : schema.target with
      | none => simp [read] at target
      | some pair =>
        obtain ⟨own, uri⟩ := pair
        have both : a = ("targetNamespace", uri) ∨ a = ("xmlns:" ++ own, uri) := by
          simpa [read] using target
        have fixed : "targetNamespace" ∈ headKeys := by decide
        rcases both with rfl | rfl
        · exact .inl fixed
        · exact .inr ⟨own, uri, .inl read, rfl⟩
  · obtain ⟨e, present, made⟩ := List.mem_filterMap.mp imported
    obtain ⟨own, uri, bound, read, rfl⟩ := importBinding_some made
    exact .inr ⟨own, uri, .inr ⟨e, present, bound, read⟩, rfl⟩

theorem headAttributes_declares {own uri : String} (h : schema.Declares own uri) :
    ("xmlns:" ++ own, uri) ∈ headAttributes schema := by
  rcases h with target | ⟨e, present, bound, read⟩
  · refine List.mem_append_left _ (List.mem_append_right _ ?_)
    simp [target]
  · refine List.mem_append_right _ (List.mem_filterMap.mpr ⟨e, present, ?_⟩)
    rw [importBinding, bound, read]

theorem PrefixesNamed.declared {own uri : String} (named : schema.PrefixesNamed)
    (h : schema.Declares own uri) : ∀ c ∈ own.toList, isNamePart c := by
  rcases h with target | ⟨e, present, bound, _⟩
  · exact named.1 own (by simp [target])
  · exact named.2 e present own bound

/-- The keys that the checks look for at the document element. -/
def soughtKeys : List String := "targetNamespace" :: referenceKeys

theorem headAttributes_named (named : schema.PrefixesNamed) {key : String}
    (sought : key ∈ soughtKeys) :
    ∀ a ∈ headAttributes schema, rawName? a.1 = some ⟨"", key⟩ ↔ a.1 = key := by
  intro a member
  rcases headAttributes_key member with fixed | ⟨own, uri, declares, rfl⟩
  · have all : ∀ written ∈ headKeys, ∀ key ∈ soughtKeys,
        rawName? written = some ⟨"", key⟩ ↔ written = key := by decide
    exact all a.1 fixed key sought
  -- A declaration has a prefix, and no key that is sought has a colon.
  · constructor
    · intro written
      obtain ⟨other, _⟩ := Xml.rawName?_declares (named.declared declares) written
      exact absurd (congrArg Xml.RawName.nsPrefix other) (by simp)
    · rintro rfl
      have plain : ∀ key ∈ soughtKeys, ':' ∉ key.toList := by decide
      exact absurd (by simp) (plain _ sought)

theorem headAttributes_prefixed (named : schema.PrefixesNamed) :
    ∀ a ∈ headAttributes schema, ∀ n, rawName? a.1 = some n → n.isDeclaration →
      n.nsPrefix = "xmlns" := by
  intro a member n written declares
  rcases headAttributes_key member with fixed | ⟨own, uri, declared, rfl⟩
  · have all : ∀ key ∈ headKeys, ∀ n ∈ rawName? key, n.isDeclaration → n.nsPrefix = "xmlns" := by
      decide
    exact all a.1 fixed n written declares
  · obtain ⟨rfl, _⟩ := Xml.rawName?_declares (named.declared declared) written
    rfl

theorem lookup_target :
    (headAttributes schema).lookup "targetNamespace" = schema.target.map (·.2) := by
  have imports : (schema.imports.filterMap importBinding).lookup "targetNamespace" = none := by
    refine List.lookup_eq_none_iff.mpr fun a member => ?_
    obtain ⟨e, _, made⟩ := List.mem_filterMap.mp member
    obtain ⟨own, uri, _, _, rfl⟩ := importBinding_some made
    have plain : ':' ∉ "targetNamespace".toList := by decide
    refine bne_iff_ne.mpr fun same => plain ?_
    simp [same]
  rw [headAttributes, List.lookup_append, List.lookup_append, imports]
  cases schema.target with
  | none => rfl
  | some target => rfl

theorem lookup_reference {key : String} (sought : key ∈ referenceKeys) :
    (headAttributes schema).lookup key = none := by
  refine List.lookup_eq_none_iff.mpr fun a member => bne_iff_ne.mpr ?_
  rintro rfl
  have none : a ∈ referring (headAttributes schema) :=
    List.mem_filter.mpr ⟨member, List.contains_iff_mem.mpr sought⟩
  rw [referring_head] at none
  cases none

/-! ### What is found -/

theorem topNames_declaration (d : Declaration) :
    d.toXml.name ∈ ["xs:element", "xs:complexType", "xs:group"] := by
  cases d with
  | root name title content =>
    cases content with
    | typed type =>
      rw [Declaration.toXml]
      split <;> simp [Element.name]
    | nested | grouped => simp [Declaration.toXml, Element.name]
  | _ => simp [Declaration.toXml, Element.name]

/-- The values of an attribute of the imports. -/
theorem valuesOf_imports {tag : String} (other : tag ∉ ["xs:element", "xs:complexType", "xs:group"])
    (key : String) : valuesOf tag key (toXml schema).children =
      valuesOf tag key (if schema.importsXml then
        [Element.leaf "xs:import"
          [("namespace", Vocabulary.xml), ("schemaLocation", Vocabulary.xmlSchemaLocation)]]
        else []) ++
      valuesOf tag key (schema.imports.map importElement) := by
  have none : valuesOf tag key (schema.declarations.map Declaration.toXml) = [] := by
    refine List.filterMap_eq_nil_iff.mpr fun e member => if_neg ?_
    rintro rfl
    obtain ⟨d, _, rfl⟩ := List.mem_map.mp member
    exact other (topNames_declaration d)
  rw [toXml, Element.children, valuesOf, List.filterMap_append, List.filterMap_append, ← valuesOf,
    ← valuesOf, ← valuesOf, none, List.append_nil]

theorem mem_namespaces {uri : String} :
    uri ∈ valuesOf "xs:import" "namespace" (toXml schema).children ↔
      (schema.importsXml ∧ uri = Vocabulary.xml) ∨
        ∃ e ∈ schema.imports, e.descriptor.uri = some uri := by
  have entry (e : Import.Entry) : (if (importElement e).name = "xs:import" then
      (importElement e).attributes.lookup "namespace" else none) = e.descriptor.uri := by
    unfold importElement
    cases e.descriptor.uri <;> rfl
  rw [valuesOf_imports (by decide), List.mem_append]
  refine or_congr ?_ ?_
  · split
    next used => simp [valuesOf, Element.name, Element.attributes, used]
    next unused => simp [valuesOf, unused]
  · rw [valuesOf, List.filterMap_map, List.mem_filterMap]
    simp only [Function.comp_apply, entry]

theorem included {e : Import.Entry} (present : e ∈ schema.imports)
    (none : e.descriptor.uri = none) :
    e.descriptor.reference ∈ valuesOf "xs:include" "schemaLocation" (toXml schema).children := by
  rw [valuesOf_imports (by decide), valuesOf, valuesOf, List.filterMap_map]
  refine List.mem_append_right _ (List.mem_filterMap.mpr ⟨e, present, ?_⟩)
  simp only [Function.comp_apply, importElement, none]
  rfl

/-- What the checks find in the document of a schema. -/
structure Found (schema : Schema) (n : Node) : Prop where
  named : n.isNamed Vocabulary.xmlSchema "schema"
  language : n.scope.get? (some "xs") = some Vocabulary.xmlSchema
  unprefixed : n.scope.get? none = none
  declared : ∀ own uri, schema.Declares own uri →
    ':' ∉ own.toList ∧ namespaceOf n.scope (some own) = some (some (readValue uri))
  target : (Declarations.ofRoot n).target = schema.target.map (readValue ·.2)
  imported : ∀ uri, uri ∈ (Declarations.ofRoot n).imported ↔
    ∃ written ∈ valuesOf "xs:import" "namespace" (toXml schema).children, uri = readValue written
  included : ∀ e ∈ schema.imports, e.descriptor.uri = none → (Declarations.ofRoot n).hasInclude
  types : (Declarations.ofRoot n).types =
    (topLevel "xs:complexType" (toXml schema).children).map readValue
  groups : (Declarations.ofRoot n).groups =
    (topLevel "xs:group" (toXml schema).children).map readValue
  inner : List.Forall₂ (Xml.ReadIn n.scope) (Element.allOf (toXml schema).children)
    ((Node.descendantsOf n.children).filter Node.isElement)
  silent : ∀ key ∈ referenceKeys, n.attribute? key = none

theorem Found.element (doc : Found schema n) : n.isElement := by
  have named := doc.named
  simp only [Node.isNamed, decide_eq_true_eq] at named
  simp [Node.isElement, named]

theorem namespaceOf_declared {name own uri : String} {attributes : Attributes} {tag : StartTag}
    (tagged : Tagged [] name attributes tag) (member : ("xmlns:" ++ own, uri) ∈ attributes)
    (parts : ∀ c ∈ own.toList, isNamePart c) :
    ':' ∉ own.toList ∧ namespaceOf tag.scope (some own) = some (some (readValue uri)) := by
  obtain ⟨_, _, _, _, _, each⟩ := Xml.tagged_taken tagged
  obtain ⟨b, _, written, _⟩ := forall₂_mem_left each member
  obtain ⟨same, free⟩ := Xml.rawName?_declares parts written
  rw [same] at written
  obtain ⟨belongs, found⟩ := Xml.tagged_declared tagged member written
  refine ⟨free, ?_⟩
  by_cases xml : own = "xml"
  · rw [belongs.mp xml, xml]
    rfl
  · unfold namespaceOf
    split
    next same => exact absurd (Option.some.inj same) xml
    next same => rw [← Option.some.inj same, found xml]; rfl
    next same => cases same

/-- The values that are read at the top of a schema, given the choice of elements. -/
theorem top_read (h : Reads [] (toXml schema) n) (tag key : String) {P : Xml.ExpandedName → Bool}
    (picks : ∀ name ∈ topNames, ∀ r ∈ rawName? name,
      P ⟨some Vocabulary.xmlSchema, r.localName⟩ = decide (name = tag)) :
    (n.children.filter fun n => n.name?.any P).filterMap (·.attribute? key) =
      (valuesOf tag key (toXml schema).children).map readValue := by
  have top := children_top schema
  refine Xml.children_valuesOf h (declares_language schema)
    (fun e member => (top e member).1) ?_ key
  exact fun e member last written => picks e.name (top e member).2 ⟨"xs", last⟩ written

theorem found (named : schema.PrefixesNamed) (h : Reads [] (toXml schema) n) : Found schema n := by
  have whole := h
  obtain ⟨tag, content, tagged, rfl, inside⟩ := h
  have language : tag.scope.get? (some "xs") = some Vocabulary.xmlSchema := by
    have d := declares_language schema
    exact Xml.tagged_get? tagged d.member d.key d.plain d.other
  have quiet : ∀ e ∈ Element.allOf (toXml schema).children, Xml.DeclaresNone e.attributes :=
    fun e member => regular_quiet (regular_schema schema e member)
  have value {key : String} (sought : key ∈ soughtKeys) :=
    have other : ∀ key ∈ soughtKeys, key ≠ "xmlns" := by decide
    Xml.tagged_value tagged (other key sought) (headAttributes_named named sought)
  refine {
    language
    unprefixed := Xml.tagged_unprefixed tagged (headAttributes_prefixed named)
    declared := fun own uri declares =>
      namespaceOf_declared tagged (headAttributes_declares declares) (named.declared declares)
    named := ?_
    target := ?_
    imported := fun uri => ?_
    included := fun e present none => ?_
    types := top_read whole "xs:complexType" "name" (by decide)
    groups := top_read whole "xs:group" "name" (by decide)
    inner := ?_
    silent := fun key refers => ?_ }
  · have written : rawName? "xs:schema" = some ⟨"xs", "schema"⟩ := by decide
    obtain ⟨uri, stands, expanded⟩ := Xml.tagged_name tagged written (by decide)
    obtain rfl := Option.some.inj (stands.symm.trans language)
    simp [Node.isNamed, Node.name?, expanded]
  · have read := @value "targetNamespace" List.mem_cons_self
    rw [lookup_target, Option.map_map] at read
    exact read
  · have read : (Declarations.ofRoot _).imported = _ :=
      top_read whole "xs:import" "namespace" (by decide)
    rw [read, List.mem_map]
    simp only [eq_comm]
  -- An include that was written leaves its location behind, so that there is an item.
  · have read := top_read (P := (·.localName == "include")) whole "xs:include" "schemaLocation"
      (by decide)
    have written := included present none
    refine Bool.not_eq_true' _ |>.mpr (Bool.eq_false_iff.mpr fun empty => ?_)
    rw [itemsOf, List.isEmpty_iff] at empty
    rw [empty, List.filterMap_nil] at read
    rw [List.map_eq_nil_iff.mp read.symm] at written
    cases written
  · have each := Xml.readsAll_all quiet inside
    rwa [Xml.descendantsOf_elements] at each
  · have read := value (List.mem_cons_of_mem _ refers)
    rw [lookup_reference refers] at read
    exact read

end Schema

end RdfXmlMapping
