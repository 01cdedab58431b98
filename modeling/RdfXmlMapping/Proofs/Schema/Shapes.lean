import RdfXmlMapping.Proofs.Schema.References
import RdfXmlMapping.Proofs.Xml.Tree

/-!
The shapes of the elements of a schema document: the name of an element goes with few sets of
attributes (`regular_schema`). All elements but the outermost are read in its scope, and in each a
reader finds the references that were written (`regular_value`).
-/

namespace RdfXmlMapping.Schema

open Xml (Attributes DeclaresNone Element ReadIn rawName? readValue tagged_name tagged_scope
  tagged_value)

/-! ### Shapes -/

/-- The keys of the bounds that are shown. -/
def occursKeys : List (List String) :=
  [[], ["minOccurs"], ["maxOccurs"], ["minOccurs", "maxOccurs"]]

/-- The names of elements with the keys of their attributes. -/
def shapes : List (String × List String) :=
  occursKeys.map (fun keys => ("xs:element", "name" :: "type" :: keys)) ++
  occursKeys.map (fun keys => ("xs:element", "name" :: keys)) ++
  occursKeys.map (fun keys => ("xs:sequence", keys)) ++
  [("xs:import", ["namespace", "schemaLocation"]), ("xs:include", ["schemaLocation"]),
    ("xs:complexType", ["name"]), ("xs:complexType", []), ("xs:complexContent", []),
    ("xs:simpleContent", []), ("xs:extension", ["base"]), ("xs:simpleType", []),
    ("xs:union", ["memberTypes"]), ("xs:group", ["name"]), ("xs:group", ["ref"]),
    ("xs:annotation", []), ("xs:documentation", ["xml:lang"])]

/-- The attribute of the language of a text. -/
def languageAttribute : Element := .leaf "xs:attribute" [("ref", "xml:lang"), ("use", "required")]

/-- The keys of attributes in their order. -/
def keysOf (attributes : Attributes) : List String := attributes.map (·.1)

/-- An element has one of the shapes. Only one attribute is ever declared. -/
def Regular (e : Element) : Prop :=
  (e.name, keysOf e.attributes) ∈ shapes ∨ e = languageAttribute

/-- An element is regular with all that it holds. -/
def RegularAll (es : List Element) : Prop := ∀ e ∈ Element.allOf es, Regular e

variable {es fs : List Element} {e : Element} {name key : String} {attributes : Attributes}

theorem regular_append : RegularAll (es ++ fs) ↔ RegularAll es ∧ RegularAll fs := by
  rw [RegularAll, Element.allOf_append, List.forall_mem_append]
  rfl

theorem regular_iff : RegularAll es ↔ ∀ e ∈ es, RegularAll [e] := by
  simp only [RegularAll, Element.mem_allOf, List.mem_singleton]
  constructor
  · rintro h e member f ⟨_, rfl, inside⟩
    exact h f ⟨_, member, inside⟩
  · rintro h f ⟨e, member, inside⟩
    exact h e member f ⟨e, rfl, inside⟩

theorem regular_nil : RegularAll [] := fun _ member => by cases member

theorem regular_node (keys : List String) (same : keysOf attributes = keys)
    (shape : (name, keys) ∈ shapes) (inner : RegularAll es) :
    RegularAll [.node name attributes es] := by
  rw [RegularAll, Element.allOf, Element.all, Element.allOf, List.append_nil]
  exact List.forall_mem_cons.mpr ⟨.inl (same ▸ shape), inner⟩

theorem regular_leaf (keys : List String) (same : keysOf attributes = keys)
    (shape : (name, keys) ∈ shapes) : RegularAll [.leaf name attributes] := by
  intro e member
  obtain rfl := List.mem_singleton.mp member
  exact .inl (same ▸ shape)

theorem regular_text (keys : List String) (same : keysOf attributes = keys)
    (shape : (name, keys) ∈ shapes) (content : String) :
    RegularAll [.text name attributes content] := by
  intro e member
  obtain rfl := List.mem_singleton.mp member
  exact .inl (same ▸ shape)

theorem occurs_shown (o : Occurs) : keysOf o.attributes ∈ occursKeys := by
  unfold Occurs.attributes
  split <;> split <;> (try split) <;> simp [keysOf, occursKeys]

theorem keysOf_append (a b : Attributes) : keysOf (a ++ b) = keysOf a ++ keysOf b :=
  List.map_append

/-- An element with a name and bounds, whatever they are. -/
theorem regular_named {o : Occurs} (inner : RegularAll es) :
    RegularAll [.node "xs:element" (("name", name) :: o.attributes) es] := by
  have all : ∀ shown ∈ occursKeys, ("xs:element", "name" :: shown) ∈ shapes := by decide
  exact regular_node _ rfl (all _ (occurs_shown o)) inner

theorem regular_anonymous (inner : RegularAll [e]) : RegularAll [anonymousType e] :=
  regular_node [] rfl (by decide) inner

theorem regular_group (q : Xml.QName) : RegularAll [groupReference q] :=
  regular_leaf ["ref"] rfl (by decide)

mutual

theorem regular_particle : ∀ p : Particle, RegularAll [p.toXml]
  | .identity => regular_leaf ["name", "type", "minOccurs"] rfl (by decide)
  | .element name type o => by
    have all : ∀ shown ∈ occursKeys, ("xs:element", "name" :: "type" :: shown) ∈ shapes := by decide
    exact regular_leaf _ (keysOf_append ..) (all _ (occurs_shown o))
  | .union name o members => by
    refine regular_named (regular_node [] rfl (by decide) ?_)
    exact regular_leaf ["memberTypes"] rfl (by decide)
  | .nested name o content => by
    refine regular_named (regular_anonymous (regular_node [] rfl (by decide) ?_))
    exact regular_particles content
  | .grouped name o group => regular_named (regular_anonymous (regular_group group))
  | .sequence o content => by
    have all : ∀ shown ∈ occursKeys, ("xs:sequence", shown) ∈ shapes := by decide
    exact regular_node _ rfl (all _ (occurs_shown o)) (regular_particles content)

theorem regular_particles : ∀ ps : List Particle, RegularAll (particles ps)
  | [] => regular_nil
  | p :: ps => regular_append.mpr ⟨regular_particle p, regular_particles ps⟩

end

theorem regular_sequence (content : List Particle) : RegularAll [sequence content] :=
  regular_node [] rfl (by decide) (regular_particles content)

theorem regular_documentation (title : Labels) : RegularAll (documentation title) := by
  unfold documentation
  split
  · exact regular_nil
  · refine regular_node [] rfl (by decide) (regular_iff.mpr fun e member => ?_)
    obtain ⟨entry, _, rfl⟩ := List.mem_map.mp member
    exact regular_text ["xml:lang"] rfl (by decide) entry.2

/-- Something that is declared with a title. -/
theorem regular_documented {title : Labels} (shape : (name, keysOf attributes) ∈ shapes)
    (inner : RegularAll [e]) : RegularAll [.node name attributes (documentation title ++ [e])] :=
  regular_node _ rfl shape (regular_append.mpr ⟨regular_documentation title, inner⟩)

theorem regular_declaration (d : Declaration) : RegularAll [d.toXml] := by
  have element : ("xs:element", ["name"]) ∈ shapes := by decide
  have type : ("xs:complexType", ["name"]) ∈ shapes := by decide
  cases d with
  | root name title content =>
    cases content with
    | typed type =>
      rw [Declaration.toXml]
      split
      · exact regular_leaf ["name", "type"] rfl (by decide)
      · exact regular_node ["name", "type"] rfl (by decide) (regular_documentation title)
    | nested content =>
      exact regular_documented element (regular_anonymous (regular_sequence content))
    | grouped group => exact regular_documented element (regular_anonymous (regular_group group))
  | complexType name title content => exact regular_documented type (regular_sequence content)
  | extension name title base content =>
    refine regular_documented type (regular_node [] rfl (by decide) ?_)
    exact regular_node ["base"] rfl (by decide) (regular_sequence content)
  | group name content => exact regular_node ["name"] rfl (by decide) (regular_sequence content)
  | placeholder name =>
    refine regular_node ["name"] rfl type (regular_node [] rfl (by decide) ?_)
    exact regular_particle .identity
  | languageText =>
    refine regular_node ["name"] rfl type (regular_node [] rfl (by decide) ?_)
    refine regular_node ["base"] rfl (by decide) fun e member => .inr ?_
    exact List.mem_singleton.mp member

theorem regular_import (e : Import.Entry) : RegularAll [importElement e] := by
  unfold importElement
  split
  · exact regular_leaf ["namespace", "schemaLocation"] rfl (by decide)
  · exact regular_leaf ["schemaLocation"] rfl (by decide)

/-- All elements of a schema document but the outermost are regular. -/
theorem regular_schema (schema : Schema) : RegularAll (toXml schema).children := by
  have language : RegularAll (if schema.importsXml then
      [Element.leaf "xs:import"
        [("namespace", Vocabulary.xml), ("schemaLocation", Vocabulary.xmlSchemaLocation)]]
      else []) := by
    split
    · exact regular_leaf ["namespace", "schemaLocation"] rfl (by decide)
    · exact regular_nil
  have imports : RegularAll (schema.imports.map importElement) := by
    refine regular_iff.mpr fun e member => ?_
    obtain ⟨entry, _, rfl⟩ := List.mem_map.mp member
    exact regular_import entry
  have declarations : RegularAll (schema.declarations.map Declaration.toXml) := by
    refine regular_iff.mpr fun e member => ?_
    obtain ⟨d, _, rfl⟩ := List.mem_map.mp member
    exact regular_declaration d
  exact regular_append.mpr ⟨regular_append.mpr ⟨language, imports⟩, declarations⟩

/-! ### Reading -/

variable {scope : Xml.Scope} {n : Xml.Node} {uri : String}

/-- The shapes together with that of the attribute. -/
def allShapes : List (String × List String) := ("xs:attribute", ["ref", "use"]) :: shapes

theorem regular_shape (h : Regular e) :
    (e.name, keysOf e.attributes) ∈ allShapes := by
  rcases h with shape | rfl
  · exact List.mem_cons_of_mem _ shape
  · exact List.mem_cons_self

theorem regular_name (h : Regular e) : ∃ last, rawName? e.name = some ⟨"xs", last⟩ := by
  have all : ∀ shape ∈ allShapes,
      ∃ n ∈ rawName? shape.1, n.nsPrefix = "xs" := by decide +kernel
  obtain ⟨⟨own, last⟩, written, rfl⟩ := all _ (regular_shape h)
  exact ⟨last, written⟩

theorem regular_quiet (h : Regular e) : DeclaresNone e.attributes := by
  have all : ∀ shape ∈ allShapes, ∀ key ∈ shape.2,
      ∀ n ∈ rawName? key, n.isDeclaration = false := by decide +kernel
  exact fun a member n written => all _ (regular_shape h) a.1 (List.mem_map_of_mem member) n written

theorem regular_once (h : Regular e) : (keysOf e.attributes).Nodup := by
  have all : ∀ shape ∈ allShapes, shape.2.Nodup := by decide
  exact all _ (regular_shape h)

theorem regular_key (h : Regular e) (refers : key ∈ referenceKeys) :
    ∀ a ∈ e.attributes, rawName? a.1 = some ⟨"", key⟩ ↔ a.1 = key := by
  have all : ∀ shape ∈ allShapes, ∀ written ∈ shape.2,
      ∀ key ∈ referenceKeys, rawName? written = some ⟨"", key⟩ ↔ written = key := by
    decide +kernel
  exact fun a member => all _ (regular_shape h) a.1 (List.mem_map_of_mem member) key refers

/-- Only groups are referred to as such, but for the attribute of the language. -/
theorem regular_ref {v : String} (h : Regular e) (member : ("ref", v) ∈ e.attributes) :
    e.name = "xs:group" ∨ v = "xml:lang" := by
  rcases h with shape | rfl
  · have all : ∀ shape ∈ shapes, "ref" ∈ shape.2 → shape.1 = "xs:group" := by decide
    exact .inl (all _ shape (List.mem_map_of_mem member))
  · right
    simpa [languageAttribute, Element.attributes] using member

theorem regular_read (h : Regular e) (read : ReadIn scope e n)
    (stands : scope.get? (some "xs") = some uri) :
    n.scope = scope ∧
      ∃ last, rawName? e.name = some ⟨"xs", last⟩ ∧ n.name? = some ⟨some uri, last⟩ := by
  obtain ⟨tag, content, tagged, rfl⟩ := read
  obtain ⟨last, written⟩ := regular_name h
  obtain ⟨uri', found, named⟩ := tagged_name tagged written (by decide)
  rw [tagged_scope tagged (regular_quiet h), stands] at found
  obtain rfl := Option.some.inj found
  exact ⟨rfl, last, written, congrArg some named⟩

/-- The references that are read in an element are those written. -/
theorem regular_value (h : Regular e) (read : ReadIn scope e n) (refers : key ∈ referenceKeys) :
    n.attribute? key = (e.attributes.lookup key).map readValue := by
  obtain ⟨tag, content, tagged, rfl⟩ := read
  have other : ∀ key ∈ referenceKeys, key ≠ "xmlns" := by decide
  exact tagged_value tagged (other key refers) (regular_key h refers)

theorem lookup_iff {v : String} (once : (keysOf attributes).Nodup) :
    attributes.lookup key = some v ↔ (key, v) ∈ attributes := by
  induction attributes with
  | nil => simp
  | cons a as ih =>
    obtain ⟨written, value⟩ := a
    obtain ⟨new, once⟩ := List.nodup_cons.mp once
    by_cases same : key = written
    · subst same
      have absent : (key, v) ∉ as := fun member =>
        new (List.mem_map.mpr ⟨_, member, rfl⟩)
      simp [absent, eq_comm]
    · rw [List.lookup_cons, beq_eq_false_iff_ne.mpr same, ih once]
      simp [same]

/-! ### All references -/

mutual

theorem references_all : ∀ e : Element, references e = e.all.flatMap (referring ·.attributes)
  | .node name attributes es => by
    rw [references, referencesIn_all es]
    rfl
  | .leaf name attributes | .text name attributes _ => by
    rw [references, Element.all, List.flatMap_singleton]
    rfl

theorem referencesIn_all : ∀ es : List Element,
    referencesIn es = (Element.allOf es).flatMap (referring ·.attributes)
  | [] => rfl
  | e :: es => by
    rw [referencesIn, Element.allOf, List.flatMap_append, references_all e, referencesIn_all es]

end

end RdfXmlMapping.Schema
