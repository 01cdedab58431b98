import RdfXmlMapping.Proofs.Schema.Shapes

/-!
Schemas can be read back. Every name in a schema is one of the language, so a reader who takes in
the document element finds the declarations that were written (`children_valuesOf`).
-/

namespace RdfXmlMapping.Schema

open Xml

mutual

theorem isReadable_all : ∀ e : Element,
    isReadable e = e.all.all fun f => isTagName f.name && (keysOf f.attributes).all isKey
  | .node name attributes es => by
    rw [isReadable, Element.all, List.all_cons, areReadable_all es, keysOf, List.all_map]
    rfl
  | .leaf name attributes | .text name attributes _ => by
    rw [isReadable, Element.all, List.all_cons, List.all_nil, Bool.and_true, keysOf, List.all_map]
    rfl

theorem areReadable_all : ∀ es : List Element, areReadable es =
    (Element.allOf es).all fun f => isTagName f.name && (keysOf f.attributes).all isKey
  | [] => rfl
  | e :: es => by
    rw [areReadable, Element.allOf, List.all_append, isReadable_all e, areReadable_all es]

end

theorem regular_readable {es : List Element} (regular : RegularAll es) : areReadable es := by
  have good : ∀ shape ∈ allShapes, isTagName shape.1 && shape.2.all isKey := by
    decide +kernel
  rw [areReadable_all]
  exact List.all_eq_true.mpr fun e member => good _ (regular_shape (regular e member))

theorem readable_schema {schema : Schema} (keys : (headAttributes schema).all (isKey ·.1)) :
    isReadable (toXml schema) := by
  have head : isTagName "xs:schema" := by decide
  have inside : areReadable (toXml schema).children := regular_readable (regular_schema schema)
  exact (Bool.and_eq_true _ _).mpr ⟨(Bool.and_eq_true _ _).mpr ⟨head, keys⟩, inside⟩

theorem headAttributes_keys {schema : Schema}
    (target : ∀ own ∈ schema.target.map (·.1), '=' ∉ own.toList)
    (imports : ∀ e ∈ schema.imports, ∀ own ∈ e.bound, '=' ∉ own.toList) :
    (headAttributes schema).all (isKey ·.1) := by
  have bindings : (schema.imports.filterMap importBinding).all (isKey ·.1) := by
    refine List.all_eq_true.mpr fun a member => ?_
    obtain ⟨e, present, bound⟩ := List.mem_filterMap.mp member
    unfold importBinding at bound
    split at bound
    next own uri named _ =>
      obtain rfl := Option.some.inj bound
      exact isKey_xmlns.mpr (imports e present own named)
    next => cases bound
  rw [headAttributes, List.all_append, List.all_append, bindings, Bool.and_true, Bool.and_eq_true]
  refine ⟨by decide, ?_⟩
  cases written : schema.target with
  | none => rfl
  | some pair =>
    have free : isKey ("xmlns:" ++ pair.1) := isKey_xmlns.mpr (target pair.1 (by simp [written]))
    simp +decide [free]

theorem declares_language (schema : Schema) :
    DeclaredIn "xs" Vocabulary.xmlSchema (headAttributes schema) where
  member := List.mem_append_left _ (List.mem_append_left _ List.mem_cons_self)
  key := by decide
  plain := by decide
  other := by decide
  qualified := by decide

/-! ### What stands at the top -/

/-- The elements that stand at the top of a schema. -/
def topNames : List String :=
  ["xs:import", "xs:include", "xs:element", "xs:complexType", "xs:group"]

theorem top_import (e : Import.Entry) : (importElement e).name ∈ topNames := by
  unfold importElement
  split <;> simp [Element.name, topNames]

theorem top_declaration (d : Declaration) : d.toXml.name ∈ topNames := by
  cases d with
  | root name title content =>
    cases content with
    | typed type =>
      rw [Declaration.toXml]
      split <;> simp [Element.name, topNames]
    | nested | grouped => simp [Declaration.toXml, Element.name, topNames]
  | _ => simp [Declaration.toXml, Element.name, topNames]

theorem top_named (schema : Schema) : ∀ e ∈ (toXml schema).children, e.name ∈ topNames := by
  intro e member
  rcases List.mem_append.mp member with before | declared
  · rcases List.mem_append.mp before with language | imported
    · split at language
      · obtain rfl := List.mem_singleton.mp language
        exact List.mem_cons_self
      · cases language
    · obtain ⟨entry, _, rfl⟩ := List.mem_map.mp imported
      exact top_import entry
  · obtain ⟨d, _, rfl⟩ := List.mem_map.mp declared
    exact top_declaration d

theorem children_top (schema : Schema) :
    ∀ e ∈ (toXml schema).children, isPlain "xs" e ∧ e.name ∈ topNames := by
  intro e member
  have plain : ∀ shape ∈ allShapes, shape.1 ∈ topNames →
      shape.2.all isPlainKey && (rawName? shape.1).any (·.nsPrefix = "xs") := by decide +kernel
  have named := top_named schema e member
  have outermost : e ∈ e.all := by cases e <;> exact List.mem_cons_self
  have shape :=
    regular_shape (regular_schema schema e (Element.mem_allOf.mpr ⟨e, member, outermost⟩))
  have both := plain _ shape named
  rw [keysOf, List.all_map] at both
  exact ⟨both, named⟩

/-- The names that a reader finds at the global elements of a schema. -/
theorem elements_read {schema : Schema} {n : Node} (h : Reads [] (toXml schema) n)
    {P : Xml.ExpandedName → Bool}
    (chosen : ∀ last, P ⟨some Vocabulary.xmlSchema, last⟩ = decide (last = "element")) :
    (n.children.filter fun n => n.name?.any P).filterMap (·.attribute? "name") =
      (valuesOf "xs:element" "name" (toXml schema).children).map readValue := by
  have named : ∀ tag ∈ topNames, rawName? tag = some ⟨"xs", "element"⟩ ↔ tag = "xs:element" := by
    decide +kernel
  have top := children_top schema
  exact children_valuesOf h (declares_language schema) (fun e member => (top e member).1)
    (picks_one (fun e member => named e.name (top e member).2) chosen) "name"

end RdfXmlMapping.Schema
