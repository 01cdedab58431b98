import RdfXmlMapping.Proofs.Import.Table
import RdfXmlMapping.Text.Replace
import RdfXmlMapping.Xml.Element

/-!
Names with prefixes, and what they stand for in a document. The prefixes of imports are never in
each other's way, and not in the way of those that the document reserves.
-/

namespace RdfXmlMapping

open Xml (Attributes QName)

/-- A namespace, if there is one, and a local name. -/
abbrev ExpandedName := Option String × String

def declaredPrefix? (key : String) : Option String :=
  (Text.after? "xmlns:".toList key.toList).map String.ofList

def namespaces (attributes : Attributes) : List (String × String) :=
  attributes.filterMap fun (key, value) => (declaredPrefix? key).map fun name => (name, value)

/-- What a name stands for in an element with attributes. Without a prefix it is in no namespace.
Nothing stands for anything if a prefix is declared twice. -/
def Expands (attributes : Attributes) (q : QName) (n : ExpandedName) : Prop :=
  ((namespaces attributes).map (·.1)).Nodup ∧ n.2 = q.localName ∧
    match q.nsPrefix with
    | none => n.1 = none
    | some name => ∃ uri, n.1 = some uri ∧ (name, uri) ∈ namespaces attributes

theorem declaredPrefix?_append (name : String) :
    declaredPrefix? ("xmlns:" ++ name) = some name := by
  simp [declaredPrefix?, Text.after?]

/-- A declaration is none of the attributes that declare no prefix. -/
theorem declaration_notMem {keys : List String} (plain : ∀ key ∈ keys, declaredPrefix? key = none)
    (name : String) : "xmlns:" ++ name ∉ keys := by
  intro member
  have declares := (declaredPrefix?_append name).symm.trans (plain _ member)
  cases declares

theorem namespaces_append (a b : Attributes) : namespaces (a ++ b) = namespaces a ++ namespaces b :=
  List.filterMap_append ..

variable {attributes : Attributes} {n : ExpandedName} {name uri : String}

theorem expands_plain : Expands attributes ⟨none, name⟩ n ↔
    ((namespaces attributes).map (·.1)).Nodup ∧ n = (none, name) := by
  rw [Expands, Prod.ext_iff, and_comm (a := n.2 = name)]

/-- A prefix that is declared leads to its namespace and to no other. -/
theorem expands_declared {own : String} (declared : (own, uri) ∈ namespaces attributes) :
    Expands attributes ⟨some own, name⟩ n ↔
      ((namespaces attributes).map (·.1)).Nodup ∧ n = (some uri, name) := by
  rw [Expands, Prod.ext_iff, and_comm (a := n.2 = name)]
  refine and_congr_right fun once => and_congr_left fun _ => ?_
  constructor
  · rintro ⟨other, same, found⟩
    rw [same, (Prod.mk.inj (List.inj_on_of_nodup_map once found declared rfl)).2]
  · exact fun same => ⟨uri, same, declared⟩

/-! ### Declarations of a document -/

namespace Import

def Entry.namespace? (e : Entry) : Option (String × String) :=
  match e.bound, e.descriptor.uri with
  | some name, some uri => some (name, uri)
  | _, _ => none

/-- The prefixes that a document with imports declares: some of its own, that of its target, and
those of the imports. -/
def declarations (fixed : List (String × String)) (target : Option (String × String))
    (entries : List Entry) : List (String × String) :=
  fixed ++ target.toList ++ entries.filterMap Entry.namespace?

variable {fixed : List (String × String)} {target : Option (String × String)} {t : Table}

theorem namespace?_prefixes (sound : t.Sound) :
    (t.entries.filterMap Entry.namespace?).map (·.1) = t.entries.filterMap (·.bound) := by
  rw [List.map_filterMap]
  refine List.filterMap_congr fun e member => ?_
  have both := sound.bound e member
  rw [Entry.namespace?]
  cases bound : e.bound with
  | none => rfl
  | some name =>
    rw [bound] at both
    obtain ⟨uri, read⟩ := Option.isSome_iff_exists.mp both.symm
    rw [read]
    rfl

/-- A document declares no prefix twice exactly if the prefix of its target is none of its own. -/
theorem declarations_nodup (distinct : (fixed.map (·.1)).Nodup) (sound : t.Sound)
    (reserved : ∀ p ∈ (fixed ++ target.toList).map (·.1), p ∈ t.reserved) :
    ((declarations fixed target t.entries).map (·.1)).Nodup ↔
      ∀ own uri, target = some (own, uri) → own ∉ fixed.map (·.1) := by
  have apart : List.Disjoint ((fixed ++ target.toList).map (·.1))
      (t.entries.filterMap (·.bound)) := by
    intro p first second
    obtain ⟨e, member, bound⟩ := List.mem_filterMap.mp second
    exact (sound.free e member p bound).1 (reserved p first)
  rw [declarations, List.map_append, namespace?_prefixes sound, List.nodup_append']
  have rest : (t.entries.filterMap (·.bound)).Nodup ∧ List.Disjoint
      ((fixed ++ target.toList).map (·.1)) (t.entries.filterMap (·.bound)) :=
    ⟨sound.prefixes, apart⟩
  rw [and_iff_left rest]
  cases target with
  | none => simpa using distinct
  | some own =>
    rw [List.map_append, List.nodup_append', and_iff_right distinct]
    constructor
    · rintro ⟨_, different⟩ name uri same member
      obtain rfl := Option.some.inj same
      exact different member List.mem_cons_self
    · refine fun different => ⟨List.nodup_singleton _, fun p member last => ?_⟩
      obtain rfl := List.mem_singleton.mp last
      exact different own.1 own.2 rfl member

/-- The prefix of an import leads to its namespace; without a namespace there is no prefix. -/
theorem expands_entry {e : Entry} (declared : namespaces attributes = declarations fixed target
      t.entries) (sound : t.Sound) (member : e ∈ t.entries) :
    Expands attributes ⟨e.bound, name⟩ n ↔
      ((namespaces attributes).map (·.1)).Nodup ∧ n = (e.descriptor.uri, name) := by
  have both := sound.bound e member
  cases bound : e.bound with
  | none =>
    rw [bound] at both
    have none : e.descriptor.uri = none := by
      cases read : e.descriptor.uri with
      | none => rfl
      | some uri => rw [read] at both; cases both
    rw [none]
    exact expands_plain
  | some own =>
    rw [bound] at both
    obtain ⟨uri, read⟩ := Option.isSome_iff_exists.mp both.symm
    rw [read]
    refine expands_declared ?_
    rw [declared]
    refine List.mem_append_right _ (List.mem_filterMap.mpr ⟨e, member, ?_⟩)
    rw [Entry.namespace?, bound, read]

theorem expands_target {entries : List Entry}
    (declared : namespaces attributes = declarations fixed target entries) :
    Expands attributes ⟨target.map (·.1), name⟩ n ↔
      ((namespaces attributes).map (·.1)).Nodup ∧ n = (target.map (·.2), name) := by
  cases target with
  | none => exact expands_plain
  | some own =>
    refine @expands_declared _ _ _ own.2 _ ?_
    rw [declared, declarations]
    exact List.mem_append_left _ (List.mem_append_right _ List.mem_cons_self)

end Import

end RdfXmlMapping
