import Mathlib
import RdfXmlMapping.Proofs.Schema.Declared
import RdfXmlMapping.Proofs.TypeNames

/-!
What a schema says about the content of its elements, apart from how it is split up into
declarations. References are followed down to some depth; what is found there are trees of elements,
in which no declared name occurs.
-/

namespace RdfXmlMapping.Schema

open Xml (QName)

/-- What may stand in the content of an element, down to some depth. -/
inductive Tree where
  /-- An element with a value of a simple type. -/
  | plain (name : String) (occurs : Occurs) (type : String)
  /-- An element with a value of one of several simple types. -/
  | union (name : String) (occurs : Occurs) (types : List String)
  /-- An element with a text and its language. -/
  | languageText (name : String) (occurs : Occurs)
  | element (name : String) (occurs : Occurs) (content : List Tree)
  | sequence (occurs : Occurs) (content : List Tree)
  deriving Repr

/-- The element of the identity. -/
def identityTree : Tree := .plain identityElement ⟨0, some 1⟩ "anyURI"

/-- The element of the identity where the content of a class begins. Nothing is left of it where the
depth ends. -/
def identityTrees : (depth : Nat) → List Tree
  | 0 => []
  | _ + 1 => [identityTree]

/-! ### References -/

def Declaration.typeName? : Declaration → Option String
  | .complexType name _ _ | .extension name _ _ _ | .placeholder name => some name
  | .languageText => some languageTextType
  | .root .. | .group .. => none

def Declaration.groupContent? (name : String) : Declaration → Option (List Particle)
  | .group own content => if own = name then some content else none
  | _ => none

/-- The name of a simple type of XML Schema. -/
def simpleType? (q : QName) : Option String :=
  if q.nsPrefix = some "xs" then some q.localName else none

/-- The declaration of a type in the target namespace. -/
def declaredType? (schema : Schema) (q : QName) : Option Declaration :=
  if q.nsPrefix = schema.target.map (·.1) then
    schema.declarations.find? (·.typeName? = some q.localName)
  else none

def groupContent? (schema : Schema) (q : QName) : Option (List Particle) :=
  if q.nsPrefix = schema.target.map (·.1) then
    schema.declarations.findSome? (·.groupContent? q.localName)
  else none

variable {schema : Schema}

variable (schema) in
/-- The content of a type, where that of an extension stands after the content of its base. There is
none if the bases lead in a circle. -/
def typeContent? (q : QName) : Option (List Particle) := do
  let again : QName → Option (List Particle) := by apply typeContent?
  match ← schema.declaredType? q with
  | .complexType _ _ content => return content
  | .extension _ _ base content => return (← again base) ++ content
  | .placeholder _ => return [.identity]
  | .languageText | .root .. | .group .. => none
partial_fixpoint

/-! ### Trees -/

/-- The tree of a particle, given those of content one level below. -/
def tree? (schema : Schema) (below : List Particle → Option (List Tree)) :
    Particle → Option Tree
  | .identity => some identityTree
  | .element name type occurs =>
    match simpleType? type with
    | some simple => some (.plain name occurs simple)
    | none =>
      match schema.declaredType? type with
      | some .languageText => some (.languageText name occurs)
      | _ => return .element name occurs (← below (← schema.typeContent? type))
  | .union name occurs members => return .union name occurs (← members.mapM simpleType?)
  | .nested name occurs content => return .element name occurs (← below content)
  | .grouped name occurs group => do
    return .element name occurs (← below (← schema.groupContent? group))
  | .sequence occurs content => return .sequence occurs (← below content)

/-- The trees of particles; there are none if a reference leads nowhere. -/
def unfold (schema : Schema) : (depth : Nat) → List Particle → Option (List Tree)
  | 0, _ => some []
  | depth + 1, ps => ps.mapM (schema.tree? (schema.unfold depth))

def unfoldRoot (schema : Schema) (depth : Nat) : RootContent → Option (List Tree)
  | .typed type => do schema.unfold depth (← schema.typeContent? type)
  | .nested content => schema.unfold depth content
  | .grouped group => do schema.unfold depth (← schema.groupContent? group)

def Declaration.root? : Declaration → Option (String × RootContent)
  | .root name _ content => some (name, content)
  | _ => none

instance (schema : Schema) : Decidable schema.DeclaresOnce :=
  inferInstanceAs (Decidable (List.Nodup _))

/-- The global elements of a schema with the trees of their content. There are none if a reference
leads nowhere, or if a prefix is declared twice, so that names mean nothing. -/
def trees (schema : Schema) (depth : Nat) : Option (List (String × List Tree)) :=
  if schema.DeclaresOnce then
    (schema.declarations.filterMap (·.root?)).mapM fun (name, content) => do
      return (name, ← schema.unfoldRoot depth content)
  else none

variable {depth : Nat} {ps qs : List Particle} {ts : List Tree}

theorem unfold_singleton {particle : Particle} {tree : Tree}
    (h : schema.tree? (schema.unfold depth) particle = some tree) :
    schema.unfold (depth + 1) [particle] = some [tree] := by
  rw [unfold, List.mapM_cons, h]
  rfl

theorem unfold_append : schema.unfold depth (ps ++ qs) = do
    return (← schema.unfold depth ps) ++ (← schema.unfold depth qs) := by
  cases depth with
  | zero => rfl
  | succ depth => exact List.mapM_append

theorem unfold_flatten {parts : List (List Particle)} : schema.unfold (depth + 1) parts.flatten =
    (parts.mapM (schema.unfold (depth + 1))).map List.flatten := by
  induction parts with
  | nil => rfl
  | cons part parts ih =>
    rw [List.flatten_cons, unfold_append, ih, List.mapM_cons]
    cases schema.unfold (depth + 1) part with
    | none => rfl
    | some ts => cases parts.mapM (schema.unfold (depth + 1)) <;> rfl

theorem unfold_identity (h : schema.unfold depth ps = some ts) :
    schema.unfold depth (.identity :: ps) = some (identityTrees depth ++ ts) := by
  have alone : schema.unfold depth [.identity] = some (identityTrees depth) := by
    cases depth <;> rfl
  rw [← List.singleton_append, unfold_append, alone, h]
  rfl

/-! ### Names of declarations -/

theorem typeName?_bears {d : Declaration} {name : String} (h : d.typeName? = some name) :
    d.Bears "xs:complexType" name := by
  cases d with
  | root _ _ _ | group _ _ => cases h
  | complexType _ _ _ | extension _ _ _ _ | placeholder _ | languageText =>
    obtain rfl := Option.some.inj h
    exact ⟨rfl, rfl⟩

namespace Outcome

variable {s : Source} {name : String}

theorem declaredType?_eq (o : Outcome s schema) {d : Declaration}
    (present : d ∈ schema.declarations) (named : d.typeName? = some name) :
    schema.declaredType? (ownName schema name) = some d := by
  rw [declaredType?, ownName, if_pos rfl]
  have found : (schema.declarations.find? (·.typeName? = some name)).isSome :=
    List.find?_isSome.mpr ⟨d, present, decide_eq_true named⟩
  obtain ⟨e, found⟩ := Option.isSome_iff_exists.mp found
  have other : e.typeName? = some name := of_decide_eq_true (List.find?_some found :)
  obtain rfl := o.bears_unique (.inl rfl) present (List.mem_of_find?_eq_some found)
    (typeName?_bears named) (typeName?_bears other)
  exact found

theorem groupContent?_eq (o : Outcome s schema) {content : List Particle}
    (present : .group name content ∈ schema.declarations) :
    schema.groupContent? (ownName schema name) = some content := by
  rw [groupContent?, ownName, if_pos rfl]
  have found : (schema.declarations.findSome? (·.groupContent? name)).isSome :=
    List.findSome?_isSome_iff.mpr ⟨_, present, by simp [Declaration.groupContent?]⟩
  obtain ⟨other, found⟩ := Option.isSome_iff_exists.mp found
  obtain ⟨e, member, read⟩ := List.exists_of_findSome?_eq_some found
  unfold Declaration.groupContent? at read
  split at read
  next own inner =>
    split at read
    next same =>
      obtain rfl := Option.some.inj read
      have one := o.bears_unique (.inr rfl) present member ⟨rfl, rfl⟩ (same ▸ ⟨rfl, rfl⟩)
      rw [(Declaration.group.inj one).2]
      exact found
    next => cases read
  next => cases read

end Outcome

end RdfXmlMapping.Schema
