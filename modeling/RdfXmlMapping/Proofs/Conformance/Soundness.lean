import Mathlib
import RdfXmlMapping.Proofs.Conformance.References

/-!
What it says of any text that the check of a schema finds no failure in it (`checkSchema_sound`).
The check tells the declarations of a schema by their local names, so that an element of any other
language at the top level is taken for one.
-/

namespace RdfXmlMapping.Conformance

open Xml (Node)

variable {root n : Node} {m : Model} {counts counts' : Node → Bool}
  {d : Declarations} {r : Reference}

/-! ### What a schema is to satisfy -/

def ofLanguage (n : Node) : Bool := n.name?.any (·.uri = some Vocabulary.xmlSchema)

/-- The items of some kinds at the top level of a schema, out of those that count. -/
def itemsBy (counts : Node → Bool) (root : Node) (kinds : List String) : List Node :=
  root.children.filter fun n => counts n && n.name?.any fun name => kinds.contains name.localName

def namesBy (counts : Node → Bool) (root : Node) (kinds : List String) : List String :=
  (itemsBy counts root kinds).filterMap (·.attribute? "name")

/-- The element names a thing of some sort. -/
inductive Refers (n : Node) : Reference → Prop
  | type {name : String} : n.attribute? "type" = some name → Refers n ⟨name, .type⟩
  | base {name : String} : n.attribute? "base" = some name → Refers n ⟨name, .type⟩
  | member {names name : String} : n.attribute? "memberTypes" = some names →
      name ∈ words names → Refers n ⟨name, .type⟩
  | group {name : String} : n.attribute? "ref" = some name →
      n.name?.map (·.localName) = some "group" → Refers n ⟨name, .group⟩
  | attributes {name : String} : n.attribute? "ref" = some name →
      n.name?.map (·.localName) = some "attribute" → Refers n ⟨name, .attributes⟩
  | element {name : String} : n.attribute? "ref" = some name →
      n.name?.map (·.localName) ≠ some "group" → n.name?.map (·.localName) ≠ some "attribute" →
      Refers n ⟨name, .element⟩

/-- The kinds of items that declare a thing of some sort. -/
def Space.kinds : Space → List String
  | .type => ["complexType", "simpleType"]
  | .group => ["group"]
  | .element => ["element"]
  | .attributes => []

/-- Where a name in a namespace, or in none, is declared. -/
inductive Placed (counts : Node → Bool) (root : Node) (last : String) (space : Space) :
    Option String → Prop
  | language {uri : String} : uri = Vocabulary.xmlSchema ∨ uri = Vocabulary.xml →
      Placed counts root last space (some uri)
  | imported {uri : String} {n : Node} : n ∈ itemsBy counts root ["import"] →
      n.attribute? "namespace" = some uri → Placed counts root last space (some uri)
  | declared : last ∈ namesBy counts root space.kinds →
      Placed counts root last space (root.attribute? "targetNamespace")
  | included {n : Node} : n ∈ itemsBy counts root ["include"] →
      Placed counts root last space none

/-- There is one global element for each root and no other, where roots are named by their classes.
-/
structure Rooted (counts : Node → Bool) (root : Node) (m : Model) : Prop where
  distinct : (namesBy counts root ["element"]).Nodup
  elements : ∀ name, name ∈ namesBy counts root ["element"] ↔
    ∃ iri ∈ m.rootCandidates, ∃ c, m.find? iri = some c ∧ toNCName c.label = name

/-- The elements of a schema are those of the roots, and whatever it refers to is declared, where
the items that count are taken for its declarations. -/
structure Sound (counts : Node → Bool) (root : Node) (m : Model) : Prop where
  known : ∀ iri ∈ m.rootCandidates, ∃ c, m.find? iri = some c
  rooted : Rooted counts root m
  references : ∀ n ∈ root.descendants, ofLanguage n → ∀ r, Refers n r →
    ∃ uri, namespaceOf n.scope (splitName r.name).1 = some uri ∧
      Placed counts root (splitName r.name).2 r.space uri

/-- The kinds of items at the top level that are looked for. -/
def declaringKinds : List String :=
  ["import", "include", "complexType", "simpleType", "group", "element"]

/-- An item at the top level that would declare something by its local name is one of the schema
language. -/
def Unmixed (root : Node) : Prop :=
  ∀ n ∈ root.children, ∀ name ∈ n.name?, name.localName ∈ declaringKinds →
    name.uri = some Vocabulary.xmlSchema

/-! ### Declarations -/

theorem itemsOf_eq (kind : String) : itemsOf root kind = itemsBy (fun _ => true) root [kind] := by
  refine List.filter_congr fun n _ => ?_
  cases n.name? with
  | none => rfl
  | some name => simp [beq_eq_decide]

theorem ofRoot_declares (last : String) (space : Space) :
    (Declarations.ofRoot root).declares last space ↔
      last ∈ namesBy (fun _ => true) root space.kinds := by
  cases space with
  | type | group | element => exact List.contains_iff_mem
  | attributes => simp [Declarations.declares, Space.kinds, namesBy, itemsBy]

theorem accepts_iff {uri : Option String} {last : String} {space : Space} :
    Accepts (.ofRoot root) uri last space ↔ Placed (fun _ => true) root last space uri := by
  have imports (u : String) : u ∈ (Declarations.ofRoot root).imported ↔
      ∃ n ∈ itemsBy (fun _ => true) root ["import"], n.attribute? "namespace" = some u := by
    rw [← itemsOf_eq]
    exact List.mem_filterMap
  have includes : (Declarations.ofRoot root).hasInclude ↔
      ∃ n, n ∈ itemsBy (fun _ => true) root ["include"] := by
    rw [← itemsOf_eq, ← List.isEmpty_eq_false_iff_exists_mem]
    exact Bool.not_eq_true' _ |>.to_iff
  rw [Accepts, includes, ofRoot_declares]
  simp only [imports]
  constructor
  · rintro (⟨u, rfl, language | language | ⟨n, member, read⟩⟩ | ⟨rfl, declared⟩ | ⟨rfl, n, member⟩)
    · exact .language (.inl language)
    · exact .language (.inr language)
    · exact .imported member read
    · exact .declared declared
    · exact .included member
  · intro placed
    cases placed with
    | language either => exact .inl ⟨_, rfl, either.imp_right .inl⟩
    | imported member read => exact .inl ⟨_, rfl, .inr (.inr ⟨_, member, read⟩)⟩
    | declared declared => exact .inr (.inl ⟨rfl, declared⟩)
    | included member => exact .inr (.inr ⟨rfl, _, member⟩)

/-! ### References -/

theorem mem_referencesOf : r ∈ referencesOf n ↔ Refers n r := by
  obtain ⟨name, space⟩ := r
  simp only [referencesOf, List.mem_append, List.mem_map, Option.mem_toList, List.mem_flatMap,
    Reference.mk.injEq]
  constructor
  · rintro (((⟨_, read, rfl, rfl⟩ | ⟨_, read, rfl, rfl⟩) | ⟨_, read, _, inside, rfl, rfl⟩) |
      ⟨_, read, rfl, same⟩)
    · exact .type read
    · exact .base read
    · exact .member read inside
    · split at same
      next owner => exact same ▸ .group read owner
      next owner => exact same ▸ .attributes read owner
      next no_group no_attribute => exact same ▸ .element read no_group no_attribute
  · intro refers
    cases refers with
    | type read => exact .inl (.inl (.inl ⟨name, read, rfl, rfl⟩))
    | base read => exact .inl (.inl (.inr ⟨name, read, rfl, rfl⟩))
    | member read inside => exact .inl (.inr ⟨_, read, name, inside, rfl, rfl⟩)
    | group read owner => exact .inr ⟨name, read, rfl, by rw [owner]; rfl⟩
    | attributes read owner => exact .inr ⟨name, read, rfl, by rw [owner]; rfl⟩
    | element read no_group no_attribute =>
      refine .inr ⟨name, read, rfl, ?_⟩
      split
      next owner => exact absurd owner no_group
      next owner => exact absurd owner no_attribute
      next => rfl

/-- A reference is reported unless its prefix is declared and the name is found. -/
theorem resolve_reported_iff {scope : Xml.Scope} :
    (∃ detail, d.resolve scope r = .unresolved detail) ↔
      ¬ ∃ uri, namespaceOf scope (splitName r.name).1 = some uri ∧
        Accepts d uri (splitName r.name).2 r.space := by
  cases stands : namespaceOf scope (splitName r.name).1 with
  | none => simp [Declarations.resolve, stands]
  | some uri =>
    refine (resolve_iff (Prod.mk.eta).symm stands).trans (not_congr ?_)
    constructor
    · exact fun accepted => ⟨uri, rfl, accepted⟩
    · rintro ⟨_, same, accepted⟩
      exact Option.some.inj same ▸ accepted

theorem checkReferences_passes_iff : (checkReferences root d).severity ≠ .failure ↔
    ∀ n ∈ root.descendants, ofLanguage n → ∀ r, Refers n r →
      ∃ uri, namespaceOf n.scope (splitName r.name).1 = some uri ∧
        Accepts d uri (splitName r.name).2 r.space := by
  rw [Ne, checkReferences_failed_iff]
  simp only [resolutions, List.mem_flatMap, List.mem_filter, List.mem_map, mem_referencesOf]
  constructor
  · intro none n inside language r refers
    by_contra reported
    obtain ⟨detail, same⟩ := resolve_reported_iff.mpr reported
    exact none ⟨detail, n, ⟨inside, language⟩, r, refers, same⟩
  · rintro accepted ⟨detail, n, ⟨inside, language⟩, r, refers, same⟩
    exact resolve_reported_iff.mp ⟨detail, same⟩ (accepted n inside language r refers)

/-! ### Foreign items -/

/-- The same items count for declarations. -/
def SameItems (counts counts' : Node → Bool) (root : Node) : Prop :=
  ∀ which ⊆ declaringKinds, itemsBy counts root which = itemsBy counts' root which

theorem Unmixed.sameItems (h : Unmixed root) : SameItems (fun _ => true) ofLanguage root := by
  intro which among
  refine List.filter_congr fun n inside => ?_
  cases named : n.name? with
  | none => simp
  | some name =>
    by_cases kind : name.localName ∈ which
    · have own := h n inside name named (among kind)
      simp [ofLanguage, named, kind, own]
    · simp [kind]

theorem SameItems.symm (same : SameItems counts counts' root) : SameItems counts' counts root :=
  fun which among => (same which among).symm

theorem SameItems.names (same : SameItems counts counts' root) {which : List String}
    (among : which ⊆ declaringKinds) : namesBy counts root which = namesBy counts' root which := by
  rw [namesBy, same which among, namesBy]

theorem Space.kinds_declaring (space : Space) : space.kinds ⊆ declaringKinds := by
  cases space <;> decide

theorem Placed.transfer (same : SameItems counts counts' root) {last : String} {space : Space}
    {uri : Option String} (h : Placed counts root last space uri) :
    Placed counts' root last space uri := by
  cases h with
  | language either => exact .language either
  | imported member read => exact .imported (same ["import"] (by decide) ▸ member) read
  | declared declared => exact .declared (same.names space.kinds_declaring ▸ declared)
  | included member => exact .included (same ["include"] (by decide) ▸ member)

theorem Sound.transfer (same : SameItems counts counts' root) (h : Sound counts root m) :
    Sound counts' root m := by
  have elements : namesBy counts root ["element"] = namesBy counts' root ["element"] :=
    same.names (by decide)
  refine ⟨h.known, ⟨elements ▸ h.rooted.distinct, elements ▸ h.rooted.elements⟩, ?_⟩
  intro n inside language r refers
  obtain ⟨uri, stands, placed⟩ := h.references n inside language r refers
  exact ⟨uri, stands, placed.transfer same⟩

theorem namesBy_split (counts : Node → Bool) (root : Node) (which : List String) :
    (namesBy (fun _ => true) root which).Perm
      (namesBy counts root which ++ namesBy (fun n => !counts n) root which) := by
  have split (counts : Node → Bool) : itemsBy counts root which =
      (itemsBy (fun _ => true) root which).filter counts := by
    simp [itemsBy, List.filter_filter]
  rw [namesBy, namesBy, namesBy, ← List.filterMap_append, split counts, split fun n => !counts n]
  exact (List.filter_append_perm counts _).symm.filterMap _

theorem Rooted.ofLanguage_iff (h : Rooted (fun _ => true) root m) : Rooted ofLanguage root m ↔
    namesBy (fun n => !ofLanguage n) root ["element"] = [] := by
  have split := namesBy_split ofLanguage root ["element"]
  have distinct := split.nodup_iff.mp h.distinct
  constructor
  · refine fun own => List.eq_nil_iff_forall_not_mem.mpr fun name foreign => ?_
    have wanted := (h.elements name).mp (split.mem_iff.mpr (List.mem_append_right _ foreign))
    exact (List.nodup_append.mp distinct).2.2 name ((own.elements name).mpr wanted) name foreign rfl
  · intro none
    rw [none, List.append_nil] at split
    exact ⟨split.nodup_iff.mp h.distinct, fun name => split.mem_iff.symm.trans (h.elements name)⟩

/-! ### The check -/

theorem isConforming_iff {report : Report} :
    report.isConforming ↔ ∀ f ∈ report, f.severity ≠ .failure := by
  simp [Report.isConforming, Report.count]

theorem sound_iff : (checkReferences root (.ofRoot root)).severity ≠ .failure ∧
    (checkRoots (.ofRoot root) m).severity ≠ .failure ↔ Sound (fun _ => true) root m := by
  rw [checkReferences_passes_iff, checkRoots_passes_iff]
  simp only [accepts_iff, mem_expectedElements_iff]
  constructor
  · rintro ⟨references, known, distinct, elements⟩
    exact ⟨known, ⟨distinct, elements⟩, references⟩
  · rintro ⟨known, ⟨distinct, elements⟩, references⟩
    exact ⟨references, known, distinct, elements⟩

/-- The check of a schema finds no failure exactly in documents of the language whose elements are
those of the roots and whose references are declared, where all items at the top level that have the
local name of a declaration are taken for one. If those of other languages are left out, the same
holds as long as there are none; the elements are those of the roots exactly if none of these has a
name. -/
theorem checkSchema_sound (text : String) (m : Model) :
    ((checkSchema text m).isConforming ↔ ∃ root, Node.parse? text = some root ∧
      root.isNamed Vocabulary.xmlSchema "schema" ∧ Sound (fun _ => true) root m) ∧
    ∀ root, (Unmixed root → (Sound (fun _ => true) root m ↔ Sound ofLanguage root m)) ∧
      (Sound (fun _ => true) root m → (Rooted ofLanguage root m ↔
        namesBy (fun n => !ofLanguage n) root ["element"] = [])) := by
  refine ⟨?_, fun root => ⟨fun unmixed => ?_, fun sound => sound.rooted.ofLanguage_iff⟩⟩
  · rw [isConforming_iff]
    cases parsed : Node.parse? text with
    | none => simp [checkSchema, parsed, Finding.failed]
    | some root =>
      by_cases named : root.isNamed Vocabulary.xmlSchema "schema"
      · rw [checkSchema_eq parsed named, List.forall_mem_cons, List.forall_mem_singleton, sound_iff]
        simp [named]
      · simp [checkSchema, parsed, named, Finding.failed]
  · have same := unmixed.sameItems
    exact ⟨Sound.transfer same, Sound.transfer same.symm⟩

/-- A list of persons. -/
def roll : Model :=
  (Model.make "roll" "town").rootedAt ["P"] |>.declaring (Class.make "P" "Person")

def rollSchema : String :=
  "<xs:schema xmlns:xs=\"http://www.w3.org/2001/XMLSchema\">" ++
    "<xs:element name=\"Person\" type=\"Body\"/><xs:complexType name=\"Body\"/></xs:schema>"

instance (root : Node) : Decidable (Unmixed root) :=
  inferInstanceAs (Decidable (∀ n ∈ root.children, ∀ name ∈ n.name?,
    name.localName ∈ declaringKinds → name.uri = some Vocabulary.xmlSchema))

theorem checkSchema_sound_roll : (checkSchema rollSchema roll).isConforming ∧
    ∃ root, Node.parse? rollSchema = some root ∧ Sound ofLanguage root roll := by
  have chars : rollSchema.toList = _ ++ _ :=
    String.toList_append.trans (congrArg₂ _ (Xml.toList_literal rfl) (Xml.toList_literal rfl))
  have conforming : (checkSchema rollSchema roll).isConforming := by
    rw [checkSchema, Node.parse?, Xml.tokens?, chars]
    decide +kernel
  have read : (Node.parse? rollSchema).all fun root => Unmixed root := by
    rw [Node.parse?, Xml.tokens?, chars]
    decide +kernel
  obtain ⟨exactly, each⟩ := checkSchema_sound rollSchema roll
  obtain ⟨root, parsed, _, sound⟩ := exactly.mp conforming
  have unmixed : Unmixed root := by simpa [parsed] using read
  exact ⟨conforming, root, parsed, ((each root).1 unmixed).mp sound⟩

/-- A schema with an element that is not of the schema language. -/
def foreignSchema : String :=
  "<xs:schema xmlns:xs=\"http://www.w3.org/2001/XMLSchema\"><element name=\"Person\"/></xs:schema>"

/-- The foreign element is taken for the declaration of the root, which the schema does not have. -/
theorem foreign_element_counted : (checkSchema foreignSchema roll).isConforming ∧
    (∃ c, roll.rootCandidates = ["P"] ∧ roll.find? "P" = some c ∧ toNCName c.label = "Person") ∧
    ∃ root, Node.parse? foreignSchema = some root ∧ namesBy ofLanguage root ["element"] = [] := by
  have chars : foreignSchema.toList = _ := Xml.toList_literal rfl
  have conforming : (checkSchema foreignSchema roll).isConforming := by
    rw [checkSchema, Node.parse?, Xml.tokens?, chars]
    decide +kernel
  have read : (Node.parse? foreignSchema).any fun root =>
      namesBy ofLanguage root ["element"] = [] := by
    rw [Node.parse?, Xml.tokens?, chars]
    decide +kernel
  obtain ⟨root, parsed, none⟩ := (Option.any_eq_true _ _).mp read
  exact ⟨conforming, ⟨_, rfl, rfl, by decide⟩, root, parsed, of_decide_eq_true none⟩

end RdfXmlMapping.Conformance
