import Mathlib
import RdfXmlMapping.Proofs.Import.Namespaces
import RdfXmlMapping.Proofs.Lowering.Types
import RdfXmlMapping.Proofs.Schema.Resolution

/-!
The types that a stylesheet states and those that the schema declares. Each document finds the name
of a type by itself, with prefixes of its own. The two names do not always stand for the same: a
type from a schema without a namespace is in the target namespace for the schema and in none for the
stylesheet.
-/

namespace RdfXmlMapping

open Xml (Attributes QName)

/-! ### Names in the schema -/

namespace Schema

/-- The prefixes that every schema document declares. -/
def fixedPrefixes : List (String × String) :=
  [("xs", Vocabulary.xmlSchema), ("vc", Vocabulary.xmlSchemaVersioning)]

theorem namespaces_imports (entries : List Import.Entry) :
    namespaces (entries.filterMap importBinding) =
      entries.filterMap Import.Entry.namespace? := by
  rw [namespaces, List.filterMap_filterMap]
  refine List.filterMap_congr fun e _ => ?_
  rw [importBinding, Import.Entry.namespace?]
  cases e.bound with
  | none => rfl
  | some name =>
    cases e.descriptor.uri with
    | none => rfl
    | some uri => simp [declaredPrefix?_append]

theorem namespaces_head (schema : Schema) : namespaces (toXml schema).attributes =
    Import.declarations fixedPrefixes schema.target schema.imports := by
  change namespaces (headAttributes schema) = _
  rw [headAttributes, namespaces_append, namespaces_append, namespaces_imports,
    Import.declarations]
  congr 1
  have plain : declaredPrefix? "targetNamespace" = none := by decide
  refine congrArg₂ (· ++ ·) (by decide) ?_
  cases schema.target with
  | none => rfl
  | some target => simp [namespaces, declaredPrefix?_append, plain]

/-- A name by which the schema of a source refers to the type of a class. -/
inductive NamesType (s : Source) (schema : Schema) (c : Class) : QName → Prop
  | own : s.model.isForeign c = false →
      NamesType s schema c (ownName schema ((ClassNames.ofModel s.model).get c))
  | imported {e : Import.Entry} : s.model.isForeign c → ImportedBy s schema c e →
      NamesType s schema c (importedName schema e (toNCName c.label))

/-- The type of a class has been asked for and has got a name. -/
def Called (x : Plan) (now : Progress) (c : Class) (q : QName) : Prop :=
  ∃ before after, x.typeOf c before = .ok (q, after) ∧ Grows after now

theorem Called.mono {x : Plan} {s t : Progress} {c : Class} {q : QName} (h : Called x s c q)
    (grows : Grows s t) : Called x t c q := by
  obtain ⟨before, after, call, sooner⟩ := h
  exact ⟨before, after, call, sooner.trans grows⟩

/-- A reference to the type of a class that is made while the schema of a source grows. -/
inductive Refers (s : Source) (c : Class) (q : QName) : Prop
  | made {extended : List String} {ds : List Declaration} {final : Progress} :
      RunOf s extended ds final → Called (planOf s extended) final c q → Refers s c q

theorem Outcome.namesType {s : Source} {schema : Schema} (o : Outcome s schema) {c : Class}
    {q : QName} (named : ClassType o.plan o.final c q) : NamesType s schema c q := by
  cases named with
  | own owned _ =>
    rw [o.qualified_eq, o.kept.get, o.model]
    exact .own (o.model ▸ owned.2)
  | imported known resolved listed same =>
    have foreign := Import.Outlook.resolve_some resolved
    rw [o.importedName_eq known foreign]
    exact .imported (o.model ▸ foreign) (o.importedBy resolved listed same)

theorem Refers.namesType {s : Source} {schema : Schema} {c : Class} {q : QName}
    (h : generate s = .ok schema) (known : s.model.Knows c) (refers : Refers s c q) :
    NamesType s schema c q := by
  obtain ⟨run, _, _, called, grows⟩ := refers
  obtain ⟨o, plan, rfl⟩ := generate_outcome h run
  rw [← plan] at called
  exact o.namesType ((typeOf_step (o.model ▸ known) called).2.mono grows)

/-- A schema with a choice refers to all its derived candidates. -/
theorem choiceType_refers {s : Source} {extended : List String} {ds : List Declaration}
    {before after final : Progress} (run : RunOf s extended ds final) {p : Property}
    {plan : ChoicePlan} (shape : s.model.shapeOf p = .ok (.choice plan)) {root : Class}
    {derived : List Derivation} (base : plan.base = .rooted root derived) {q : QName}
    (called : (planOf s extended).choiceType plan before = .ok (q, after))
    (grows : Grows after final) : ∀ d ∈ derived, ∃ q, Refers s d.cls q := by
  obtain ⟨known, grounded⟩ := Model.shapeOf_leads shape
  rw [ChoicePlan.Grounded, base] at grounded
  rw [Plan.choiceType, base] at called
  obtain ⟨type, _, first, called⟩ := bind_ok called
  obtain ⟨others, _, each, called⟩ := bind_ok called
  cases pure_ok called
  obtain ⟨_, made⟩ := runs_grow (G := Grows)
    (P := fun s' (d : Derivation) q => Called (planOf s extended) s' d.cls q)
    Grows.refl (fun _ _ _ => Grows.trans) (fun _ _ _ _ more call => call.mono more)
    (mapM_ok each) fun d member q b a call =>
      ⟨(typeOf_step (known d.cls (grounded.2 d member).1).1 call).1.grows, b, a, call, .refl a⟩
  intro d member
  obtain ⟨q, _, call⟩ := forall₂_mem_left made member
  exact ⟨q, .made run (call.mono grows)⟩

end Schema

/-! ### Names in the stylesheet -/

namespace Lowering

def fixedPrefixes : List (String × String) :=
  [("xsl", Vocabulary.xslt), ("xs", Vocabulary.xmlSchema), ("sp", Vocabulary.sparqlResults),
    ("f", functionNamespace), ("xsi", Vocabulary.xmlSchemaInstance)]

theorem namespaces_head (l : Lowering) : namespaces (toXml l).attributes =
    Import.declarations fixedPrefixes l.target l.types := by
  change namespaces (headAttributes l) = _
  have types : namespaces (l.types.filterMap typeBinding) =
      l.types.filterMap Import.Entry.namespace? := Schema.namespaces_imports l.types
  have last : namespaces [("exclude-result-prefixes", "xs sp f")] = [] := by decide
  rw [headAttributes, namespaces_append, namespaces_append, namespaces_append, types, last,
    List.append_nil, Import.declarations]
  congr 1
  refine congrArg₂ (· ++ ·) (by decide) ?_
  cases l.target with
  | none => rfl
  | some target => simp [namespaces, declaredPrefix?_append]

/-- The name by which the stylesheet of a source states the type of a class. -/
inductive NamesType (s : Source) (l : Lowering) (c : Class) : QName → Prop
  | own : s.model.isForeign c = false →
      NamesType s l c (Stylesheet.targetName l.target ((ClassNames.ofModel s.model).get c))
  | imported {d : Import.Descriptor} {e : Import.Entry} :
      (s.outlook .schema).resolve s.model c = .ok (some d) → e ∈ l.types →
      e.descriptor.reference = d.reference → NamesType s l c ⟨e.bound, toNCName c.label⟩

/-- A stylesheet with the state in which its generation has ended. -/
structure Outcome (s : Source) (l : Lowering) where
  plan : Plan
  final : Progress
  model : plan.model = s.model
  names : plan.names = ClassNames.ofModel s.model
  outlook : plan.schemaOutlook = s.outlook .schema
  target : l.target = s.model.target?
  types : l.types = final.types.entries
  kept : Kept plan final
  reserved : final.types.reserved =
    ["xsl", "xs", "sp", "f", "xsi"] ++ (s.model.target?.map (·.1)).toList
  templates : List.Forall₂ (TemplateOf plan final) s.model.describedClasses l.templates

theorem generate_outcome {s : Source} {l : Lowering} (h : generate s = .ok l) :
    Nonempty (Outcome s l) := by
  obtain ⟨cs, between, last, made⟩ := generate_made h
  obtain ⟨grows, each⟩ := templates_step made.templates
  have grows := (rootRules_grows made.roots).trans grows
  refine ⟨⟨.ofSource s, last, rfl, rfl, rfl, made.target, made.types,
    grows.kept ⟨Import.Table.sound_empty _, ?_⟩, grows.reserved, each⟩⟩
  intro e member
  cases member

theorem Outcome.namesType {s : Source} {l : Lowering} (o : Outcome s l) {c : Class} {q : QName}
    (named : TypeName o.plan o.final c q) : NamesType s l c q := by
  cases named with
  | own own =>
    rw [o.model, ← o.target, o.names]
    exact .own (o.model ▸ own)
  | imported resolved member same =>
    rw [o.model, o.outlook] at resolved
    exact .imported resolved (o.types ▸ member) same

end Lowering

/-! ### Agreement -/

variable {s : Source} {schema : Schema} {l : Lowering} {c : Class} {n : ExpandedName}

/-- The prefix of the target namespace is none of those that the schema or the stylesheet declares
for itself. -/
def TargetPrefixFree (s : Source) : Prop := ∀ own uri, s.model.target? = some (own, uri) →
  own ∉ Schema.fixedPrefixes.map (·.1) ∧ own ∉ Lowering.fixedPrefixes.map (·.1)

/-- The schema of a class has a namespace in the stylesheet, and the same one in the schema that
imports it, where the target namespace takes the place of none. -/
def SameNamespace (s : Source) (schema : Schema) (l : Lowering) (c : Class) : Prop :=
  ∀ d, (s.outlook .schema).resolve s.model c = .ok (some d) → ∀ e ∈ schema.imports, ∀ f ∈ l.types,
    e.descriptor.reference = d.reference → f.descriptor.reference = d.reference →
    e.descriptor.uri.or s.model.uri = f.descriptor.uri

def SameName (a : Attributes) (q : QName) (b : Attributes) (r : QName) : Prop :=
  ∃ n, Expands a q n ∧ Expands b r n

theorem target?_uri (m : Model) : m.target?.map (·.2) = m.uri := by
  rw [Model.target?]
  cases m.uri <;> rfl

def Schema.DeclaresOnce (schema : Schema) : Prop :=
  ((namespaces (Schema.toXml schema).attributes).map (·.1)).Nodup

def Lowering.DeclaresOnce (l : Lowering) : Prop :=
  ((namespaces (Lowering.toXml l).attributes).map (·.1)).Nodup

theorem Schema.Outcome.declared_iff (o : Schema.Outcome s schema) : schema.DeclaresOnce ↔
    ∀ own uri, s.model.target? = some (own, uri) → own ∉ Schema.fixedPrefixes.map (·.1) := by
  rw [Schema.DeclaresOnce, Schema.namespaces_head, o.imports, o.source]
  refine Import.declarations_nodup (by decide) o.kept.imports fun p member => ?_
  have own : Schema.fixedPrefixes.map (·.1) ⊆ ["xs", "vc", "xml"] := by decide
  rw [o.kept.reserved, o.target, o.source]
  rw [List.map_append] at member
  rcases List.mem_append.mp member with fixed | target
  · exact List.mem_append_left _ (own fixed)
  · refine List.mem_append_right _ ?_
    simpa using target

theorem Lowering.Outcome.declared_iff (o : Lowering.Outcome s l) : l.DeclaresOnce ↔
    ∀ own uri, s.model.target? = some (own, uri) → own ∉ Lowering.fixedPrefixes.map (·.1) := by
  rw [Lowering.DeclaresOnce, Lowering.namespaces_head, o.types, o.target]
  refine Import.declarations_nodup (by decide) o.kept.sound fun p member => ?_
  rw [o.reserved]
  rw [List.map_append] at member
  rcases List.mem_append.mp member with fixed | target
  · exact List.mem_append_left _ fixed
  · refine List.mem_append_right _ ?_
    simpa using target

theorem Schema.Outcome.expands_own (o : Schema.Outcome s schema) (name : String) :
    Expands (Schema.toXml schema).attributes (Schema.ownName schema name) n ↔
      schema.DeclaresOnce ∧ n = (s.model.uri, name) := by
  rw [← target?_uri, ← o.source]
  exact Import.expands_target (Schema.namespaces_head schema)

theorem Schema.Outcome.expands_imported (o : Schema.Outcome s schema) {e : Import.Entry}
    (listed : e ∈ schema.imports) (name : String) :
    Expands (Schema.toXml schema).attributes (Schema.importedName schema e name) n ↔
      schema.DeclaresOnce ∧ n = (e.descriptor.uri.or s.model.uri, name) := by
  have listed := o.imports ▸ listed
  have both := o.kept.imports.bound e listed
  rw [Schema.importedName]
  cases bound : e.bound with
  | none =>
    rw [bound] at both
    rw [Option.isNone_iff_eq_none.mp (Option.isSome_eq_false_iff.mp both.symm)]
    exact o.expands_own name
  | some own =>
    have heads := Schema.namespaces_head schema
    rw [o.imports] at heads
    rw [bound] at both
    obtain ⟨uri, read⟩ := Option.isSome_iff_exists.mp both.symm
    have entry : Expands (Schema.toXml schema).attributes ⟨e.bound, name⟩ n ↔
        schema.DeclaresOnce ∧ n = (e.descriptor.uri, name) :=
      Import.expands_entry heads o.kept.imports listed
    rw [bound, read] at entry
    rw [read]
    exact entry

theorem Lowering.Outcome.expands_own (o : Lowering.Outcome s l) (name : String) :
    Expands (Lowering.toXml l).attributes (Stylesheet.targetName l.target name) n ↔
      l.DeclaresOnce ∧ n = (s.model.uri, name) := by
  rw [← target?_uri, ← o.target]
  exact Import.expands_target (Lowering.namespaces_head l)

theorem Lowering.Outcome.expands_imported (o : Lowering.Outcome s l) {e : Import.Entry}
    (listed : e ∈ l.types) (name : String) :
    Expands (Lowering.toXml l).attributes ⟨e.bound, name⟩ n ↔
      l.DeclaresOnce ∧ n = (e.descriptor.uri, name) := by
  have heads := Lowering.namespaces_head l
  rw [o.types] at heads
  exact Import.expands_entry heads o.kept.sound (o.types ▸ listed)

theorem exists_both_iff {P Q : Prop} {a b : ExpandedName} :
    (∃ n, (P ∧ n = a) ∧ Q ∧ n = b) ↔ (P ∧ Q) ∧ a = b := by
  constructor
  · rintro ⟨n, ⟨first, rfl⟩, second, same⟩
    exact ⟨⟨first, second⟩, same⟩
  · rintro ⟨⟨first, second⟩, same⟩
    exact ⟨a, ⟨first, rfl⟩, second, same⟩

/-- The names of the type of a class in the two documents stand for the same exactly if no prefix
stands in the way and the two agree on the namespace of its schema. -/
theorem sameName_iff (o : Schema.Outcome s schema) (o' : Lowering.Outcome s l) {q r : QName}
    (named : Schema.NamesType s schema c q) (stated : Lowering.NamesType s l c r) :
    SameName (Schema.toXml schema).attributes q (Lowering.toXml l).attributes r ↔
      TargetPrefixFree s ∧ SameNamespace s schema l c := by
  have free : schema.DeclaresOnce ∧ l.DeclaresOnce ↔ TargetPrefixFree s := by
    rw [o.declared_iff, o'.declared_iff]
    simp only [TargetPrefixFree, forall_and]
  rw [SameName, ← free]
  cases named with
  | own own =>
    have none : SameNamespace s schema l c := fun d resolved => by
      have foreign := Import.Outlook.resolve_some resolved
      exact absurd foreign (Bool.eq_false_iff.mp own)
    cases stated with
    | own _ => simp only [o.expands_own, o'.expands_own, exists_both_iff, none]
    | imported resolved _ _ =>
      exact absurd (Import.Outlook.resolve_some resolved) (Bool.eq_false_iff.mp own)
  | @imported e foreign imported =>
    cases stated with
    | own own => exact absurd foreign (Bool.eq_false_iff.mp own)
    | @imported d f resolved listed same =>
      obtain ⟨d', resolved', same'⟩ := imported.reference
      obtain rfl := Option.some.inj (Except.ok.inj (resolved.symm.trans resolved'))
      simp only [o.expands_imported imported.listed, o'.expands_imported listed, exists_both_iff,
        Prod.mk.injEq, and_true]
      refine and_congr_right fun _ =>
        ⟨fun agree d'' resolved'' e' listed' f' listed'' at' at'' => ?_,
          fun agree => agree d resolved e imported.listed f listed same' same⟩
      obtain rfl := Option.some.inj (Except.ok.inj (resolved.symm.trans resolved''))
      -- Each document enters a reference once, so there is no other entry to compare.
      obtain rfl := o.kept.imports.unique (o.imports ▸ listed') (o.imports ▸ imported.listed)
        (at'.trans same'.symm)
      obtain rfl := o'.kept.sound.unique (o'.types ▸ listed'') (o'.types ▸ listed)
        (at''.trans same.symm)
      exact agree

/-- Schemas that are published under one reference have one namespace. -/
def Consistent (s : Source) : Prop := ∀ c c' d d', s.model.Knows c → s.model.Knows c' →
  (s.outlook .schema).resolve s.model c = .ok (some d) →
  (s.outlook .schema).resolve s.model c' = .ok (some d') →
  d.reference = d'.reference → d.uri = d'.uri

/-- If what is published is consistent, the two documents agree on the namespace of a schema unless
it has none and the model has one. -/
theorem sameNamespace_iff (consistent : Consistent s) (o : Schema.Outcome s schema)
    (o' : Lowering.Outcome s l) (known : s.model.Knows c) {q r : QName}
    (named : Schema.NamesType s schema c q) (stated : Lowering.NamesType s l c r) :
    SameNamespace s schema l c ↔ ∀ d, (s.outlook .schema).resolve s.model c = .ok (some d) →
      d.uri = none → s.model.uri = none := by
  have atSchema : ∀ e ∈ schema.imports, ∀ d,
      (s.outlook .schema).resolve s.model c = .ok (some d) →
      e.descriptor.reference = d.reference → e.descriptor.uri = d.uri := by
    intro e listed d resolved same
    obtain ⟨other, found, origin⟩ := o.kept.origins e (o.imports ▸ listed)
    rw [o.model, o.outlook] at origin
    exact consistent other c _ d (o.model ▸ found) known origin resolved same
  have atStylesheet : ∀ f ∈ l.types, ∀ d,
      (s.outlook .schema).resolve s.model c = .ok (some d) →
      f.descriptor.reference = d.reference → f.descriptor.uri = d.uri := by
    intro f listed d resolved same
    obtain ⟨other, found, origin⟩ := o'.kept.origins f (o'.types ▸ listed)
    rw [o'.model, o'.outlook] at origin
    exact consistent other c _ d (o'.model ▸ found) known origin resolved same
  constructor
  · intro agree d resolved plain
    cases named with
    | own own => exact absurd (Import.Outlook.resolve_some resolved) (Bool.eq_false_iff.mp own)
    | @imported e _ imported =>
      cases stated with
      | own own => exact absurd (Import.Outlook.resolve_some resolved) (Bool.eq_false_iff.mp own)
      | @imported d' f resolved' listed same =>
        obtain rfl := Option.some.inj (Except.ok.inj (resolved.symm.trans resolved'))
        obtain ⟨d', resolved', same'⟩ := imported.reference
        obtain rfl := Option.some.inj (Except.ok.inj (resolved.symm.trans resolved'))
        have both := agree d resolved e imported.listed f listed same' same
        rw [atSchema e imported.listed d resolved same', atStylesheet f listed d resolved same,
          plain] at both
        exact both
  · intro allowed d resolved e listed f listed' same same'
    rw [atSchema e listed d resolved same, atStylesheet f listed' d resolved same']
    cases uri : d.uri with
    | none => exact allowed d resolved uri
    | some _ => rfl

/-- For every derived candidate of a choice with a root, the branch in a template states a type, and
that name and the one in the schema stand for the same exactly if no prefix stands in the way and
the two documents agree on the namespace of the candidate's schema. If what is published is
consistent, they agree unless that schema has no namespace and the model has one. -/
theorem type_names_agree_iff {s : Source} {schema : Schema} {l : Lowering}
    (hs : Schema.generate s = .ok schema) (hl : Lowering.generate s = .ok l)
    {cls : Class} {t : Lowering.Template}
    (template : (cls, t) ∈ s.model.describedClasses.zip l.templates)
    {ps : List Property} (own : s.model.effectiveProperties cls = .ok ps)
    {p : Property} {i : Lowering.Item} (place : (p, i) ∈ ps.zip t.items)
    {plan : ChoicePlan} (shape : s.model.shapeOf p = .ok (.choice plan))
    {root : Class} {derived : List Derivation} (base : plan.base = .rooted root derived)
    {d : Derivation} (derivation : d ∈ derived) :
    ∃ rows name branches otherwise, i = .element rows name (.choice branches otherwise) ∧
      (∃ b, (d.cls, b) ∈ plan.candidates.zip branches) ∧
      ∀ b, (d.cls, b) ∈ plan.candidates.zip branches → ∃ r, b.type = some r ∧
        ∀ q, Schema.Refers s d.cls q →
          (SameName (Schema.toXml schema).attributes q (Lowering.toXml l).attributes r ↔
            TargetPrefixFree s ∧ SameNamespace s schema l d.cls) ∧
          (Consistent s → (SameNamespace s schema l d.cls ↔
            ∀ published, (s.outlook .schema).resolve s.model d.cls = .ok (some published) →
              published.uri = none → s.model.uri = none)) := by
  obtain ⟨_, _, _, run, _⟩ := Schema.generate_run hs
  obtain ⟨o, _, _⟩ := Schema.generate_outcome hs run
  obtain ⟨o'⟩ := Lowering.generate_outcome hl
  obtain ⟨known, grounded⟩ := Model.shapeOf_leads shape
  rw [ChoicePlan.Grounded, base] at grounded
  obtain ⟨candidate, different⟩ := grounded.2 d derivation
  have apart : d.cls.iri ≠ root.iri := fun same =>
    different (Model.knows_eq (known _ candidate).1 (known _ grounded.1).1 same)
  obtain ⟨ps', own', items⟩ := List.forall₂_zip o'.templates template
  rw [o'.model] at own'
  obtain rfl := Except.ok.inj (own.symm.trans own')
  obtain ⟨rows, name, branches, otherwise, rfl, each⟩ :=
    List.forall₂_zip items place plan root derived (o'.model ▸ shape) base
  refine ⟨rows, name, branches, otherwise, rfl, ?_, fun b member => ?_⟩
  · exact forall₂_mem_zip each candidate
  · have branch := List.forall₂_zip each member
    rw [Lowering.BranchOf, if_neg apart] at branch
    obtain ⟨r, stated, typed⟩ := branch
    refine ⟨r, stated, fun q refers => ?_⟩
    have named := refers.namesType hs (known _ candidate).1
    have stated := o'.namesType typed
    exact ⟨sameName_iff o o' named stated, fun consistent =>
      sameNamespace_iff consistent o o' (known _ candidate).1 named stated⟩

/-! ### Agents of another specification -/

def heldItem : Property :=
  { ((Property.make "item" "https://ex.org/item").association "Agent").association "Bot" with
    iri := "Holder/item" }

def holder : Class :=
  { Class.make "Holder" "Holder" with meaning := some "https://ex.org/Holder" }.declaring heldItem

def agent : Class :=
  { Class.make "Agent" "Agent" with meaning := some "https://ex.org/Agent" }.ownedBy
    "other" "agents"

def bot : Class :=
  ({ Class.make "Bot" "Bot" with meaning := some "https://ex.org/Bot" }.extending "Agent").ownedBy
    "other" "agents"

/-- The model of the holder with what is published for the agents, whose schema may have a
namespace. -/
def holdings (uri : Option String) : Source :=
  { model :=
      { (Model.make "holdings" "own").rootedAt ["Holder"]
        |>.declaring holder |>.declaring agent |>.declaring bot
      with uri := some "https://own.org/ns", nsPrefix := some "a" }
    manifests := [{
      specification := "other"
      publications := [
        { kind := .schema, source := "agents", address := "https://ex.org/schema.xsd", uri
          nsPrefix := some "b" },
        { kind := .lowering, source := "agents", address := "https://ex.org/lowering.xslt"
          uri := none, nsPrefix := none }] }]
    config := { output := { baseAddress := "https://own.org/" } } }

def heldChoice : ChoicePlan := { candidates := [agent, bot], base := .rooted agent [⟨bot, agent⟩] }

def agentsEntry (uri : Option String) : Import.Entry :=
  { descriptor := {
      specification := "other", uri, ownPrefix := some "b"
      reference := "https://ex.org/schema.xsd" }
    bound := uri.map fun _ => "b" }

def holdingsSchema (uri : Option String) : Schema :=
  { target := some ("a", "https://own.org/ns")
    importsXml := false
    imports := [agentsEntry uri]
    declarations := [.root "Holder" {} (.nested [
      .identity, .element "item" ⟨some (if uri.isSome then "b" else "a"), "Agent"⟩ ⟨1, some 1⟩])] }

def heldBranches (uri : Option String) : List Lowering.Branch :=
  [⟨"https://ex.org/Agent", "_Agent", none⟩,
    ⟨"https://ex.org/Bot", "_Bot", some ⟨(agentsEntry uri).bound, "Bot"⟩⟩]

def holderTemplate (uri : Option String) : Lowering.Template :=
  { name := "_Holder"
    items := [
      .element ⟨"https://ex.org/item", false⟩ "item" (.choice (heldBranches uri) "_Agent")] }

set_option maxRecDepth 20000 in
theorem generate_holdings (uri : Option String) :
    Schema.generate (holdings uri) = .ok (holdingsSchema uri) := by
  cases uri <;> cbv

set_option maxRecDepth 20000 in
theorem lower_holdings (uri : Option String) :
    (Lowering.generate (holdings uri)).map (fun l => (l.types, l.templates)) =
      .ok ([agentsEntry uri], [holderTemplate uri]) := by
  cases uri <;> cbv

def botType (uri : Option String) : QName :=
  Schema.importedName (holdingsSchema uri) (agentsEntry uri) "Bot"

set_option maxRecDepth 20000 in
theorem typeOf_bot (uri : Option String) (extended : List String) :
    (Schema.planOf (holdings uri) extended).typeOf bot (Schema.initial (holdings uri)) =
      .ok (botType uri, { Schema.initial (holdings uri) with
        imports := {
          reserved := Schema.reservedPrefixes (holdings uri).model.target?
          entries := [agentsEntry uri] } }) := by
  cases uri <;> cbv

theorem bot_referred (uri : Option String) : Schema.Refers (holdings uri) bot (botType uri) := by
  obtain ⟨extended, _, final, run, _⟩ := Schema.generate_run (generate_holdings uri)
  obtain ⟨o, plan, rfl⟩ := Schema.generate_outcome (generate_holdings uri) run
  refine .made run ⟨_, _, typeOf_bot uri extended, ?_⟩
  exact {
    names := o.kept.names.trans (congrArg (fun m => (ClassNames.ofModel m).names) o.model)
    imports := fun e member => o.imports ▸ member
    types := List.nil_subset _
    groups := List.nil_subset _
    placeholders := List.nil_subset _
    languageText := fun used => by cases used }

theorem resolve_holdings (uri : Option String) {c : Class} (member : c ∈ [holder, agent, bot])
    {d : Import.Descriptor}
    (resolved : ((holdings uri).outlook .schema).resolve (holdings uri).model c = .ok (some d)) :
    d = (agentsEntry uri).descriptor := by
  have foreign : ((holdings uri).outlook .schema).resolve (holdings uri).model agent =
      .ok (some (agentsEntry uri).descriptor) ∧
      ((holdings uri).outlook .schema).resolve (holdings uri).model bot =
        .ok (some (agentsEntry uri).descriptor) := ⟨by cbv, by cbv⟩
  rcases List.mem_cons.mp member with rfl | member
  · cases Import.Outlook.resolve_some resolved
  · rcases List.mem_cons.mp member with rfl | member
    · exact (Option.some.inj (Except.ok.inj (foreign.1.symm.trans resolved))).symm
    · obtain rfl := List.mem_singleton.mp member
      exact (Option.some.inj (Except.ok.inj (foreign.2.symm.trans resolved))).symm

theorem holdings_consistent (uri : Option String) : Consistent (holdings uri) := by
  intro c c' d d' known known' resolved resolved' _
  rw [resolve_holdings uri (Model.knows_mem known) resolved,
    resolve_holdings uri (Model.knows_mem known') resolved']

def agentsUri : Option String := some "https://ex.org/ns"

theorem type_names_agree_bot : ∃ l, Lowering.generate (holdings agentsUri) = .ok l ∧
    ∃ r, (∃ b ∈ heldBranches agentsUri, b.type = some r) ∧
      SameName (Schema.toXml (holdingsSchema agentsUri)).attributes (botType agentsUri)
        (Lowering.toXml l).attributes r := by
  obtain ⟨l, lowered, same⟩ := except_map_ok (lower_holdings agentsUri)
  obtain ⟨_, templates⟩ := Prod.mk.inj same
  have template : (holder, holderTemplate agentsUri) ∈
      (holdings agentsUri).model.describedClasses.zip l.templates := by
    rw [templates]
    decide
  have own : (holdings agentsUri).model.effectiveProperties holder = .ok [heldItem] := by cbv
  have shape : (holdings agentsUri).model.shapeOf heldItem = .ok (.choice heldChoice) := rfl
  obtain ⟨_, _, branches, _, content, ⟨b, candidate⟩, each⟩ :=
    type_names_agree_iff (generate_holdings agentsUri) lowered template own List.mem_cons_self shape
      rfl (List.mem_singleton.mpr rfl)
  obtain ⟨-, -, ⟨⟩⟩ := content
  obtain ⟨r, stated, names⟩ := each b candidate
  obtain ⟨agree, spaces⟩ := names _ (bot_referred agentsUri)
  refine ⟨l, lowered, r, ⟨b, (List.of_mem_zip candidate).2, stated⟩, agree.mpr ⟨?free, ?same⟩⟩
  case free =>
    rintro _ _ ⟨⟩
    decide
  case same =>
    refine (spaces (holdings_consistent agentsUri)).mpr fun d resolved plain => ?_
    have member : bot ∈ [holder, agent, bot] := by simp
    rw [resolve_holdings agentsUri member resolved] at plain
    cases plain

/-- Where the schema of the agents has no namespace, the holder's schema declares a bot in the
target namespace, and its stylesheet states one in none. -/
theorem type_names_differ : ∃ l, Lowering.generate (holdings none) = .ok l ∧
    l.templates = [holderTemplate none] ∧ Schema.Refers (holdings none) bot ⟨some "a", "Bot"⟩ ∧
    ¬ SameName (Schema.toXml (holdingsSchema none)).attributes ⟨some "a", "Bot"⟩
      (Lowering.toXml l).attributes ⟨none, "Bot"⟩ := by
  obtain ⟨l, lowered, same⟩ := except_map_ok (lower_holdings none)
  obtain ⟨types, templates⟩ := Prod.mk.inj same
  obtain ⟨_, _, _, run, _⟩ := Schema.generate_run (generate_holdings none)
  obtain ⟨o, _, _⟩ := Schema.generate_outcome (generate_holdings none) run
  obtain ⟨o'⟩ := Lowering.generate_outcome lowered
  refine ⟨l, lowered, templates, bot_referred none, ?_⟩
  rintro ⟨n, declared, stated⟩
  have listed : agentsEntry none ∈ l.types := types ▸ List.mem_singleton.mpr rfl
  have target := ((o.expands_imported (List.mem_singleton.mpr rfl) "Bot").mp declared).2
  have plain := ((o'.expands_imported listed "Bot").mp stated).2
  cases target.symm.trans plain

end RdfXmlMapping
