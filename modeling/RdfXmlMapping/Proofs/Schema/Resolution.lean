import Mathlib
import RdfXmlMapping.Model.Build
import RdfXmlMapping.Proofs.Import.Namespaces
import RdfXmlMapping.Proofs.Schema.Closure

/-!
Where the references of a schema document lead. Those to types and groups of the model's own
specification lead to exactly one declaration in the document, and those to types of another one to
a document that it imports. The imports are kept by reference: of two schemas published at one
address the first one counts.
-/

namespace RdfXmlMapping.Schema

open Xml (Attributes Element QName)

def Standard (q : QName) : Prop := q.nsPrefix = some "xs" ∨ q.nsPrefix = some "xml"

def ownName (schema : Schema) (name : String) : QName := ⟨schema.target.map (·.1), name⟩

/-- The name of what an imported schema declares. -/
def importedName (schema : Schema) (e : Import.Entry) (name : String) : QName :=
  match e.bound with
  | some own => ⟨some own, name⟩
  | none => ownName schema name

/-- An entry of the imports for the schema of a class. Its document is imported or included, and its
prefix is bound to the namespace if it has one. -/
structure ImportedBy (s : Source) (schema : Schema) (c : Class) (e : Import.Entry) : Prop where
  listed : e ∈ schema.imports
  reference : ∃ d, (s.outlook .schema).resolve s.model c = .ok (some d) ∧
    e.descriptor.reference = d.reference
  origin : ∃ other, s.model.Knows other ∧
    (s.outlook .schema).resolve s.model other = .ok (some e.descriptor)
  written : importElement e ∈ (toXml schema).children
  bound : ∀ uri, e.descriptor.uri = some uri →
    ∃ own, e.bound = some own ∧ ("xmlns:" ++ own, uri) ∈ (toXml schema).attributes
  unbound : e.descriptor.uri = none → e.bound = none

/-- A reference in the schema document of a source that leads to what it names. -/
inductive Resolves (s : Source) (schema : Schema) : String × String → Prop
  | standard {key : String} {qs : List QName} : (∀ q ∈ qs, Standard q) →
      (key ≠ "memberTypes" → qs.length = 1) →
      Resolves s schema (key, " ".intercalate (qs.map QName.text))
  | type {key name : String} : key = "type" ∨ key = "base" →
      (topLevel "xs:complexType" (toXml schema).children).count name = 1 →
      Resolves s schema (key, (ownName schema name).text)
  | group {name : String} : (topLevel "xs:group" (toXml schema).children).count name = 1 →
      Resolves s schema ("ref", (ownName schema name).text)
  | imported {key : String} {c : Class} {e : Import.Entry} : key = "type" ∨ key = "base" →
      s.model.Knows c → s.model.isForeign c → ImportedBy s schema c e →
      Resolves s schema (key, (importedName schema e (toNCName c.label)).text)

theorem Resolves.single {s : Source} {schema : Schema} {key : String} {q : QName}
    (h : Standard q) : Resolves s schema (key, q.text) := by
  have one : ∀ r ∈ [q], Standard r := fun r member => List.mem_singleton.mp member ▸ h
  exact .standard one fun _ => rfl

/-- The name of a type or group of a class of the model's own specification. -/
def OwnClassName (m : Model) (name : String) : Prop :=
  ∃ c, m.Owns c ∧ name = (ClassNames.ofModel m).get c

/-! ### The document of a plan -/

theorem initial_kept (s : Source) (extended : List String) :
    Kept (planOf s extended) [] (initial s) where
  names := rfl
  taken := List.Subset.refl _
  imports := Import.Table.sound_empty _
  reserved := rfl
  origins := fun _ member => by cases member
  queue := {
    proper := fun _ member => by cases member
    once := List.nodup_nil
    requested := fun p _ => by cases p <;> simp [Progress.Requested, initial] }
  placeholders := ⟨List.nodup_nil, fun _ member => by cases member⟩

/-- A schema with the state in which its generation has ended. -/
structure Outcome (s : Source) (schema : Schema) where
  plan : Plan
  final : Progress
  requests : List Pending
  roots : List Declaration
  others : List Declaration
  model : plan.model = s.model
  outlook : plan.outlook = s.outlook .schema
  target : plan.target = schema.target
  source : schema.target = s.model.target?
  kept : Kept plan requests final
  finished : final.pending = []
  imports : schema.imports = final.imports.entries
  importsXml : schema.importsXml = final.usesLanguageText
  declarations : schema.declarations = roots ++ others ++ languageDeclarations final
  rootElements : ∀ d ∈ roots, d.toXml.name = "xs:element"
  answers : List.Forall₂ (Answers plan.model) requests others
  closed : Closed plan final (schema.declarations.map Declaration.toXml)

/-- A schema with the steps by which its declarations have been made. -/
structure History (s : Source) (schema : Schema) extends Outcome s schema where
  extended : extendedClasses s.model = .ok plan.extended
  extraction : plan.extraction = s.config.extraction
  rooted : ∃ cs, s.model.rootClasses = .ok cs ∧ List.Forall₂ (RootMade plan final) cs roots
  made : List.Forall₂ (Made plan final) requests others

/-- The run that a schema comes from. -/
structure RunOf (s : Source) (extended : List String) (ds : List Declaration) (final : Progress) :
    Prop where
  classes : extendedClasses s.model = .ok extended
  made : (planOf s extended).declarations (initial s) = .ok (ds, final)

theorem generate_run {s : Source} {schema : Schema} (h : generate s = .ok schema) :
    ∃ extended ds final, RunOf s extended ds final ∧ schema = {
      target := s.model.target?, importsXml := final.usesLanguageText
      imports := final.imports.entries, declarations := ds } := by
  obtain ⟨_, _, h⟩ := except_bind_ok h
  obtain ⟨extended, read, h⟩ := except_bind_ok h
  obtain ⟨⟨ds, final⟩, run, h⟩ := except_bind_ok h
  exact ⟨extended, ds, final, ⟨read, run⟩, (Except.ok.inj h).symm⟩

theorem RunOf.generates {s : Source} {extended : List String} {ds : List Declaration}
    {final : Progress} (run : RunOf s extended ds final)
    (checked : s.model.checkSplicing = .ok ()) : generate s = .ok {
      target := s.model.target?, importsXml := final.usesLanguageText
      imports := final.imports.entries, declarations := ds } := by
  unfold generate
  rw [checked]
  change (extendedClasses s.model >>= _) = _
  rw [run.classes]
  change ((planOf s extended).declarations (initial s) >>= _) = _
  rw [run.made]
  rfl

theorem RunOf.unique {s : Source} {extended extended' : List String} {ds ds' : List Declaration}
    {final final' : Progress} (h : RunOf s extended ds final) (h' : RunOf s extended' ds' final') :
    extended = extended' ∧ ds = ds' ∧ final = final' := by
  obtain rfl := Except.ok.inj (h.classes.symm.trans h'.classes)
  obtain ⟨rfl, rfl⟩ := Prod.mk.inj (Except.ok.inj (h.made.symm.trans h'.made))
  exact ⟨rfl, rfl, rfl⟩

theorem generate_history {s : Source} {schema : Schema} {extended : List String}
    {ds : List Declaration} {final : Progress} (h : generate s = .ok schema)
    (run : RunOf s extended ds final) :
    ∃ o : History s schema, o.plan = planOf s extended ∧ o.final = final := by
  obtain ⟨_, _, _, run', rfl⟩ := generate_run h
  obtain ⟨rfl, rfl, rfl⟩ := run.unique run'
  obtain ⟨roots, requests, others, rfl, kept, finished, rootElements, rooted, answers, closed⟩ :=
    declarations_step (initial_kept s extended) run.made
  exact ⟨⟨⟨planOf s extended, final, requests, roots, others, rfl, rfl, rfl, rfl, kept, finished,
    rfl, rfl, rfl, rootElements, answers.imp fun _ _ both => both.1, closed⟩, run.classes, rfl,
    rooted, answers.imp fun _ _ both => both.2⟩, rfl, rfl⟩

theorem generate_outcome {s : Source} {schema : Schema} {extended : List String}
    {ds : List Declaration} {final : Progress} (h : generate s = .ok schema)
    (run : RunOf s extended ds final) :
    ∃ o : Outcome s schema, o.plan = planOf s extended ∧ o.final = final := by
  obtain ⟨o, plan, final⟩ := generate_history h run
  exact ⟨o.toOutcome, plan, final⟩

theorem referring_head (schema : Schema) : referring (headAttributes schema) = [] := by
  have binding (name : String) : referenceKeys.contains ("xmlns:" ++ name) = false := by
    refine Bool.eq_false_iff.mpr fun member => ?_
    exact declaration_notMem (by decide) name (List.contains_iff_mem.mp member)
  have entries : referring (schema.imports.filterMap importBinding) = [] := by
    refine List.filter_eq_nil_iff.mpr fun a member => ?_
    obtain ⟨e, _, made⟩ := List.mem_filterMap.mp member
    unfold importBinding at made
    split at made
    · obtain rfl := Option.some.inj made
      exact Bool.eq_false_iff.mp (binding _)
    · cases made
  rw [headAttributes, referring_append, referring_append, entries, List.append_nil]
  cases schema.target with
  | none => rfl
  | some target => simpa [referring, referenceKeys] using binding target.1

namespace Outcome

variable {s : Source} {schema : Schema}

theorem children_eq (o : Outcome s schema) : ∃ before, (toXml schema).children =
      before ++ o.roots.map Declaration.toXml ++ o.others.map Declaration.toXml ++
        (languageDeclarations o.final).map Declaration.toXml ∧
      (∀ e ∈ before, e.name = "xs:import" ∨ e.name = "xs:include") ∧
      referencesIn before = [] ∧ schema.imports.map importElement ⊆ before := by
  let before := (if schema.importsXml then [Element.leaf "xs:import"
    [("namespace", Vocabulary.xml), ("schemaLocation", Vocabulary.xmlSchemaLocation)]] else []) ++
    schema.imports.map importElement
  have plain : ∀ e ∈ before,
      (e.name = "xs:import" ∨ e.name = "xs:include") ∧ references e = [] := by
    intro e member
    rcases List.mem_append.mp member with language | entry
    · split at language
      · obtain rfl := List.mem_singleton.mp language
        exact ⟨.inl rfl, rfl⟩
      · cases language
    · obtain ⟨entry, _, rfl⟩ := List.mem_map.mp entry
      unfold importElement
      split
      · exact ⟨.inl rfl, rfl⟩
      · exact ⟨.inr rfl, rfl⟩
  refine ⟨before, ?_, fun e member => (plain e member).1, ?_, List.subset_append_right ..⟩
  · rw [toXml, Element.children, o.declarations, List.map_append, List.map_append]
    simp only [before, List.append_assoc]
  · refine List.eq_nil_iff_forall_not_mem.mpr fun r member => ?_
    obtain ⟨e, present, inside⟩ := mem_referencesIn.mp member
    rw [(plain e present).2] at inside
    cases inside

theorem topLevel_eq (o : Outcome s schema) {tag : String}
    (other : tag ≠ "xs:import" ∧ tag ≠ "xs:include" ∧ tag ≠ "xs:element") :
    topLevel tag (toXml schema).children =
      requestedNames (ClassNames.ofModel s.model) tag o.requests ++
        topLevel tag ((languageDeclarations o.final).map Declaration.toXml) := by
  obtain ⟨before, children, imports, _, _⟩ := o.children_eq
  have first : topLevel tag before = [] := topLevel_nil fun e member same => by
    rcases imports e member with h | h
    · exact other.1 (same.symm.trans h)
    · exact other.2.1 (same.symm.trans h)
  have second : topLevel tag (o.roots.map Declaration.toXml) = [] := by
    refine topLevel_nil fun e member same => ?_
    obtain ⟨d, present, rfl⟩ := List.mem_map.mp member
    exact other.2.2 (same.symm.trans (o.rootElements d present))
  rw [children, topLevel_append, topLevel_append, topLevel_append, first, second,
    topLevel_answers o.answers, o.model]
  rfl

theorem types_eq (o : Outcome s schema) : topLevel "xs:complexType" (toXml schema).children =
    requestedNames (ClassNames.ofModel s.model) "xs:complexType" o.requests ++
      if o.final.usesLanguageText then [languageTextType] else [] := by
  rw [o.topLevel_eq (by decide), languageDeclarations]
  split <;> rfl

theorem groups_eq (o : Outcome s schema) : topLevel "xs:group" (toXml schema).children =
    requestedNames (ClassNames.ofModel s.model) "xs:group" o.requests := by
  have none : topLevel "xs:group" ((languageDeclarations o.final).map Declaration.toXml) = [] := by
    unfold languageDeclarations
    split <;> rfl
  rw [o.topLevel_eq (by decide), none, List.append_nil]

theorem types_nodup (o : Outcome s schema) :
    (topLevel "xs:complexType" (toXml schema).children).Nodup := by
  rw [o.types_eq, ← o.model]
  refine List.Nodup.append (o.kept.requestedNames_nodup o.finished _) ?_ ?_
  · split
    · exact List.nodup_singleton _
    · exact List.nodup_nil
  · intro name old last
    split at last
    · obtain rfl := List.mem_singleton.mp last
      exact o.kept.languageText_apart _ old
    · cases last

theorem groups_nodup (o : Outcome s schema) :
    (topLevel "xs:group" (toXml schema).children).Nodup := by
  rw [o.groups_eq, ← o.model]
  exact o.kept.requestedNames_nodup o.finished _

theorem declared_once (o : Outcome s schema) {p : Pending} (proper : p.Proper o.plan.model)
    (requested : o.final.Requested p) :
    (topLevel p.tag (toXml schema).children).count (p.name o.final.names) = 1 := by
  have member := (o.kept.queue.requested p proper).mp requested
  rw [o.finished, List.append_nil] at member
  have named : p.name o.final.names ∈ requestedNames (ClassNames.ofModel s.model) p.tag
      o.requests := mem_requestedNames.mpr ⟨p, member, rfl, by rw [o.kept.name, o.model]⟩
  cases p with
  | group c =>
    refine List.count_eq_one_of_mem o.groups_nodup ?_
    exact o.groups_eq ▸ named
  | type c | placeholder name =>
    refine List.count_eq_one_of_mem o.types_nodup ?_
    exact o.types_eq ▸ List.mem_append_left _ named

theorem languageText_once (o : Outcome s schema) (used : o.final.usesLanguageText) :
    (topLevel "xs:complexType" (toXml schema).children).count languageTextType = 1 := by
  refine List.count_eq_one_of_mem o.types_nodup ?_
  rw [o.types_eq, if_pos used]
  exact List.mem_append_right _ List.mem_cons_self

theorem qualified_eq (o : Outcome s schema) (name : String) :
    o.plan.qualified name = ownName schema name := by
  rw [Plan.qualified, o.target, ownName]

theorem importedBy (o : Outcome s schema) {c : Class} {d : Import.Descriptor} {e : Import.Entry}
    (resolved : o.plan.outlook.resolve o.plan.model c = .ok (some d))
    (listed : e ∈ o.final.imports.entries) (same : e.descriptor.reference = d.reference) :
    ImportedBy s schema c e := by
  have present : e ∈ schema.imports := o.imports ▸ listed
  have bound := o.kept.imports.bound e listed
  obtain ⟨other, known, origin⟩ := o.kept.origins e listed
  rw [o.model, o.outlook] at resolved origin
  refine ⟨present, ⟨d, resolved, same⟩, ⟨other, o.model ▸ known, origin⟩, ?_, ?_, ?_⟩
  · obtain ⟨before, children, _, _, imports⟩ := o.children_eq
    rw [children]
    simp only [List.mem_append]
    exact .inl (.inl (.inl (imports (List.mem_map_of_mem present))))
  · intro uri namespace_
    rw [namespace_] at bound
    obtain ⟨own, read⟩ := Option.isSome_iff_exists.mp bound
    refine ⟨own, read, List.mem_append_right _ (List.mem_filterMap.mpr ⟨e, present, ?_⟩)⟩
    rw [importBinding, read, namespace_]
  · intro none
    rw [none] at bound
    exact Option.isSome_eq_false_iff.mp bound |> Option.isNone_iff_eq_none.mp

theorem importedName_eq (o : Outcome s schema) {c : Class} (known : o.plan.model.Knows c)
    (foreign : o.plan.model.isForeign c) (e : Import.Entry) :
    o.plan.importedName e (o.final.names.get c) = importedName schema e (toNCName c.label) := by
  rw [o.kept.get, ClassNames.get_foreign known foreign, Plan.importedName, importedName]
  cases e.bound with
  | some own => rfl
  | none => exact o.qualified_eq _

theorem type_resolves (o : Outcome s schema) {key : String} (keyed : key = "type" ∨ key = "base")
    {q : QName} (good : TypeName o.plan o.final q) : Resolves s schema (key, q.text) := by
  cases good with
  | standard name =>
    exact .single (.inl rfl)
  | @ofClass c _ named =>
    cases named with
    | own owned requested =>
      rw [o.qualified_eq]
      exact .type keyed (o.declared_once (p := .type _) owned requested)
    | imported known resolved listed same =>
      have foreign := Import.Outlook.resolve_some resolved
      rw [o.importedName_eq known foreign]
      exact .imported keyed (o.model ▸ known) (o.model ▸ foreign)
        (o.importedBy resolved listed same)
  | @madeUp name requested =>
    rw [o.qualified_eq]
    exact .type keyed (o.declared_once (p := .placeholder name) trivial requested)
  | languageText used =>
    rw [o.qualified_eq]
    exact .type keyed (o.languageText_once used)

theorem written_resolves (o : Outcome s schema) {r : String × String}
    (h : Written o.plan o.final r) : Resolves s schema r := by
  cases h with
  | type good => exact o.type_resolves (.inl rfl) good
  | base good => exact o.type_resolves (.inr rfl) good
  | group good =>
    obtain ⟨c, owned, requested, rfl⟩ := good
    rw [o.qualified_eq]
    exact .group (o.declared_once (p := .group c) owned requested)
  | members good =>
    refine .standard (fun q member => ?_) (fun other => absurd rfl other)
    obtain ⟨name, rfl, _⟩ := good q member
    exact .inl rfl
  | language =>
    exact .single (q := ⟨some "xml", "lang"⟩) (.inr rfl)

theorem references_written (o : Outcome s schema) :
    ∀ r ∈ references (toXml schema), Written o.plan o.final r := by
  intro r member
  obtain ⟨before, children, _, none, _⟩ := o.children_eq
  have whole : references (toXml schema) =
      referring (headAttributes schema) ++ referencesIn (toXml schema).children := rfl
  rw [whole, referring_head, children] at member
  simp only [referencesIn_append, none, List.nil_append] at member
  refine o.closed r ?_
  rw [o.declarations]
  simpa only [List.map_append, referencesIn_append] using member

theorem types_belong (o : Outcome s schema) :
    ∀ name ∈ topLevel "xs:complexType" (toXml schema).children,
      OwnClassName s.model name ∨ MadeUp s.model name ∨ name = languageTextType := by
  intro name member
  rw [o.types_eq] at member
  rcases List.mem_append.mp member with asked | language
  · obtain ⟨p, present, tag, rfl⟩ := mem_requestedNames.mp asked
    have present : p ∈ o.requests ++ o.final.pending := List.mem_append_left _ present
    have proper := o.kept.queue.proper p present
    cases p with
    | type c => exact .inl ⟨c, o.model ▸ proper, rfl⟩
    | group c => exact absurd tag (by simp [Pending.tag])
    | placeholder name => exact .inr (.inl (o.model ▸ (o.kept.placeholder_apart present).1))
  · split at language
    · exact .inr (.inr (List.mem_singleton.mp language))
    · cases language

theorem groups_belong (o : Outcome s schema) :
    ∀ name ∈ topLevel "xs:group" (toXml schema).children, OwnClassName s.model name := by
  intro name member
  rw [o.groups_eq] at member
  obtain ⟨p, present, tag, rfl⟩ := mem_requestedNames.mp member
  have proper := o.kept.queue.proper p (List.mem_append_left _ present)
  cases p with
  | group c => exact ⟨c, o.model ▸ proper, rfl⟩
  | type c | placeholder name => exact absurd tag (by simp [Pending.tag])

end Outcome

/-- Every reference in a schema document leads to what it names: to XML Schema, to exactly one
declaration in the document, or to an imported document. No two types have one name, and no two
groups. Each belongs to a class of the model's own specification, to a choice without a root, or to
texts with a language. -/
theorem references_resolve {s : Source} {schema : Schema} (h : generate s = .ok schema) :
    (∀ r ∈ references (toXml schema), Resolves s schema r) ∧
    (topLevel "xs:complexType" (toXml schema).children).Nodup ∧
    (topLevel "xs:group" (toXml schema).children).Nodup ∧
    (∀ name ∈ topLevel "xs:complexType" (toXml schema).children,
      OwnClassName s.model name ∨ MadeUp s.model name ∨ name = languageTextType) ∧
    ∀ name ∈ topLevel "xs:group" (toXml schema).children, OwnClassName s.model name := by
  obtain ⟨_, _, _, run, _⟩ := generate_run h
  obtain ⟨o, _, _⟩ := generate_outcome h run
  exact ⟨fun r member => o.written_resolves (o.references_written r member), o.types_nodup,
    o.groups_nodup, o.types_belong, o.groups_belong⟩

/-- Orders with all that a schema can refer to: a text with a language, a choice with a root and one
without, a group, and a class of another specification. -/
def orders : Source :=
  let property (label : String) (targets : List String) : Property :=
    targets.foldl Property.association (Property.make label ("https://ex.org/" ++ label))
  { model :=
      { (Model.make "orders" "trade").rootedAt ["Order"]
        |>.declaring ((Class.make "Order" "Order")
          |>.declaring ((property "note" []).primitive Vocabulary.langString)
          |>.declaring (property "payer" ["Party", "Person"])
          |>.declaring (property "about" ["Place", "Event"])
          |>.declaring (property "item" ["Item"])
          |>.declaring (property "maker" ["Maker"]))
        |>.declaring (Class.make "Party" "Party")
        |>.declaring ((Class.make "Person" "Person").extending "Party")
        |>.declaring (Class.make "Place" "Place")
        |>.declaring (Class.make "Event" "Event")
        |>.declaring (Class.make "Item" "Item")
        |>.declaring ((Class.make "Maker" "Maker").ownedBy "industry" "makers")
      with uri := some "urn:orders", nsPrefix := some "o" }
    manifests := [{
      specification := "industry"
      publications := [
        { kind := .schema, source := "makers", address := "https://ex.org/makers.xsd"
          uri := some "urn:makers", nsPrefix := some "m" }] }]
    config := {
      extraction := { other := { group := true } }
      output := { baseAddress := "https://own.org/" } } }

set_option maxRecDepth 20000 in
theorem orders_declared : (do
    let schema ← generate orders
    return (topLevel "xs:complexType" (toXml schema).children,
      topLevel "xs:group" (toXml schema).children)) =
    .ok (["Party", "Person", "PlaceEvent", "langString"], ["Item"]) := by cbv

theorem references_resolve_orders : ∃ schema, generate orders = .ok schema ∧
    topLevel "xs:complexType" (toXml schema).children =
      ["Party", "Person", "PlaceEvent", "langString"] ∧
    topLevel "xs:group" (toXml schema).children = ["Item"] ∧
    ∀ r ∈ references (toXml schema), Resolves orders schema r := by
  obtain ⟨schema, made, h⟩ := except_bind_ok orders_declared
  obtain ⟨types, groups⟩ := Prod.mk.inj (Except.ok.inj h)
  exact ⟨schema, made, types, groups, (references_resolve made).1⟩

/-! ### Schemas published at one address -/

/-- A case with classes of two other specifications, whose schemas are published at one address. -/
def strangers : Source :=
  let publishing (specification uri own : String) : Manifest :=
    { specification
      publications := [
        { kind := .schema, source := specification ++ "-model"
          address := "https://ex.org/shared.xsd", uri := some uri, nsPrefix := some own }] }
  { model := (Model.make "case" "own").rootedAt ["Case"]
      |>.declaring ((Class.make "Case" "Case")
        |>.declaring ((Property.make "left" "https://ex.org/left").association "Left")
        |>.declaring ((Property.make "right" "https://ex.org/right").association "Right"))
      |>.declaring ((Class.make "Left" "Left").ownedBy "one" "one-model")
      |>.declaring ((Class.make "Right" "Right").ownedBy "two" "two-model")
    manifests := [publishing "one" "urn:one" "a", publishing "two" "urn:two" "b"]
    config := { output := { baseAddress := "https://own.org/" } } }

def sharedEntry : Import.Entry :=
  { descriptor := {
      specification := "one", uri := some "urn:one", ownPrefix := some "a"
      reference := "https://ex.org/shared.xsd" }
    bound := some "a" }

def strangersSchema : Schema :=
  { target := none
    importsXml := false
    imports := [sharedEntry]
    declarations := [.root "Case" {} (.nested [
      .identity, .element "left" ⟨some "a", "Left"⟩ ⟨1, some 1⟩,
      .element "right" ⟨some "a", "Right"⟩ ⟨1, some 1⟩])] }

set_option maxRecDepth 20000 in
theorem generate_strangers : generate strangers = .ok strangersSchema := by cbv

/-- A schema may refer to a class whose own descriptor is not among the imports: the type on the
right is named in the namespace of the other specification. -/
theorem reference_to_unimported : ∃ schema, generate strangers = .ok schema ∧
    ∃ r ∈ references (toXml schema), (∀ q, Standard q → r.2 ≠ q.text) ∧
      (∀ name, (topLevel "xs:complexType" (toXml schema).children).count name = 1 →
        r.2 ≠ (ownName schema name).text) ∧
      ∀ c d e, strangers.model.Knows c →
        (strangers.outlook .schema).resolve strangers.model c = .ok (some d) →
        e ∈ schema.imports → e.descriptor = d →
        r.2 ≠ (importedName schema e (toNCName c.label)).text := by
  refine ⟨strangersSchema, generate_strangers, ("type", "a:Right"), by decide +kernel, ?_, ?_, ?_⟩
  · rintro ⟨own, name⟩ standard same
    have first := congrArg (·.toList.head?) same
    rcases standard with rfl | rfl <;> simp [Xml.QName.text] at first
  · intro name once
    have declared : name ∈ topLevel "xs:complexType" (toXml strangersSchema).children :=
      List.count_pos_iff.mp (by omega)
    cases declared
  · intro c d e known resolved listed same
    obtain rfl := List.mem_singleton.mp listed
    have named : ∀ c ∈ strangers.model.classes,
        (strangers.outlook .schema).resolve strangers.model c = .ok (some sharedEntry.descriptor) →
          c.label = "Left" := by decide +kernel
    rw [named c (Model.knows_mem known) (by rw [same]; exact resolved)]
    decide +kernel

end RdfXmlMapping.Schema
