import Mathlib
import RdfXmlMapping.Model.Build
import RdfXmlMapping.Proofs.Lifting.Calls
import RdfXmlMapping.Proofs.Lowering.Calls

/-!
The templates of stylesheets: whether calls lead to them, and when they have different names.
Templates are made of the classes that are described, which leaves out codelists, while the rules
for roots are made of all roots (`template_calls_resolve_iff`). The name of a template keeps the
letters and digits of the identity of its class and nothing else, so identities that differ in other
characters only are confused: `template_names_distinct_iff`.
-/

namespace RdfXmlMapping

open Stylesheet

/-- Every call in a stylesheet of a model leads to a template that the stylesheet defines, or to
that of a class whose stylesheet it imports, unless a codelist of the model's own specification may
be the root of a document: the rule for it calls a template that no stylesheet defines. -/
theorem template_calls_resolve_iff (s : Source) :
    (∀ l, Lifting.generate s = .ok l →
      (CallsResolve (s.outlook .lifting) s.model (Lifting.toXml l) ↔
        CodelistRootsResolve (s.outlook .lifting) s.model (Lifting.toXml l))) ∧
    ∀ l, Lowering.generate s = .ok l →
      (CallsResolve (s.outlook .lowering) s.model (Lowering.toXml l) ↔
        CodelistRootsResolve (s.outlook .lowering) s.model (Lowering.toXml l)) := by
  constructor
  · intro l h
    obtain ⟨imports, reaches⟩ := Lifting.generate_reaches h
    exact reaches.callsResolve_iff
  · intro l h
    obtain ⟨imports, reaches⟩ := Lowering.generate_reaches h
    exact reaches.callsResolve_iff

/-! ### The calls of a help desk -/

/-- A ticket with the item of a codelist, a place of its own and an owner from another
specification, and one of its classes as the root. -/
def tickets (root : String) : Source :=
  let property (label target : String) : Property :=
    (Property.make label ("https://ex.org/" ++ label)).association target
  let meaning (c : Class) : Class := { c with meaning := some ("https://ex.org/" ++ c.label) }
  { model := (Model.make "tickets" "desk").rootedAt [root]
      |>.declaring ((meaning (Class.make "Ticket" "Ticket"))
        |>.declaring (property "status" "Status")
        |>.declaring (property "place" "Place")
        |>.declaring (property "owner" "Person"))
      |>.declaring { meaning (Class.make "Status" "Status") with isCodelist := true }
      |>.declaring (meaning (Class.make "Place" "Place"))
      |>.declaring ((meaning (Class.make "Person" "Person")).ownedBy "people" "persons")
    manifests := [{
      specification := "people"
      publications := [
        { kind := .lifting, source := "persons", address := "https://ex.org/lifting.xslt"
          uri := none, nsPrefix := none },
        { kind := .lowering, source := "persons", address := "https://ex.org/lowering.xslt"
          uri := none, nsPrefix := none }] }]
    config := { output := { baseAddress := "https://own.org/" } } }

/-- The templates that a stylesheet calls, and those that it defines. -/
def templatesOf (stylesheet : Xml.Element) : List String × List String :=
  (calls stylesheet, definitions stylesheet.children)

theorem lift_tickets : (templatesOf ∘ Lifting.toXml) <$> Lifting.generate (tickets "Ticket") =
    .ok (["_Ticket", "lift-node", "lift-node", "lift-node", "_Place", "_Person", "lift-node"],
      ["_Ticket", "_Place", "lift-node"]) := by decide +kernel

theorem lower_tickets : (templatesOf ∘ Lowering.toXml) <$> Lowering.generate (tickets "Ticket") =
    .ok (["_Ticket", "_Place", "_Person"], ["_Ticket", "_Place"]) := by decide +kernel

theorem template_calls_resolve_tickets :
    (∃ l, Lifting.generate (tickets "Ticket") = .ok l ∧ "_Person" ∈ calls (Lifting.toXml l) ∧
      CallsResolve ((tickets "Ticket").outlook .lifting) (tickets "Ticket").model
        (Lifting.toXml l)) ∧
    ∃ l, Lowering.generate (tickets "Ticket") = .ok l ∧ "_Person" ∈ calls (Lowering.toXml l) ∧
      CallsResolve ((tickets "Ticket").outlook .lowering) (tickets "Ticket").model
        (Lowering.toXml l) := by
  have described : ∀ o stylesheet, CodelistRootsResolve o (tickets "Ticket").model stylesheet := by
    intro o stylesheet c owned root codelist
    have plain : ∀ c ∈ (tickets "Ticket").model.classes, (tickets "Ticket").model.isRoot c.iri →
        c.isCodelist = false := by decide
    cases codelist.symm.trans (plain c (Model.knows_mem owned.1) root)
  constructor
  · obtain ⟨l, made, same⟩ := except_map_ok lift_tickets
    obtain ⟨called, _⟩ := Prod.mk.inj same
    exact ⟨l, made, called ▸ by decide,
      ((template_calls_resolve_iff _).1 l made).mpr (described _ _)⟩
  · obtain ⟨l, made, same⟩ := except_map_ok lower_tickets
    obtain ⟨called, _⟩ := Prod.mk.inj same
    exact ⟨l, made, called ▸ by decide,
      ((template_calls_resolve_iff _).2 l made).mpr (described _ _)⟩

theorem lift_statuses : (templatesOf ∘ Lifting.toXml) <$> Lifting.generate (tickets "Status") =
    .ok (["_Status", "lift-node", "lift-node", "lift-node", "_Place", "_Person", "lift-node"],
      ["_Ticket", "_Place", "lift-node"]) := by decide +kernel

theorem lower_statuses : (templatesOf ∘ Lowering.toXml) <$> Lowering.generate (tickets "Status") =
    .ok (["_Status", "_Place", "_Person"], ["_Ticket", "_Place"]) := by decide +kernel

/-- Where a codelist is a root, both stylesheets call a template for it, and none has it. -/
theorem codelist_root_unresolved :
    (∃ l, Lifting.generate (tickets "Status") = .ok l ∧
      ¬ CallsResolve ((tickets "Status").outlook .lifting) (tickets "Status").model
        (Lifting.toXml l)) ∧
    ∃ l, Lowering.generate (tickets "Status") = .ok l ∧
      ¬ CallsResolve ((tickets "Status").outlook .lowering) (tickets "Status").model
        (Lowering.toXml l) := by
  have unresolved (o : Import.Outlook) (stylesheet : Xml.Element)
      (called : "_Status" ∈ calls stylesheet)
      (undefined : "_Status" ∉ definitions stylesheet.children) :
      ¬ CallsResolve o (tickets "Status").model stylesheet := by
    intro resolve
    generalize named : "_Status" = name at called undefined
    cases resolve name called with
    | defined present => exact undefined present
    | @imported c _ known foreign _ _ =>
      have other : ∀ c ∈ (tickets "Status").model.classes, (tickets "Status").model.isForeign c →
          "_Status" ≠ templateName c.iri := by decide
      exact other c (Model.knows_mem known) foreign named
  constructor
  · obtain ⟨l, made, same⟩ := except_map_ok lift_statuses
    obtain ⟨called, defined⟩ := Prod.mk.inj same
    exact ⟨l, made, unresolved _ _ (called ▸ by decide) (defined ▸ by decide)⟩
  · obtain ⟨l, made, same⟩ := except_map_ok lower_statuses
    obtain ⟨called, defined⟩ := Prod.mk.inj same
    exact ⟨l, made, unresolved _ _ (called ▸ by decide) (defined ▸ by decide)⟩

end RdfXmlMapping

namespace RdfXmlMapping

/-- Characters that a name of a template does not tell apart. -/
def Confused (c d : Char) : Prop := c = d ∨ (c.isAlphanum = false ∧ d.isAlphanum = false)

instance (c d : Char) : Decidable (Confused c d) := inferInstanceAs (Decidable (_ ∨ _))

/-- Identities that differ at most in characters that are neither letters nor digits. -/
def Confusable (a b : String) : Prop := List.Forall₂ Confused a.toList b.toList

instance (a b : String) : Decidable (Confusable a b) :=
  inferInstanceAs (Decidable (List.Forall₂ _ _ _))

theorem templateName_eq_iff {a b : String} : templateName a = templateName b ↔ Confusable a b := by
  have characters (c d : Char) :
      (if c.isAlphanum then c else '_') = (if d.isAlphanum then d else '_') ↔ Confused c d := by
    have underscore : '_'.isAlphanum = false := by decide
    unfold Confused
    by_cases first : c.isAlphanum <;> by_cases second : d.isAlphanum
    · simp [first, second]
    · have other : c ≠ '_' := by
        rintro rfl
        simp [underscore] at first
      have differ : c ≠ d := by
        rintro rfl
        exact second first
      simp [first, second, other, differ]
    · have other : '_' ≠ d := by
        rintro rfl
        simp [underscore] at second
      have differ : c ≠ d := by
        rintro rfl
        exact first second
      simp [first, second, other, differ]
    · simp [first, second]
  unfold templateName Confusable
  rw [String.ofList_inj, List.cons.injEq, ← List.forall₂_eq_eq_eq, List.forall₂_map_left_iff,
    List.forall₂_map_right_iff]
  simp only [true_and, characters]

theorem templateName_ne_nodeTemplateName (iri : String) :
    templateName iri ≠ Lifting.nodeTemplateName := by
  intro same
  have first := congrArg (fun s => s.toList.head?) same
  simp only [templateName, String.toList_ofList, List.head?_cons] at first
  exact absurd first (by decide)

/-- The identities of the classes that are described can be told apart by their letters and
digits. -/
def Model.NamesApart (m : Model) : Prop :=
  m.describedClasses.Pairwise fun c d => ¬ Confusable c.iri d.iri

theorem Model.namesApart_iff {m : Model} :
    (m.describedClasses.map fun c => templateName c.iri).Nodup ↔ m.NamesApart := by
  rw [List.Nodup, List.pairwise_map]
  exact List.Pairwise.iff fun c d => not_congr templateName_eq_iff

/-! ### Templates of a model -/

namespace Lifting

theorem generate_definitions {s : Source} {l : Lifting} (h : generate s = .ok l) :
    Stylesheet.definitions (toXml l).children =
      (s.model.describedClasses.map fun c => templateName c.iri) ++ [nodeTemplateName] := by
  obtain ⟨_, _, _, _, _, each⟩ := generate_calls h
  have names : l.templates.map (·.name) =
      s.model.describedClasses.map fun c => templateName c.iri :=
    (forall₂_map_eq (each.imp fun _ _ of => of.1.symm)).symm
  rw [definitions_toXml, names]

end Lifting

namespace Lowering

theorem generate_definitions {s : Source} {l : Lowering} (h : generate s = .ok l) :
    Stylesheet.definitions (toXml l).children =
      s.model.describedClasses.map fun c => templateName c.iri := by
  obtain ⟨_, _, _, made⟩ := generate_made h
  have each := (templates_calls made.templates).2
  have names : l.templates.map (·.name) =
      s.model.describedClasses.map fun c => templateName c.iri :=
    (forall₂_map_eq (each.imp fun _ _ of => of.1.symm)).symm
  rw [definitions_toXml, names]

end Lowering

open Stylesheet

/-- Two models have templates of one name exactly if the identities of two of their classes are
confused. -/
theorem shared_name_iff {m m' : Model} {name : String} :
    (name ∈ m.describedClasses.map fun c => templateName c.iri) ∧
        (name ∈ m'.describedClasses.map fun c => templateName c.iri) ↔
      ∃ c ∈ m.describedClasses, ∃ d ∈ m'.describedClasses,
        Confusable c.iri d.iri ∧ name = templateName c.iri := by
  constructor
  · rintro ⟨here, there⟩
    obtain ⟨c, described, rfl⟩ := List.mem_map.mp here
    obtain ⟨d, described', same⟩ := List.mem_map.mp there
    exact ⟨c, described, d, described', templateName_eq_iff.mp same.symm, rfl⟩
  · rintro ⟨c, described, d, described', confused, rfl⟩
    refine ⟨List.mem_map.mpr ⟨c, described, rfl⟩, List.mem_map.mpr ⟨d, described', ?_⟩⟩
    exact (templateName_eq_iff.mpr confused).symm

/-- The templates at the top of a stylesheet have different names exactly if no identities of two
classes are confused. For the same reason alone two stylesheets define one and the same template,
but for the one that identifies nodes, which all stylesheets from documents define alike. -/
theorem template_names_distinct_iff (s s' : Source) :
    (∀ a b, templateName a = templateName b ↔ Confusable a b) ∧
    (∀ l, Lifting.generate s = .ok l →
      ((definitions (Lifting.toXml l).children).Nodup ↔ s.model.NamesApart) ∧
      ∀ l', Lifting.generate s' = .ok l' → ∀ name,
        (name ∈ definitions (Lifting.toXml l).children ∧
            name ∈ definitions (Lifting.toXml l').children ↔
          name = Lifting.nodeTemplateName ∨
            ∃ c ∈ s.model.describedClasses, ∃ d ∈ s'.model.describedClasses,
              Confusable c.iri d.iri ∧ name = templateName c.iri)) ∧
    (∀ l, Lowering.generate s = .ok l →
      ((definitions (Lowering.toXml l).children).Nodup ↔ s.model.NamesApart) ∧
      ∀ l', Lowering.generate s' = .ok l' → ∀ name,
        (name ∈ definitions (Lowering.toXml l).children ∧
            name ∈ definitions (Lowering.toXml l').children ↔
          ∃ c ∈ s.model.describedClasses, ∃ d ∈ s'.model.describedClasses,
            Confusable c.iri d.iri ∧ name = templateName c.iri)) := by
  refine ⟨fun a b => templateName_eq_iff, fun l made => ⟨?_, fun l' made' name => ?_⟩,
    fun l made => ⟨?_, fun l' made' name => ?_⟩⟩
  · have apart : Lifting.nodeTemplateName ∉
        s.model.describedClasses.map fun c => templateName c.iri := by
      intro member
      obtain ⟨c, _, same⟩ := List.mem_map.mp member
      exact templateName_ne_nodeTemplateName c.iri same
    rw [Lifting.generate_definitions made, List.nodup_append_comm, List.singleton_append,
      List.nodup_cons, Model.namesApart_iff]
    exact and_iff_right apart
  · rw [Lifting.generate_definitions made, Lifting.generate_definitions made', ← shared_name_iff]
    simp only [List.mem_append, List.mem_singleton]
    tauto
  · rw [Lowering.generate_definitions made, Model.namesApart_iff]
  · rw [Lowering.generate_definitions made, Lowering.generate_definitions made', shared_name_iff]

/-! ### The templates of a port -/

/-- A port with ships and with the berths where they lie, under identities of the given kinds. -/
def port (ship berth : String) : Source :=
  let meaning (c : Class) : Class := { c with meaning := some ("https://ex.org/" ++ c.label) }
  { model := (Model.make "port" "harbour").rootedAt [ship]
      |>.declaring ((meaning (Class.make ship "Ship"))
        |>.declaring ((Property.make "berth" "https://ex.org/berth").association berth))
      |>.declaring (meaning (Class.make berth "Berth"))
    manifests := []
    config := { output := { baseAddress := "https://own.org/" } } }

/-- The templates at the top of a stylesheet, if there is one. -/
def definedByLifting (s : Source) : Generated (List String) :=
  (fun l => definitions (Lifting.toXml l).children) <$> Lifting.generate s

def definedByLowering (s : Source) : Generated (List String) :=
  (fun l => definitions (Lowering.toXml l).children) <$> Lowering.generate s

theorem template_names_distinct_port :
    (∃ l, Lifting.generate (port "port/ship" "port/berth") = .ok l ∧
      (definitions (Lifting.toXml l).children).Nodup) ∧
    ∃ l, Lowering.generate (port "port/ship" "port/berth") = .ok l ∧
      (definitions (Lowering.toXml l).children).Nodup := by
  have apart : (port "port/ship" "port/berth").model.NamesApart := by
    unfold Model.NamesApart
    decide +kernel
  have lifted : (Lifting.generate (port "port/ship" "port/berth")).isOk := by decide +kernel
  have lowered : (Lowering.generate (port "port/ship" "port/berth")).isOk := by decide +kernel
  obtain ⟨l, made⟩ := except_isOk lifted
  obtain ⟨l', made'⟩ := except_isOk lowered
  obtain ⟨_, lift, lower⟩ :=
    template_names_distinct_iff (port "port/ship" "port/berth") (port "" "")
  exact ⟨⟨l, made, (lift l made).1.mpr apart⟩, l', made', (lower l' made').1.mpr apart⟩

/-- Two classes of a port have different identities and one template name, so neither stylesheet has
templates of different names. -/
theorem template_name_twice :
    ("port/ship" ≠ "port-ship" ∧ templateName "port/ship" = templateName "port-ship") ∧
    ((port "port/ship" "port-ship").model.classes.map (·.iri)).Nodup ∧
    (∃ l, Lifting.generate (port "port/ship" "port-ship") = .ok l ∧
      ¬ (definitions (Lifting.toXml l).children).Nodup) ∧
    ∃ l, Lowering.generate (port "port/ship" "port-ship") = .ok l ∧
      ¬ (definitions (Lowering.toXml l).children).Nodup := by
  have lifted : definedByLifting (port "port/ship" "port-ship") =
      .ok ["_port_ship", "_port_ship", "lift-node"] := by decide +kernel
  have lowered : definedByLowering (port "port/ship" "port-ship") =
      .ok ["_port_ship", "_port_ship"] := by decide +kernel
  obtain ⟨l, made, defines⟩ := except_map_ok lifted
  obtain ⟨l', made', defines'⟩ := except_map_ok lowered
  refine ⟨by decide +kernel, by decide +kernel, ⟨l, made, ?_⟩, l', made', ?_⟩
  · rw [defines]
    decide
  · rw [defines']
    decide

end RdfXmlMapping
