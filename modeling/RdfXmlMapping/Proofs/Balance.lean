import RdfXmlMapping.Artifact.Set
import RdfXmlMapping.Proofs.Schema.Writing
import RdfXmlMapping.Proofs.Stylesheet.Writing

/-!
The tags of artifacts that are written while they are generated. Main statement:
`artifacts_balanced`. Whatever conditions a tag is written under, its end is written under the same
ones, so that every function leaves the open elements as it has found them.
-/

namespace RdfXmlMapping

open Xml Xml.Writing

/-- Whatever is written of a schema, all that is opened for it is closed. -/
structure Schema.LeavesStack (x : Schema.Plan) : Prop where
  root : ∀ c, Writing.LeavesStack (x.writeRoot c)
  members : ∀ path chain c withIdentity,
    Writing.LeavesStack (x.writeMembers path chain c withIdentity)
  member : ∀ path chain p, Writing.LeavesStack (x.writeMember path chain p)
  classMember : ∀ path p target, Writing.LeavesStack (x.writeClassMember path p target)
  extension : ∀ c, Writing.LeavesStack (x.writeExtension c)
  declaration : ∀ pending, Writing.LeavesStack (x.writeDeclaration pending)

/-- Whatever is written of a stylesheet from documents to RDF, all that is opened for it is closed.
-/
structure Lifting.LeavesStack (m : Model) (o : Import.Outlook) : Prop where
  root : ∀ c, Writing.LeavesStack (writeRoot m o c)
  template : ∀ c, Writing.LeavesStack (writeTemplate m o c)
  forward : ∀ p, Writing.LeavesStack (writeForward m p)
  related : ∀ p, Writing.LeavesStack (writeRelated m o p)
  call : ∀ c suffix, Writing.LeavesStack (writeCall m o c suffix)

/-- Whatever is written of a stylesheet from query results to documents, all that is opened for it
is closed. -/
structure Lowering.LeavesStack (x : Lowering.Plan) : Prop where
  root : ∀ c priority, Writing.LeavesStack (x.writeRoot c priority)
  template : ∀ c, Writing.LeavesStack (x.writeTemplate c)
  item : ∀ p, Writing.LeavesStack (x.writeItem p)
  dispatch : ∀ plan, Writing.LeavesStack (x.writeDispatch plan)
  call : ∀ c id type noIdentity, Writing.LeavesStack (x.writeCall c id type noIdentity)

section

variable {α σ ε : Type} {f : Writing (StateT σ (Except ε)) Unit} {made : StateT σ (Except ε) α}

theorem leavesStack_element {e : α → Element} (same : f = writing made fun a => (e a).script) :
    Writing.LeavesStack f := same ▸ writing_leavesStack fun a => script_balanced (e a)

theorem leavesStack_elements {es : α → List Element}
    (same : f = writing made fun a => Element.scripts (es a)) : Writing.LeavesStack f :=
  same ▸ writing_leavesStack fun a => scripts_balanced (es a)

end

theorem Schema.leavesStack (x : Schema.Plan) : Schema.LeavesStack x where
  root _ := leavesStack_element (writeRoot_eq x _)
  members path chain _ withIdentity :=
    leavesStack_elements (writeMembers_eq (writeMember_eq x path chain) withIdentity)
  member path chain p := leavesStack_elements (writeMember_eq x path chain p)
  classMember path _ _ :=
    leavesStack_elements (writeClassMember_eq fun iri _ => writeMember_eq x (iri :: path) [iri])
  extension c := leavesStack_element (writeExtension_eq x c)
  declaration pending := leavesStack_element (writeDeclaration_eq x pending)

theorem Lifting.leavesStack (m : Model) (o : Import.Outlook) : Lifting.LeavesStack m o where
  root c := leavesStack_element (writeRoot_eq c)
  template c := leavesStack_element (writeTemplate_eq c)
  forward _ := leavesStack_elements writeForward_eq
  related _ := leavesStack_elements writeRelated_eq
  call c suffix := leavesStack_element (writeCall_eq c suffix)

theorem Lowering.leavesStack (x : Lowering.Plan) : Lowering.LeavesStack x where
  root c priority := leavesStack_element (writeRoot_eq c priority)
  template c := leavesStack_element (writeTemplate_eq c)
  item _ := leavesStack_element writeItem_eq
  dispatch plan := leavesStack_elements (writeDispatch_eq plan)
  call c id type noIdentity := leavesStack_element (writeCall_eq c id type noIdentity)

/-! ### Artifacts -/

namespace Source

/-- The document of an artifact as it is written; a query is none. -/
def draft? (s : Source) : ArtifactKind → Option (Generated Draft)
  | .schema => some (Schema.draft s)
  | .query => none
  | .lifting => some (Lifting.draft s)
  | .lowering => some (Lowering.draft s)

/-- What the functions leave behind that write parts of an artifact. -/
def LeavesStack (s : Source) : ArtifactKind → Prop
  | .schema => ∀ extended, Schema.LeavesStack (Schema.planOf s extended)
  | .query => True
  | .lifting => Lifting.LeavesStack s.model (s.outlook .lifting)
  | .lowering => Lowering.LeavesStack (.ofSource s)

end Source

variable {s : Source} {kind : ArtifactKind} {text : String}

theorem drafted_of {α : Type} {made : Generated α} {render : α → String} {draft : α → Draft}
    (same : ∀ a, (draft a).text = render a) (h : render <$> made = .ok text) :
    ∃ a, made = .ok a ∧ (draft a).text = text := by
  obtain ⟨a, run, rendered⟩ := except_map_ok h
  exact ⟨a, run, (same a).trans rendered⟩

/-- The text of an artifact that is a document is that of a balanced draft. Its functions leave the
stack as they find it. -/
theorem artifacts_balanced (document : kind ≠ .query) (made : s.artifact kind = .ok text) :
    s.LeavesStack kind ∧ ∃ d, s.draft? kind = some (.ok d) ∧ d.text = text ∧ d.IsBalanced := by
  cases kind with
  | query => exact absurd rfl document
  | schema =>
    obtain ⟨schema, run, rendered⟩ := drafted_of Schema.draftOf_text made
    have drafted : Schema.draft s = .ok (Schema.draftOf schema) := by
      rw [Schema.draft_eq, run]
      rfl
    exact ⟨fun extended => Schema.leavesStack _, _, congrArg some drafted, rendered,
      Draft.of_isBalanced⟩
  | lifting =>
    obtain ⟨l, run, rendered⟩ := drafted_of Lifting.draftOf_text made
    have drafted : Lifting.draft s = .ok (Lifting.draftOf l) := by
      rw [Lifting.draft_eq, run]
      rfl
    exact ⟨Lifting.leavesStack _ _, _, congrArg some drafted, rendered, Draft.of_isBalanced⟩
  | lowering =>
    obtain ⟨l, run, rendered⟩ := drafted_of Lowering.draftOf_text made
    have drafted : Lowering.draft s = .ok (Lowering.draftOf l) := by
      rw [Lowering.draft_eq, run]
      rfl
    exact ⟨Lowering.leavesStack _, _, congrArg some drafted, rendered, Draft.of_isBalanced⟩

/-- Concerts on stages, with artists of two classes and the programmes that list them. -/
def concerts : Source where
  model :=
    let property (label : String) (targets : List String) : Property :=
      targets.foldl Property.association (Property.make label ("https://ex.org/" ++ label))
    let meant (c : Class) : Class := { c with meaning := some ("https://ex.org/" ++ c.iri) }
    (Model.make "concerts" "music").rootedAt ["Concert"]
      |>.declaring (meant (Class.make "Concert" "Concert")
        |>.declaring ((property "title" []).primitive Vocabulary.langString)
        |>.declaring { property "stage" ["Stage"] with isSpliced := true }
        |>.declaring (property "artist" ["Artist", "Singer"])
        |>.declaring { property "programme" ["Programme"] with isReverse := true })
      |>.declaring (meant (Class.make "Artist" "Artist"))
      |>.declaring (meant ((Class.make "Singer" "Singer").extending "Artist"))
      |>.declaring ((Class.make "Stage" "Stage")
        |>.declaring ((property "name" []).primitive (Vocabulary.xsd ++ "string")))
      |>.declaring (Class.make "Programme" "Programme")
  manifests := []
  config := { output := { baseAddress := "https://own.org/" } }

set_option maxRecDepth 5000 in
theorem artifacts_balanced_concerts :
    (∃ d, concerts.draft? .schema = some (.ok d) ∧ concerts.artifact .schema = .ok d.text ∧
      d.IsBalanced) ∧
    (∃ d, concerts.draft? .lifting = some (.ok d) ∧ concerts.artifact .lifting = .ok d.text ∧
      d.IsBalanced) ∧
    ∃ d, concerts.draft? .lowering = some (.ok d) ∧ concerts.artifact .lowering = .ok d.text ∧
      d.IsBalanced := by
  have schema : (Schema.generate concerts).isOk := by cbv
  have lifting : (concerts.artifact .lifting).isOk := by decide +kernel
  have lowering : (concerts.artifact .lowering).isOk := by decide +kernel
  obtain ⟨x, schema⟩ := except_isOk schema
  obtain ⟨_, lifting⟩ := except_isOk lifting
  obtain ⟨_, lowering⟩ := except_isOk lowering
  have rendered : concerts.artifact .schema = .ok (Schema.render x) := by
    rw [Source.artifact, schema]
    rfl
  obtain ⟨_, d, drafted, text, balanced⟩ := artifacts_balanced (by decide) rendered
  obtain ⟨_, d', drafted', rfl, balanced'⟩ := artifacts_balanced (by decide) lifting
  obtain ⟨_, d'', drafted'', rfl, balanced''⟩ := artifacts_balanced (by decide) lowering
  exact ⟨⟨d, drafted, text ▸ rendered, balanced⟩, ⟨d', drafted', lifting, balanced'⟩,
    d'', drafted'', lowering, balanced''⟩

end RdfXmlMapping
