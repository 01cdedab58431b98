import Mathlib
import RdfXmlMapping.Artifact.Store
import RdfXmlMapping.Config.Decode
import RdfXmlMapping.Model.Build
import RdfXmlMapping.Proofs.Query.Text
import RdfXmlMapping.Proofs.Steps
import RdfXmlMapping.Proofs.Xml.Reading

/-!
What is in a directory after artifacts have been stored in it. All listed artifacts are written or
none (`store_all_or_nothing`). Two that go to one file are written one over the other, and since no
text is that of two artifacts, one of them is lost (`artifacts_kept_iff`).
-/

namespace RdfXmlMapping

/-! ### Files put into a directory

The last content of a file counts, and all other files stay as they are.
-/

namespace Files.Directory

variable {d : Directory} {location other : List String} {text : String}

theorem get?_put (location : List String) (text : String) (d : Directory) :
    (d.put location text).get? location = some text := by
  unfold put get?
  split
  next old =>
    obtain ⟨f, found⟩ := Option.isSome_iff_exists.mp (Option.isSome_map.symm.trans old)
    have located : f.1 = location := beq_iff_eq.mp (List.find?_some found :)
    have search : ((·.1 == location) ∘ fun f : List String × String =>
        if f.1 == location then (location, text) else f) = (·.1 == location) := by
      funext f
      by_cases here : f.1 = location <;> simp [here]
    rw [List.find?_map, search, found]
    simp [located]
  next new =>
    have none : d.files.find? (·.1 == location) = none := by
      cases found : d.files.find? (·.1 == location) with
      | none => rfl
      | some f => simp [found] at new
    rw [List.find?_append, none]
    simp

theorem get?_put_other (apart : other ≠ location) :
    (d.put location text).get? other = d.get? other := by
  unfold put
  split
  · have search : ((·.1 == other) ∘ fun f : List String × String =>
        if f.1 == location then (location, text) else f) = (·.1 == other) := by
      funext f
      by_cases here : f.1 = location <;> simp [here]
    rw [get?, get?, List.find?_map, search]
    cases found : d.files.find? (·.1 == other) with
    | none => rfl
    | some f =>
      have located : f.1 = other := beq_iff_eq.mp (List.find?_some found :)
      simp [located, apart]
  · have last : ([(location, text)] : List (List String × String)).find? (·.1 == other) = none := by
      simp [apart.symm]
    rw [get?, get?, List.find?_append, last, Option.or_none]

/-! ### Several files -/

/-- The directory after contents have been put into it, one after the other. -/
def putAll (d : Directory) (files : List (List String × String)) : Directory :=
  files.foldl (fun d f => d.put f.1 f.2) d

theorem get?_putAll_other {files : List (List String × String)}
    (apart : ∀ f ∈ files, f.1 ≠ location) : (d.putAll files).get? location = d.get? location := by
  induction files generalizing d with
  | nil => rfl
  | cons f files ih =>
    obtain ⟨first, rest⟩ := List.forall_mem_cons.mp apart
    exact (ih rest).trans (get?_put_other first.symm)

/-- A file that has been put has one of the contents put at its place. -/
theorem get?_putAll {files : List (List String × String)} (put : ∃ f ∈ files, f.1 = location) :
    ∃ f ∈ files, f.1 = location ∧ (d.putAll files).get? location = some f.2 := by
  induction files generalizing d with
  | nil =>
    obtain ⟨f, member, _⟩ := put
    cases member
  | cons f files ih =>
    by_cases later : ∃ g ∈ files, g.1 = location
    · obtain ⟨g, member, located, held⟩ := ih (d := d.put f.1 f.2) later
      exact ⟨g, List.mem_cons_of_mem _ member, located, held⟩
    · have last : f.1 = location := by
        obtain ⟨g, member, located⟩ := put
        rcases List.mem_cons.mp member with rfl | member
        · exact located
        · exact absurd ⟨g, member, located⟩ later
      refine ⟨f, List.mem_cons_self, last, ?_⟩
      have untouched := get?_putAll_other (d := d.put f.1 f.2) fun g member located =>
        later ⟨g, member, located⟩
      exact untouched.trans (last ▸ get?_put f.1 f.2 d)

end Files.Directory

variable {s : Source} {kind other : ArtifactKind} {kinds : List ArtifactKind} {text : String}

/-! ### Beginnings of artifacts -/

def Xml.declarationChars : List Char := "<?xml version=\"1.0\" encoding=\"utf-8\"?>\n".toList

/-- How the text of an artifact may begin. -/
def ArtifactKind.openings : ArtifactKind → List (List Char)
  | .schema => [Xml.declarationChars ++ Xml.tagChars "xs:schema" []]
  | .query => ["PREFIX ".toList, "CONSTRUCT ".toList, "SELECT ".toList]
  | .lifting => [Xml.declarationChars ++ (Xml.tagChars "xsl:stylesheet" Stylesheet.headAttributes ++
      Xml.attributeChars ("xmlns:rdf", Vocabulary.rdf))]
  | .lowering =>
    [Xml.declarationChars ++ (Xml.tagChars "xsl:stylesheet" Stylesheet.headAttributes ++
      Xml.attributeChars ("xmlns:xs", Vocabulary.xmlSchema))]

theorem Xml.document_opens {name : String} {attributes : Attributes} {children : List Element} :
    declarationChars ++ tagChars name attributes <+:
      (Element.node name attributes children).document.toList := by
  rw [Element.document_eq, Element.body, ← tag_toList]
  simp only [String.toList_append, List.append_assoc]
  exact (List.prefix_append_right_inj _).mpr (List.prefix_append _ _)

theorem Xml.tagChars_opens (name : String) (first : Attributes) (a : String × String)
    (rest : Attributes) :
    tagChars name first ++ attributeChars a <+: tagChars name (first ++ a :: rest) := by
  refine ⟨rest.flatMap attributeChars, ?_⟩
  simp [tagChars]

theorem Query.opens {opening rest line : String} (split : line = opening ++ rest)
    (member : opening.toList ∈ ArtifactKind.query.openings) :
    ∃ o ∈ ArtifactKind.query.openings, o <+: line.toList := by
  refine ⟨opening.toList, member, ?_⟩
  rw [split, String.toList_append]
  exact List.prefix_append _ _

theorem Query.first_line (q : Query) (form : QueryForm) (b : Bindings) :
    ∃ first rest, headLines q ++ bodyLines q b form = first :: rest ∧
      ∃ opening ∈ ArtifactKind.query.openings, opening <+: first.toList := by
  obtain ⟨_ | ⟨⟨name, uri⟩, prefixes⟩, template, pattern, n⟩ := q
  · cases form with
    | construct =>
      have split : "CONSTRUCT \x7b" = "CONSTRUCT " ++ "\x7b" := rfl
      exact ⟨_, _, rfl, opens split (.tail _ (.head _))⟩
    | select =>
      have split : "SELECT DISTINCT ?" ++ b.subject ++ " ?" ++ b.predicate ++ " ?" ++ b.object =
          "SELECT " ++ ("DISTINCT ?" ++ b.subject ++ " ?" ++ b.predicate ++ " ?" ++ b.object) := by
        simp only [← String.append_assoc]
        rfl
      exact ⟨_, _, rfl, opens split (.tail _ (.tail _ (.head _)))⟩
  · have split : "PREFIX " ++ name ++ ": <" ++ uri ++ ">" =
        "PREFIX " ++ (name ++ ": <" ++ uri ++ ">") := by
      simp only [String.append_assoc]
    exact ⟨_, _, rfl, opens split (.head _)⟩

theorem Query.render_opens (q : Query) (form : QueryForm) (b : Bindings) :
    ∃ opening ∈ ArtifactKind.query.openings, opening <+: (q.render form b).toList := by
  obtain ⟨first, rest, lines, opening, member, start⟩ := q.first_line form b
  refine ⟨opening, member, start.trans ?_⟩
  rw [render_toList, lines, List.map_cons, Text.unlines_cons]
  exact List.prefix_append _ _

theorem Source.artifact_opens (h : s.artifact kind = .ok text) :
    ∃ opening ∈ kind.openings, opening <+: text.toList := by
  -- A stylesheet has the same first attributes whether it lifts or lowers; the next one differs.
  have stylesheet {a : String × String} {rest : Xml.Attributes} {children : List Xml.Element} :
      Xml.declarationChars ++ (Xml.tagChars "xsl:stylesheet" Stylesheet.headAttributes ++
        Xml.attributeChars a) <+: (Xml.Element.node "xsl:stylesheet"
          (Stylesheet.headAttributes ++ a :: rest) children).document.toList :=
    ((List.prefix_append_right_inj _).mpr (Xml.tagChars_opens ..)).trans Xml.document_opens
  cases kind with
  | schema =>
    obtain ⟨x, _, rfl⟩ := except_map_ok h
    refine ⟨_, List.mem_singleton_self _, List.IsPrefix.trans ?_ Xml.document_opens⟩
    exact (List.prefix_append_right_inj _).mpr (by simp [Xml.tagChars])
  | query =>
    obtain ⟨q, _, h⟩ := except_bind_ok h
    obtain rfl := Except.ok.inj h
    exact q.render_opens _ _
  | lifting =>
    obtain ⟨x, _, rfl⟩ := except_map_ok h
    exact ⟨_, List.mem_singleton_self _, stylesheet⟩
  | lowering =>
    obtain ⟨x, _, rfl⟩ := except_map_ok h
    exact ⟨_, List.mem_singleton_self _, stylesheet⟩

theorem ArtifactKind.openings_apart (apart : kind ≠ other) :
    ∀ o ∈ kind.openings, ∀ o' ∈ other.openings, ¬ o <+: o' := by
  have declared : Xml.declarationChars = '<' :: Xml.declarationChars.tail := rfl
  have spaces (value value' : String) :
      ¬ Xml.attributeChars ("xmlns:rdf", value) <+: Xml.attributeChars ("xmlns:xs", value') ∧
      ¬ Xml.attributeChars ("xmlns:xs", value) <+: Xml.attributeChars ("xmlns:rdf", value') := by
    simp [Xml.attributeChars]
  cases kind <;> cases other <;> try exact absurd rfl apart
  all_goals simp only [openings, List.mem_cons, List.not_mem_nil, or_false, forall_eq,
    forall_eq_or_imp, List.prefix_append_right_inj]
  -- Queries begin with a letter, schemas have a document element of another name than stylesheets.
  case lifting.lowering => exact (spaces _ _).1
  case lowering.lifting => exact (spaces _ _).2
  case schema.lifting | schema.lowering | lifting.schema | lowering.schema => simp [Xml.tagChars]
  all_goals
    rw [declared]
    simp

/-- No text is the artifact of two kinds. -/
theorem Source.artifact_kind_unique (h : s.artifact kind = .ok text)
    (h' : s.artifact other = .ok text) : kind = other := by
  by_contra apart
  obtain ⟨o, member, start⟩ := artifact_opens h
  obtain ⟨o', member', start'⟩ := artifact_opens h'
  rcases List.prefix_or_prefix_of_prefix start start' with shorter | longer
  · exact ArtifactKind.openings_apart apart o member o' member' shorter
  · exact ArtifactKind.openings_apart (Ne.symm apart) o' member' o member longer

/-! ### All or none -/

def Source.placeOf (s : Source) (directory : String) (kind : ArtifactKind) : List String :=
  Files.place (Files.join directory (s.config.output.fileName kind))

variable {directory : String} {d d' : Files.Directory} {texts : List (ArtifactKind × String)}
  {refusal : Refusal}

theorem Source.renderAll_ok (h : s.renderAll kinds = .ok texts) :
    texts.map (·.1) = kinds ∧ ∀ t ∈ texts, s.artifact t.1 = .ok t.2 := by
  have each := except_mapM_ok h
  clear h
  induction each with
  | nil => exact ⟨rfl, fun t member => by cases member⟩
  | @cons kind t kinds texts first _ ih =>
    obtain ⟨same, rest⟩ := ih
    split at first
    next text made =>
      obtain rfl := Except.ok.inj first
      exact ⟨congrArg (kind :: ·) same, List.forall_mem_cons.mpr ⟨made, rest⟩⟩
    next => cases first

theorem Source.renderAll_error (h : s.renderAll kinds = .error refusal) : ∃ before after,
    kinds = before ++ refusal.kind :: after ∧ (∀ kind ∈ before, (s.artifact kind).isOk) ∧
      s.artifact refusal.kind = .error refusal.cause := by
  induction kinds with
  | nil => cases h
  | cons kind kinds ih =>
    rw [renderAll, List.mapM_cons] at h
    rcases except_bind_error h with first | ⟨t, first, h⟩ <;> split at first
    next => cases first
    next cause failed =>
      obtain rfl := Except.error.inj first
      exact ⟨[], kinds, rfl, fun kind member => (List.not_mem_nil member).elim, failed⟩
    next text made =>
      rcases except_bind_error h with rest | ⟨_, _, h⟩
      · obtain ⟨before, after, split, others, failed⟩ := ih rest
        refine ⟨kind :: before, after, congrArg (kind :: ·) split, ?_, failed⟩
        exact List.forall_mem_cons.mpr ⟨by rw [made]; rfl, others⟩
      · cases h
    next => cases first

theorem Source.store_refused {m : Type → Type} [Monad m] {fs : Files.System m}
    (h : s.renderAll kinds = .error refusal) :
    s.store fs directory kinds = pure (.error refusal) := by
  rw [store, h]

theorem Source.writeAll_run (directory : String) (texts : List (ArtifactKind × String))
    (d : Files.Directory) : (s.writeAll Files.Directory.system directory texts).run d =
      ((), d.putAll (texts.map fun t => (s.placeOf directory t.1, t.2))) := by
  induction texts generalizing d with
  | nil => rfl
  | cons t texts ih => exact ih (d.put (s.placeOf directory t.1) t.2)

theorem Source.store_written (h : s.renderAll kinds = .ok texts) :
    (s.store Files.Directory.system directory kinds).run d =
      (.ok {
        classCount := s.model.classes.length
        propertyCount := s.model.propertyCount
        artifactCount := kinds.length
        files := kinds.map s.config.output.fileName },
      d.putAll (texts.map fun t => (s.placeOf directory t.1, t.2))) := by
  obtain ⟨listed, _⟩ := renderAll_ok h
  have count : texts.length = kinds.length := by rw [← listed, List.length_map]
  have names : texts.map (fun t => s.config.output.fileName t.1) =
      kinds.map s.config.output.fileName := by rw [← listed, List.map_map]; rfl
  rw [store, h, ← count, ← names]
  dsimp only
  rw [StateT.run_bind, writeAll_run]
  rfl

/-- Storing artifacts is all or nothing: the first listed one that cannot be generated is reported
and no file changes, or all files are reported in order and no others change. -/
theorem Source.store_all_or_nothing (s : Source) (directory : String) (kinds : List ArtifactKind)
    (d : Files.Directory) :
    (∃ before kind after cause, kinds = before ++ kind :: after ∧
      (∀ k ∈ before, (s.artifact k).isOk) ∧ s.artifact kind = .error cause ∧
      (s.store Files.Directory.system directory kinds).run d = (.error ⟨kind, cause⟩, d)) ∨
    (∀ kind ∈ kinds, (s.artifact kind).isOk) ∧
      ∃ d', (s.store Files.Directory.system directory kinds).run d =
        (.ok {
          classCount := s.model.classes.length
          propertyCount := s.model.propertyCount
          artifactCount := kinds.length
          files := kinds.map s.config.output.fileName }, d') ∧
        ∀ location ∉ kinds.map (s.placeOf directory), d'.get? location = d.get? location := by
  cases rendered : s.renderAll kinds with
  | error refusal =>
    obtain ⟨before, after, split, others, failed⟩ := renderAll_error rendered
    refine .inl ⟨before, refusal.kind, after, refusal.cause, split, others, failed, ?_⟩
    rw [store_refused rendered]
    rfl
  | ok texts =>
    obtain ⟨listed, made⟩ := renderAll_ok rendered
    refine .inr ⟨fun kind member => ?_, _, store_written rendered, fun location other => ?_⟩
    · obtain ⟨t, present, rfl⟩ := List.mem_map.mp (listed ▸ member)
      rw [made t present]
      rfl
    · refine Files.Directory.get?_putAll_other fun f member located => other ?_
      obtain ⟨t, present, rfl⟩ := List.mem_map.mp member
      rw [← located, ← listed]
      exact List.mem_map_of_mem (List.mem_map_of_mem present)

/-! ### Artifacts that are lost -/

theorem Source.store_holds (rendered : s.renderAll kinds = .ok texts) (member : kind ∈ kinds) :
    ∃ other ∈ kinds, s.placeOf directory other = s.placeOf directory kind ∧
      ∃ text, s.artifact other = .ok text ∧
        (d.putAll (texts.map fun t => (s.placeOf directory t.1, t.2))).get?
          (s.placeOf directory kind) = some text := by
  obtain ⟨listed, made⟩ := renderAll_ok rendered
  obtain ⟨t, present, rfl⟩ := List.mem_map.mp (listed ▸ member)
  obtain ⟨f, put, located, held⟩ := Files.Directory.get?_putAll (d := d)
    ⟨_, List.mem_map_of_mem (f := fun t => (s.placeOf directory t.1, t.2)) present, rfl⟩
  obtain ⟨u, last, rfl⟩ := List.mem_map.mp put
  exact ⟨u.1, listed ▸ List.mem_map_of_mem last, located, u.2, made u last, held⟩

/-- All listed artifacts are in their files after they have been stored exactly if no two of them go
to one file. -/
theorem Source.artifacts_kept_iff {g : Generation}
    (h : (s.store Files.Directory.system directory kinds).run d = (.ok g, d')) :
    (∀ kind ∈ kinds, ∃ text, s.artifact kind = .ok text ∧
      d'.get? (s.placeOf directory kind) = some text) ↔
    ∀ kind ∈ kinds, ∀ other ∈ kinds,
      s.placeOf directory kind = s.placeOf directory other → kind = other := by
  cases rendered : s.renderAll kinds with
  | error refusal =>
    rw [store_refused rendered] at h
    cases h
  | ok texts =>
    obtain rfl : d.putAll _ = d' := (Prod.mk.inj ((store_written rendered).symm.trans h)).2
    constructor
    · intro kept kind listed other listed' shared
      obtain ⟨text, made, held⟩ := kept kind listed
      obtain ⟨text', made', held'⟩ := kept other listed'
      rw [shared, held'] at held
      obtain rfl := Option.some.inj held
      exact artifact_kind_unique made made'
    · intro apart kind listed
      obtain ⟨other, listed', shared, text, made, held⟩ := store_holds rendered listed
      obtain rfl := apart other listed' kind listed shared
      exact ⟨text, made, held⟩

def diary (queryFile : String) : Source where
  model := (Model.make "diary" "own").rootedAt ["Entry"]
    |>.declaring (Class.make "Entry" "Entry")
  manifests := []
  config := { output := { queryFile } }

set_option maxRecDepth 2000 in
theorem artifacts_diary (queryFile : String) :
    ((diary queryFile).artifact .schema).isOk ∧ ((diary queryFile).artifact .query).isOk := by
  have schema : (Schema.generate (diary queryFile)).isOk := by cbv
  have query : (Query.ofModel (diary queryFile).model).isOk := by cbv
  obtain ⟨x, made⟩ := except_isOk schema
  obtain ⟨q, made'⟩ := except_isOk query
  rw [Source.artifact, Source.artifact, Query.generate, made, made']
  exact ⟨rfl, rfl⟩

theorem renderAll_diary (queryFile : String) : ∃ schema query,
    (diary queryFile).artifact .schema = .ok schema ∧
      (diary queryFile).artifact .query = .ok query ∧
      (diary queryFile).renderAll [.schema, .query] = .ok [(.schema, schema), (.query, query)] := by
  obtain ⟨first, second⟩ := artifacts_diary queryFile
  obtain ⟨schema, made⟩ := except_isOk first
  obtain ⟨query, made'⟩ := except_isOk second
  refine ⟨schema, query, made, made', ?_⟩
  simp only [Source.renderAll, List.mapM_cons, List.mapM_nil, made, made']
  rfl

theorem artifacts_kept_diary : ∃ g d',
    ((diary "query.sparql").store Files.Directory.system "out" [.schema, .query]).run {} =
      (.ok g, d') ∧
    ∀ kind ∈ [ArtifactKind.schema, .query], ∃ text,
      (diary "query.sparql").artifact kind = .ok text ∧
      d'.get? ((diary "query.sparql").placeOf "out" kind) = some text := by
  obtain ⟨schema, query, _, _, rendered⟩ := renderAll_diary "query.sparql"
  have written := @Source.store_written _ _ "out" {} _ rendered
  refine ⟨_, _, written, (Source.artifacts_kept_iff written).mpr ?_⟩
  decide +kernel

/-- The query is written over the schema if the settings name one file for both, and both are
reported. -/
theorem schema_overwritten :
    Config.parse "[output]\nquery-file = \"schema.xsd\"\n" = .ok (diary "schema.xsd").config ∧
    ∃ g d' schema,
      ((diary "schema.xsd").store Files.Directory.system "out" [.schema, .query]).run {} =
        (.ok g, d') ∧
      g.files = ["schema.xsd", "schema.xsd"] ∧ g.artifactCount = 2 ∧
      (diary "schema.xsd").artifact .schema = .ok schema ∧
      d'.get? ((diary "schema.xsd").placeOf "out" .schema) ≠ some schema := by
  refine ⟨by cbv, ?_⟩
  obtain ⟨schema, query, made, made', rendered⟩ := renderAll_diary "schema.xsd"
  have written := @Source.store_written _ _ "out" {} _ rendered
  refine ⟨_, _, schema, written, by decide, rfl, made, fun held => ?_⟩
  have shared : (diary "schema.xsd").placeOf "out" .schema =
      (diary "schema.xsd").placeOf "out" .query := rfl
  simp only [List.map_cons, List.map_nil, Files.Directory.putAll, List.foldl_cons, List.foldl_nil,
    shared, Files.Directory.get?_put] at held
  rw [Option.some.inj held] at made'
  cases Source.artifact_kind_unique made made'

end RdfXmlMapping
