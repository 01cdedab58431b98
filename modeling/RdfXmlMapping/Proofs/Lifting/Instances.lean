import Mathlib
import RdfXmlMapping.Model.Build
import RdfXmlMapping.Proofs.Lifting.Arcs

/-!
Instances that are spliced into others. The stylesheet from documents to RDF describes each by a
node of its own, whose identifier is made of the element and of the names of the properties that
lead to it. The names are joined by underscores, and the identifiers of two chains of properties are
alike exactly if the names come to the same pieces between underscores (`node_ids`).
-/

namespace RdfXmlMapping

/-- A chain of spliced properties leads from a class to another. -/
inductive Model.SplicedAlong (m : Model) : Class → List Property → Class → Prop
  | here (c : Class) : SplicedAlong m c [] c
  | through {c d e : Class} {own ps : List Property} {p : Property} :
      m.effectiveProperties c = .ok own → p ∈ own → p.isSpliced → m.spliceTarget p = .ok d →
      SplicedAlong m d ps e → SplicedAlong m c (p :: ps) e

/-- The spliced properties of each class have different names. -/
def Model.NamesSplices (m : Model) : Prop :=
  ∀ c ∈ m.classes, ∀ own ∈ (m.effectiveProperties c).toOption,
    ((own.filter (·.isSpliced)).map fun p => toNCName p.label).Nodup

instance (m : Model) : Decidable m.NamesSplices := List.decidableBAll _ m.classes

/-- The name of a property tells it from the other spliced properties of a class. -/
theorem Model.NamesSplices.inj {m : Model} (named : m.NamesSplices) {c : Class}
    (known : c ∈ m.classes) {own : List Property} (effective : m.effectiveProperties c = .ok own)
    {p q : Property} (first : p ∈ own) (second : q ∈ own) (spliced : p.isSpliced)
    (spliced' : q.isSpliced) (same : toNCName p.label = toNCName q.label) : p = q := by
  have distinct := named c known own (by rw [effective]; rfl)
  exact List.inj_on_of_nodup_map distinct (List.mem_filter.mpr ⟨first, spliced⟩)
    (List.mem_filter.mpr ⟨second, spliced'⟩) same

namespace Lifting

open Stylesheet
open Xml (Element)

/-! ### Expressions -/

/-- The expressions by which a stylesheet computes suffixes and identifiers. -/
inductive Expression where
  | literal (text : String) (plain : '\'' ∉ text.toList)
  | suffix
  /-- What identifies the current element in its document. -/
  | elementId
  | concat (parts : List Expression)
  | translate (e : Expression) (old new : Char)

mutual

def Expression.text : Expression → String
  | literal text _ => "'" ++ text ++ "'"
  | suffix => "$suffix"
  | elementId => "generate-id()"
  | concat parts => "concat(" ++ ", ".intercalate (texts parts) ++ ")"
  | translate e old new =>
    "translate(" ++ e.text ++ ", '" ++ old.toString ++ "', '" ++ new.toString ++ "')"

def Expression.texts : List Expression → List String
  | [] => []
  | e :: es => e.text :: texts es

end

/-- A text with each occurrence of a character replaced. -/
def replaceChar (old new : Char) (text : String) : String :=
  .ofList (text.toList.map fun c => if c = old then new else c)

mutual

/-- What an expression stands for where an element has this identity and is lifted with this
suffix. -/
def Expression.value (element suffix : String) : Expression → String
  | literal text _ => text
  | .suffix => suffix
  | elementId => element
  | concat parts => String.join (values element suffix parts)
  | translate e old new => replaceChar old new (e.value element suffix)

def Expression.values (element suffix : String) : List Expression → List String
  | [] => []
  | e :: es => e.value element suffix :: values element suffix es

end

@[simp]
theorem text_literal {s : String} (plain : '\'' ∉ s.toList) :
    (Expression.literal s plain).text = "'" ++ s ++ "'" := rfl

@[simp]
theorem text_concat_pair (e e' : Expression) :
    (Expression.concat [e, e']).text = "concat(" ++ (e.text ++ ", " ++ e'.text) ++ ")" := rfl

@[simp]
theorem value_concat {element suffix : String} (es : List Expression) :
    (Expression.concat es).value element suffix =
      String.join (es.map (Expression.value element suffix)) := by
  rw [Expression.value]
  congr 1
  induction es with
  | nil => rfl
  | cons e es ih => rw [Expression.values, List.map_cons, ih]

theorem name_plain (label : String) : '\'' ∉ ("/" ++ toNCName label).toList := by
  rw [String.toList_append, List.mem_append]
  rintro (slash | inside)
  · exact absurd slash (by decide)
  · exact not_mem_of_isPart (toNCName_part label) (by decide) inside

/-- The suffix of an instance spliced in by a property. -/
def Expression.extension (p : Property) : Expression :=
  .concat [.suffix, .literal ("/" ++ toNCName p.label) (name_plain p.label)]

/-- The identifier of an instance. -/
def Expression.identifier : Expression :=
  .concat [.literal "n" (by decide), .elementId, .translate .suffix '/' '_']

theorem text_extended (name : String) :
    (Suffix.extended name).text = "concat($suffix, '/" ++ name ++ "')" := rfl

/-- The suffix that a call hands on is that of the instance spliced in. -/
theorem extension_text (p : Property) :
    (Expression.extension p).text = (Suffix.extended (toNCName p.label)).text := by
  have start : "concat(" ++ ("$suffix" ++ (", " ++ ("'" ++ "/"))) = "concat($suffix, '/" := by
    decide
  have stop : "'" ++ ")" = "')" := by decide
  rw [Expression.extension, text_concat_pair, text_literal, text_extended]
  generalize toNCName p.label = name
  calc "concat(" ++ ("$suffix" ++ ", " ++ ("'" ++ ("/" ++ name) ++ "'")) ++ ")"
    _ = "concat(" ++ ("$suffix" ++ (", " ++ ("'" ++ "/"))) ++ name ++ ("'" ++ ")") := by
      simp only [String.append_assoc]
    _ = "concat($suffix, '/" ++ name ++ "')" := by rw [start, stop]

theorem extension_value (element suffix : String) (p : Property) :
    (Expression.extension p).value element suffix = suffix ++ "/" ++ toNCName p.label := by
  simp [Expression.extension, Expression.value, String.join, String.append_assoc]

/-- What identifies an instance of an element that has a suffix. -/
def nodeId (element suffix : String) : String := "n" ++ element ++ replaceChar '/' '_' suffix

theorem identifier_text : Expression.identifier.text =
    "concat('n', generate-id(), translate($suffix, '/', '_'))" := by decide

theorem identifier_value (element suffix : String) :
    Expression.identifier.value element suffix = nodeId element suffix := by
  simp [Expression.identifier, Expression.value, String.join, nodeId]

/-! ### What a stylesheet describes -/

/-- The template for identities writes the identifier of an instance that has a suffix. -/
inductive Identifies (stylesheet : Element) (element suffix : String) : String → Prop
  | otherwise {parameters body : List Element} {own : String} {e : Expression} :
      template nodeTemplateName (parameters ++ [.node "xsl:choose" [] [
          .node "xsl:when" [("test", "$suffix = '' and " ++ own)] body,
          .node "xsl:otherwise" [] [attributeOf "rdf:nodeID" e.text]]]) ∈ stylesheet.children →
        suffix ≠ "" → Identifies stylesheet element suffix (e.value element suffix)

/-- A template that is called with a suffix for an element has a template describe the node with
this identifier: the template itself does so, or one that it calls for the same element, perhaps
under a condition. -/
inductive Describes (stylesheet : Element) (element : String) :
    (called suffix describing id : String) → Prop
  | here {name suffix id : String} {before after content : List Element} :
      template name (before ++ .node "rdf:Description" []
          (call nodeTemplateName [argument "suffix" Expression.suffix.text] :: content) :: after) ∈
        stylesheet.children →
      Identifies stylesheet element suffix id → Describes stylesheet element name suffix name id
  | through {name suffix callee describing id : String} {body : List Element} {x : Element}
      {e : Expression} :
      template name body ∈ stylesheet.children → x ∈ body → (unwrapped x).1 = none →
      call callee [argument "suffix" e.text] ∈ (unwrapped x).2 →
      Describes stylesheet element callee (e.value element suffix) describing id →
      Describes stylesheet element name suffix describing id

/-- The suffix of an instance that a chain of properties splices in. -/
def suffixAlong (suffix : String) (ps : List Property) : String :=
  ps.foldl (fun suffix p => suffix ++ "/" ++ toNCName p.label) suffix

/-- The names of properties cut at underscores. -/
def namePieces (ps : List Property) : List (List Char) :=
  ps.flatMap fun p => Text.segments '_' (toNCName p.label).toList

variable {s : Source} {l : Lifting} {t : Template} {c d : Class} {p : Property}
  {ps qs : List Property} {element suffix describing id : String}

theorem nodeTemplate_identifies : ∃ parameters body own, nodeTemplate =
    template nodeTemplateName (parameters ++ [.node "xsl:choose" [] [
      .node "xsl:when" [("test", "$suffix = '' and " ++ own)] body,
      .node "xsl:otherwise" [] [attributeOf "rdf:nodeID" Expression.identifier.text]]]) := by
  rw [identifier_text]
  exact ⟨[_, _], _, _, rfl⟩

theorem identifies_nodeId (l : Lifting) (element : String) (filled : suffix ≠ "") :
    Identifies (toXml l) element suffix (nodeId element suffix) := by
  obtain ⟨_, _, _, written⟩ := nodeTemplate_identifies
  have present : nodeTemplate ∈ (toXml l).children := List.mem_append_right _ List.mem_cons_self
  rw [written] at present
  rw [← identifier_value]
  exact .otherwise present filled

/-- The template of a class describes a node with the suffix that it is called with. -/
theorem template_describes (t : Template) : ∃ before content after, t.toXml =
    template t.name (before ++ .node "rdf:Description" []
      (call nodeTemplateName [argument "suffix" Expression.suffix.text] :: content) :: after) :=
  ⟨[_], _, _, rfl⟩

theorem template_mem (member : t ∈ l.templates) : t.toXml ∈ (toXml l).children :=
  List.mem_append_left _ (List.mem_append_right _ (List.mem_map_of_mem member))

theorem describes_itself (member : t ∈ l.templates) (filled : suffix ≠ "") :
    Describes (toXml l) element t.name suffix t.name (nodeId element suffix) := by
  obtain ⟨_, _, _, written⟩ := template_describes t
  have present := template_mem member
  rw [written] at present
  exact .here present (identifies_nodeId l element filled)

theorem call_unwrapped (present : List String) (predicate : Option String)
    (name template : String) :
    ∃ x ∈ (Related.spliced present name predicate template).toXml, (unwrapped x).1 = none ∧
      call template [argument "suffix" (Suffix.extended name).text] ∈ (unwrapped x).2 := by
  rw [Related.toXml, whenPresent]
  split
  · exact ⟨_, List.mem_append_right _ List.mem_cons_self, rfl, List.mem_cons_self⟩
  · exact ⟨_, List.mem_cons_self, rfl, List.mem_append_right _ List.mem_cons_self⟩

/-- What the template of the class spliced in describes with the longer suffix, the template of the
class with the property describes. -/
theorem describes_spliced (member : t ∈ l.templates) {present : List String}
    {predicate : Option String} {callee : String}
    (related : .spliced present (toNCName p.label) predicate callee ∈ t.related)
    (inner : Describes (toXml l) element callee (suffix ++ "/" ++ toNCName p.label) describing id) :
    Describes (toXml l) element t.name suffix describing id := by
  obtain ⟨x, inside, plain, called⟩ := call_unwrapped present predicate (toNCName p.label) callee
  rw [← extension_text] at called
  rw [← extension_value element] at inner
  have among : x ∈ t.related.flatMap Related.toXml := List.mem_flatMap.mpr ⟨_, related, inside⟩
  exact .through (template_mem member) (List.mem_append_right _ among) plain called inner

/-- The template of a class whose instances are described. -/
theorem template_of (h : generate s = .ok l) (described : c ∈ s.model.describedClasses) :
    ∃ t ∈ l.templates, t.name = templateName c.iri ∧
      ∀ own, s.model.effectiveProperties c = .ok own → ∀ p ∈ own, p.isSpliced → ∀ d,
        s.model.spliceTarget p = .ok d → ∃ present predicate,
          .spliced present (toNCName p.label) predicate (templateName d.iri) ∈ t.related := by
  obtain ⟨table, _, _, each⟩ := generate_states h
  obtain ⟨t, member, properties, _, rs, own, _, relateds, rfl⟩ := forall₂_mem_left each described
  refine ⟨_, member, rfl, fun own' same p inside spliced d target => ?_⟩
  obtain rfl := Except.ok.inj (own.symm.trans same)
  obtain ⟨r, among, related⟩ := forall₂_mem_left relateds inside
  obtain ⟨d', present, predicate, target', rfl⟩ := related.spliced spliced
  obtain rfl := Except.ok.inj (target'.symm.trans target)
  exact ⟨present, predicate, List.mem_flatten.mpr ⟨_, among, List.mem_cons_self⟩⟩

/-- The stylesheet describes an instance that a chain of properties splices in by a node of its own.
The induction is on the chain, and the suffix grows with it. -/
theorem describes_along (h : generate s = .ok l) (chain : s.model.SplicedAlong c ps d)
    (described : c ∈ s.model.describedClasses) (element suffix : String)
    (filled : suffixAlong suffix ps ≠ "") :
    Describes (toXml l) element (templateName c.iri) suffix (templateName d.iri)
      (nodeId element (suffixAlong suffix ps)) := by
  induction chain generalizing suffix with
  | here c =>
    obtain ⟨t, member, same, _⟩ := template_of h described
    exact same ▸ describes_itself member filled
  | through own inside spliced target _ ih =>
    obtain ⟨t, member, same, related⟩ := template_of h described
    obtain ⟨present, predicate, among⟩ := related _ own _ inside spliced _ target
    have inner := ih (Model.describedClasses_of_spliceTarget target) _ filled
    exact same ▸ describes_spliced member among inner

/-! ### Pieces of names -/

/-- What a chain of properties adds to an identifier. -/
def joinedNames (ps : List Property) : List Char :=
  ps.flatMap fun p => '_' :: (toNCName p.label).toList

theorem replaceChar_name (label : String) :
    (toNCName label).toList.map (fun c => if c = '/' then '_' else c) =
      (toNCName label).toList := by
  have free : '/' ∉ (toNCName label).toList := not_mem_of_isPart (toNCName_part label) (by decide)
  refine (List.map_congr_left fun c inside => if_neg ?_).trans (List.map_id _)
  rintro rfl
  exact free inside

theorem replaceChar_suffixAlong (suffix : String) (ps : List Property) :
    (replaceChar '/' '_' (suffixAlong suffix ps)).toList =
      (replaceChar '/' '_' suffix).toList ++ joinedNames ps := by
  induction ps generalizing suffix with
  | nil => simp [suffixAlong, joinedNames]
  | cons p ps ih =>
    have step : suffixAlong suffix (p :: ps) =
        suffixAlong (suffix ++ "/" ++ toNCName p.label) ps := rfl
    rw [step, ih]
    simp [replaceChar, joinedNames, replaceChar_name]

theorem nodeId_inj (element suffix : String) (ps qs : List Property) :
    nodeId element (suffixAlong suffix ps) = nodeId element (suffixAlong suffix qs) ↔
      joinedNames ps = joinedNames qs := by
  rw [nodeId, nodeId, String.append_right_inj, ← String.toList_inj, replaceChar_suffixAlong,
    replaceChar_suffixAlong, List.append_cancel_left_eq]

theorem segments_joinedNames (cs : List Char) (ps : List Property) :
    Text.segments '_' (cs ++ joinedNames ps) = Text.segments '_' cs ++ namePieces ps := by
  induction ps generalizing cs with
  | nil => simp [joinedNames, namePieces]
  | cons p ps ih =>
    have step : joinedNames (p :: ps) = '_' :: ((toNCName p.label).toList ++ joinedNames ps) := rfl
    rw [step, Text.segments_cut, ih]
    rfl

theorem joinedNames_inj : joinedNames ps = joinedNames qs ↔ namePieces ps = namePieces qs := by
  have left := segments_joinedNames [] ps
  have right := segments_joinedNames [] qs
  rw [List.nil_append] at left right
  constructor
  · intro same
    rw [same, right] at left
    exact (List.append_cancel_left left).symm
  · intro same
    rw [same, ← right] at left
    rw [← Text.joinSegments_segments '_' (joinedNames ps), left, Text.joinSegments_segments]

theorem namePieces_plain (plain : ∀ p ∈ ps, '_' ∉ (toNCName p.label).toList) :
    namePieces ps = ps.map fun p => (toNCName p.label).toList := by
  rw [namePieces, ← List.flatMap_singleton' (ps.map _), List.flatMap_map]
  exact List.flatMap_congr fun p member => Text.segments_of_notMem (plain p member)

/-- Chains from one class are told apart by the names of their properties. -/
theorem splicedAlong_inj {m : Model} {d' : Class} (named : m.NamesSplices) (known : c ∈ m.classes)
    (left : m.SplicedAlong c ps d) (right : m.SplicedAlong c qs d')
    (same : ps.map (fun p => (toNCName p.label).toList) =
      qs.map fun p => (toNCName p.label).toList) :
    ps = qs := by
  induction left generalizing qs with
  | here c =>
    cases right with
    | here => rfl
    | through => cases same
  | through own inside spliced target _ ih =>
    cases right with
    | here => cases same
    | through own' inside' spliced' target' rest =>
      obtain ⟨first, others⟩ := List.cons.inj same
      obtain rfl := Except.ok.inj (own.symm.trans own')
      obtain rfl := named.inj known own inside inside' spliced spliced' (String.toList_inj.mp first)
      obtain rfl := Except.ok.inj (target.symm.trans target')
      rw [ih (Model.knows_mem (Model.spliceTarget_ok target).1.1) rest others]

/-- An instance that a chain of properties splices in has a node described for it, by an identifier
made of the element, the suffix of the class and the names along the chain. For two chains from one
class, the identifiers are alike exactly if the names come to the same pieces between underscores.
If no name along them holds an underscore, and the spliced properties of each class have different
names, different chains have different identifiers. -/
theorem node_ids (h : generate s = .ok l) {d d' : Class} (left : s.model.SplicedAlong c ps d)
    (right : s.model.SplicedAlong c qs d') (element suffix : String) :
    (c ∈ s.model.describedClasses → suffixAlong suffix ps ≠ "" →
      Describes (toXml l) element (templateName c.iri) suffix (templateName d.iri)
        (nodeId element (suffixAlong suffix ps))) ∧
    (c ∈ s.model.describedClasses → suffixAlong suffix qs ≠ "" →
      Describes (toXml l) element (templateName c.iri) suffix (templateName d'.iri)
        (nodeId element (suffixAlong suffix qs))) ∧
    (nodeId element (suffixAlong suffix ps) = nodeId element (suffixAlong suffix qs) ↔
      namePieces ps = namePieces qs) ∧
    ((∀ p ∈ ps ++ qs, '_' ∉ (toNCName p.label).toList) → c ∈ s.model.classes →
      s.model.NamesSplices → ps ≠ qs →
        nodeId element (suffixAlong suffix ps) ≠ nodeId element (suffixAlong suffix qs)) := by
  have alike := (nodeId_inj element suffix ps qs).trans joinedNames_inj
  refine ⟨fun described => describes_along h left described element suffix,
    fun described => describes_along h right described element suffix, alike, ?_⟩
  intro plain known named different same
  obtain ⟨plain, plain'⟩ := List.forall_mem_append.mp plain
  have pieces := alike.mp same
  rw [namePieces_plain plain, namePieces_plain plain'] at pieces
  exact different (splicedAlong_inj named known left right pieces)

/-! ### The start of a trip -/

def splicing (label target : String) : Property :=
  { (Property.make label ("https://ex.org/" ++ label)).association target with
    iri := label
    isSpliced := true }

def timed (iri label : String) : Class :=
  (Class.make iri iri).declaring
    ((Property.make label ("https://ex.org/" ++ label)).primitive (Vocabulary.xsd ++ "string"))

def trip : Class :=
  (Class.make "Trip" "Trip").declaring (splicing "start" "Stop")
    |>.declaring (splicing "start_time" "Duration")

def stop : Class := (Class.make "Stop" "Stop").declaring (splicing "time" "Moment")

/-- The start of a trip has a time, and the trip has a time that its start takes. -/
def journey : Source where
  model := (Model.make "journey" "line").rootedAt ["Trip"] |>.declaring trip |>.declaring stop
    |>.declaring (timed "Moment" "hour") |>.declaring (timed "Duration" "minutes")
  manifests := []
  config := {}

theorem journey_generated : (generate journey).isOk := by decide +kernel

theorem trip_described : trip ∈ journey.model.describedClasses := by decide +kernel

theorem trip_effective : journey.model.effectiveProperties trip =
    .ok [splicing "start" "Stop", splicing "start_time" "Duration"] := by cbv

theorem start_target : journey.model.spliceTarget (splicing "start" "Stop") = .ok stop := rfl

theorem start_along : journey.model.SplicedAlong trip [splicing "start" "Stop"] stop :=
  .through trip_effective List.mem_cons_self rfl start_target (.here _)

theorem time_of_start_along : journey.model.SplicedAlong trip
    [splicing "start" "Stop", splicing "time" "Moment"] (timed "Moment" "hour") := by
  have own : journey.model.effectiveProperties stop = .ok [splicing "time" "Moment"] := by cbv
  have target : journey.model.spliceTarget (splicing "time" "Moment") =
      .ok (timed "Moment" "hour") := rfl
  exact .through trip_effective List.mem_cons_self rfl start_target
    (.through own List.mem_cons_self rfl target (.here _))

theorem start_time_along : journey.model.SplicedAlong trip
    [splicing "start_time" "Duration"] (timed "Duration" "minutes") := by
  have target : journey.model.spliceTarget (splicing "start_time" "Duration") =
      .ok (timed "Duration" "minutes") := rfl
  exact .through trip_effective (List.mem_cons_of_mem _ List.mem_cons_self) rfl target (.here _)

/-- The stop at the start of a trip and the moment of that stop have nodes of their own. -/
theorem node_ids_journey : ∃ l, generate journey = .ok l ∧ ∀ element,
    Describes (toXml l) element "_Trip" "" "_Stop" (nodeId element "/start") ∧
    Describes (toXml l) element "_Trip" "" "_Moment" (nodeId element "/start/time") ∧
    nodeId element "/start" ≠ nodeId element "/start/time" := by
  obtain ⟨l, made⟩ := except_isOk journey_generated
  refine ⟨l, made, fun element => ?_⟩
  obtain ⟨first, second, _, apart⟩ := node_ids made start_along time_of_start_along element ""
  exact ⟨first trip_described (by decide), second trip_described (by decide),
    apart (by decide +kernel) (List.mem_filter.mp trip_described).1 (by decide +kernel) (by decide)⟩

/-- The time of the start and the time to start are different chains to different classes, but both
are described as one node. -/
theorem node_id_shared : ∃ l, generate journey = .ok l ∧ trip ∈ journey.model.describedClasses ∧
    journey.model.SplicedAlong trip [splicing "start" "Stop", splicing "time" "Moment"]
      (timed "Moment" "hour") ∧
    journey.model.SplicedAlong trip [splicing "start_time" "Duration"]
      (timed "Duration" "minutes") ∧
    suffixAlong "" [splicing "start" "Stop", splicing "time" "Moment"] = "/start/time" ∧
    suffixAlong "" [splicing "start_time" "Duration"] = "/start_time" ∧
    ∀ element,
      Describes (toXml l) element "_Trip" "" "_Moment" ("n" ++ element ++ "_start_time") ∧
      Describes (toXml l) element "_Trip" "" "_Duration" ("n" ++ element ++ "_start_time") := by
  obtain ⟨l, made⟩ := except_isOk journey_generated
  refine ⟨l, made, trip_described, time_of_start_along, start_time_along, by decide, by decide,
    fun element => ⟨?_, ?_⟩⟩
  · exact describes_along made time_of_start_along trip_described element "" (by decide)
  · exact describes_along made start_time_along trip_described element "" (by decide)

end Lifting

end RdfXmlMapping
