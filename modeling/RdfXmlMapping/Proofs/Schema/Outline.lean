import RdfXmlMapping.Proofs.Model.Splicing
import RdfXmlMapping.Proofs.Model.Inheritance
import RdfXmlMapping.Proofs.Schema.Unfolding

/-!
The trees of elements that a model describes by itself, and a schema as a description of the same
trees. Wherever the schema puts the content of a class, following the references leads to the
identity and after it to what the model says of the properties.
-/

namespace RdfXmlMapping

open Xml (QName)

/-- The tree of an element with plain values. -/
def Schema.valueTree (name : String) (occurs : Schema.Occurs) : List Primitive → Schema.Tree
  | [.codelist _] => .plain name occurs "anyURI"
  | [.datatype iri] =>
    match SchemaType.ofDatatype iri with
    | .builtin type => .plain name occurs type
    | .languageText => .languageText name occurs
  | several =>
    .union name occurs ((several.map Schema.Plan.memberType).eraseDups.map (·.localName))

namespace Model

open Schema (Tree identityTrees occursOf valueTree)

/-- All classes belong to the model's own specification. -/
def SelfContained (m : Model) : Prop := ∀ c ∈ m.classes, m.isForeign c = false

section

variable (m : Model)

mutual

/-- The trees of properties, one after the other, down to some depth. There are none if a reference
between classes leads nowhere, or if content is spliced into itself. -/
def contentTrees (depth : Nat) (ps : List Property) : Option (List Tree) := do
  let trees : Nat → Property → Option (List Tree) := by apply propertyTrees
  match depth with
  | 0 => return []
  | depth + 1 => return (← ps.mapM (trees depth)).flatten
partial_fixpoint

/-- The trees of the content of a class: its identity, and then its properties with those that it
inherits. -/
def classTrees (depth : Nat) (c : Class) : Option (List Tree) := do
  let content : Nat → List Property → Option (List Tree) := by apply contentTrees
  return identityTrees depth ++ (← content depth (← (m.effectiveProperties c).toOption))
partial_fixpoint

/-- The trees of a property, given the depth of the content of its values. -/
def propertyTrees (depth : Nat) (p : Property) : Option (List Tree) := do
  let content : Nat → List Property → Option (List Tree) := by apply contentTrees
  let described : Nat → Class → Option (List Tree) := by apply classTrees
  if p.isSpliced then
    let target ← (m.spliceTarget p).toOption
    let ps ← (m.effectiveProperties target).toOption
    if p.isSingle then content (depth + 1) ps
    else return [.sequence (occursOf p) (← content depth ps)]
  else
    let name := toNCName p.label
    match ← (m.shapeOf p).toOption with
    | .primitive primitives => return [valueTree name (occursOf p) primitives]
    | .single d => return [.element name (occursOf p) (← described depth d)]
    | .choice plan =>
      match plan.base with
      | .rooted root _ => return [.element name (occursOf p) (← described depth root)]
      | .placeholder _ => return [.element name (occursOf p) (identityTrees depth)]
partial_fixpoint

end

end

theorem propertyTrees_spliced {m : Model} {depth : Nat} {p : Property} {d : Class}
    {ps : List Property} (spliced : p.isSpliced) (target : m.spliceTarget p = .ok d)
    (found : m.effectiveProperties d = .ok ps) : m.propertyTrees depth p =
      if p.isSingle then m.contentTrees (depth + 1) ps
      else do return [.sequence (occursOf p) (← m.contentTrees depth ps)] := by
  rw [propertyTrees, if_pos spliced, target]
  change ((m.effectiveProperties d).toOption >>= _) = _
  rw [found]
  rfl

/-- The elements of the roots with the trees of their content. -/
def rootTrees (m : Model) (depth : Nat) : Option (List (String × List Tree)) := do
  (← m.rootClasses.toOption).mapM fun c => do return (elementName c, ← m.classTrees depth c)

end Model

namespace Schema

variable {x : Plan} {final : Progress} {c : Class}

/-! ### Content made in pieces -/

/-- The content of properties has been made, perhaps of each at a place of its own. -/
def Composed (x : Plan) (final : Progress) (ps : List Property) (content : List Particle) : Prop :=
  ∃ parts, content = parts.flatten ∧ List.Forall₂ (fun p part =>
    x.model.Declares p ∧ ∃ path chain, Placed x final path chain p part) ps parts

theorem Ran.composed {path chain : List String} {ps : List Property} {content : List Particle}
    (declared : ∀ p ∈ ps, x.model.Declares p) (h : Ran x final path chain ps content) :
    Composed x final ps content := by
  obtain ⟨parts, same, placed⟩ := h.placed declared
  refine ⟨parts, same, (List.forall₂_and_left ..).mpr ⟨declared, placed.imp fun _ _ made => ?_⟩⟩
  exact ⟨path, chain, made⟩

theorem Filled.composed {path : List String} {content : List Particle} (known : x.model.Knows c)
    (h : Filled x final path c content) :
    ∃ ps, x.model.effectiveProperties c = .ok ps ∧ Composed x final ps content := by
  obtain ⟨ps, own, ran⟩ := h
  exact ⟨ps, own, ran.composed (Model.effectiveProperties_declares (Model.knows_mem known) own)⟩

theorem Composed.append {ps qs : List Property} {content more : List Particle}
    (first : Composed x final ps content) (second : Composed x final qs more) :
    Composed x final (ps ++ qs) (content ++ more) := by
  obtain ⟨parts, rfl, placed⟩ := first
  obtain ⟨parts', rfl, placed'⟩ := second
  exact ⟨parts ++ parts', List.flatten_append.symm, List.rel_append placed placed'⟩

theorem extensionBase_parent {parent : Class} (h : x.extensionBase c = .ok (some parent)) :
    x.model.parent? c = .ok (some parent) := by
  unfold Plan.extensionBase at h
  split at h
  · exact h
  · cases h

variable {s : Source} {schema : Schema}

theorem SelfContained.owned (own : x.model.SelfContained) (known : x.model.Knows c) :
    x.model.Owns c := ⟨known, own c (Model.knows_mem known)⟩

/-- The type of a class is there with its identity and the properties. -/
def History.Types (o : History s schema) (c : Class) (ps : List Property) : Prop :=
  ∃ content, schema.typeContent? (o.plan.qualified (o.final.names.get c)) =
    some (.identity :: content) ∧ Composed o.plan o.final ps content

/-- The type of a class has all its properties, even where some of them are in the type that it
extends. -/
theorem History.type_composed (o : History s schema) (own : o.plan.model.SelfContained)
    {ps : List Property} (found : o.plan.model.effectiveProperties c = .ok ps) :
    o.plan.model.Owns c → o.final.Requested (.type c) → o.Types c ps := by
  refine Model.inheritance_induction
    (motive := fun c ps => o.plan.model.Owns c → o.final.Requested (.type c) → o.Types c ps)
    (fun c ps found ih owned requested => ?_) found
  obtain ⟨d, present, declared⟩ := o.type_declared owned requested
  rw [History.Types, o.qualified_eq, typeContent?]
  cases declared with
  | @whole content _ filled =>
    obtain ⟨_, found', composed⟩ := filled.composed owned.1
    obtain rfl := Except.ok.inj (found.symm.trans found')
    exact ⟨content, by rw [o.declaredType?_eq present rfl]; rfl, composed⟩
  | @extending parent base content extension based ran =>
    have above := extensionBase_parent extension
    obtain ⟨inherited, _, rfl⟩ := Model.effectiveProperties_parent found above
    cases based with
    | imported known resolved _ _ =>
      exact absurd (Import.Outlook.resolve_some resolved)
        (Bool.eq_false_iff.mp (own parent (Model.knows_mem known)))
    | own owned' requested' =>
      obtain ⟨first, read, composed⟩ := ih parent inherited above rfl owned' requested'
      have declared : ∀ p ∈ c.properties, o.plan.model.Declares p :=
        fun p member => ⟨c, Model.knows_mem owned.1, member⟩
      refine ⟨first ++ content, ?_, composed.append (ran.composed declared)⟩
      rw [o.declaredType?_eq present rfl]
      change (schema.typeContent? _ >>= fun first => some (first ++ content)) = _
      rw [read]
      rfl

theorem History.group_composed (o : History s schema) (owned : o.plan.model.Owns c)
    (requested : o.final.Requested (.group c)) :
    ∃ ps content, o.plan.model.effectiveProperties c = .ok ps ∧
      schema.groupContent? (o.plan.qualified (o.final.names.get c)) =
        some (.identity :: content) ∧ Composed o.plan o.final ps content := by
  obtain ⟨_, present, ⟨filled⟩⟩ := o.group_declared owned requested
  obtain ⟨ps, found, composed⟩ := filled.composed owned.1
  exact ⟨ps, _, found, o.qualified_eq _ ▸ o.groupContent?_eq present, composed⟩

theorem History.placeholder_content (o : History s schema) {name : String}
    (requested : o.final.Requested (.placeholder name)) :
    schema.typeContent? (o.plan.qualified name) = some [.identity] := by
  rw [o.qualified_eq, typeContent?, o.declaredType?_eq (o.placeholder_declared requested) rfl]
  rfl

/-! ### Agreement of schema and model -/

/-- Two results are there and the same. -/
def Agree {α : Type} (left right : Option α) : Prop := ∃ a, left = some a ∧ right = some a

theorem simpleType?_ownName (apart : schema.target.map (·.1) ≠ some "xs") (name : String) :
    simpleType? (ownName schema name) = none := if_neg apart

section

variable {below : List Particle → Option (List Tree)} {name : String} {occurs : Occurs} {q : QName}
  {content : List Particle} {ts : List Tree}

theorem tree?_typed (declared : simpleType? q = none)
    (read : schema.typeContent? q = some content) (inner : below content = some ts) :
    schema.tree? below (.element name q occurs) = some (.element name occurs ts) := by
  rw [tree?, declared]
  dsimp only
  split
  next found =>
    rw [typeContent?, found] at read
    cases read
  next =>
    rw [read]
    change (below content >>= _) = _
    rw [inner]
    rfl

theorem tree?_grouped (read : schema.groupContent? q = some content)
    (inner : below content = some ts) :
    schema.tree? below (.grouped name occurs q) = some (.element name occurs ts) := by
  rw [tree?, read]
  change (below content >>= _) = _
  rw [inner]
  rfl

theorem tree?_nested (inner : below content = some ts) :
    schema.tree? below (.nested name occurs content) = some (.element name occurs ts) := by
  rw [tree?, inner]
  rfl

theorem tree?_sequence (inner : below content = some ts) :
    schema.tree? below (.sequence occurs content) = some (.sequence occurs ts) := by
  rw [tree?, inner]
  rfl

end

theorem tree?_languageText {below : List Particle → Option (List Tree)} (o : Outcome s schema)
    (apart : schema.target.map (·.1) ≠ some "xs") (used : o.final.usesLanguageText) (name : String)
    (occurs : Occurs) : schema.tree? below
      (.element name (ownName schema languageTextType) occurs) =
        some (.languageText name occurs) := by
  rw [tree?, simpleType?_ownName apart, o.declaredType?_eq (o.languageText_declared used) rfl]

variable {depth : Nat}

theorem mapM_agrees {α β γ : Type} {f : α → Option γ} {g : β → Option γ} {xs : List α}
    {ys : List β} (h : List.Forall₂ (fun x y => Agree (f x) (g y)) xs ys) :
    Agree (xs.mapM f) (ys.mapM g) := by
  induction h with
  | nil => exact ⟨[], rfl, rfl⟩
  | cons first _ ih =>
    obtain ⟨z, left, right⟩ := first
    obtain ⟨zs, lefts, rights⟩ := ih
    refine ⟨z :: zs, ?_, ?_⟩
    · rw [List.mapM_cons, left, lefts]
      rfl
    · rw [List.mapM_cons, right, rights]
      rfl

theorem flatten_agrees {m : Model} {ps : List Property} {parts : List (List Particle)}
    (h : List.Forall₂ (fun p part =>
      Agree (schema.unfold (depth + 1) part) (m.propertyTrees depth p)) ps parts) :
    Agree (schema.unfold (depth + 1) parts.flatten) (m.contentTrees (depth + 1) ps) := by
  obtain ⟨tss, left, right⟩ := mapM_agrees h.flip
  refine ⟨tss.flatten, ?_, ?_⟩
  · rw [unfold_flatten, left]
    rfl
  · rw [Model.contentTrees, right]
    rfl

/-- A schema in which every reference that is followed stays in the target namespace, apart from
those to simple types. -/
structure History.Plain (o : History s schema) : Prop where
  own : o.plan.model.SelfContained
  apart : schema.target.map (·.1) ≠ some "xs"
  collects : ∀ c, o.plan.model.Knows c → ∃ ps, o.plan.model.effectiveProperties c = .ok ps

/-- The trees that the schema describes down to some depth are those of the model. -/
def History.AgreesTo (o : History s schema) (depth : Nat) : Prop :=
  ∀ ps content, Composed o.plan o.final ps content →
    Agree (schema.unfold depth content) (o.plan.model.contentTrees depth ps)

variable {o : History s schema}

theorem History.AgreesTo.classTrees (below : o.AgreesTo depth) {ps : List Property}
    {content : List Particle} (found : o.plan.model.effectiveProperties c = .ok ps)
    (composed : Composed o.plan o.final ps content) :
    Agree (schema.unfold depth (.identity :: content)) (o.plan.model.classTrees depth c) := by
  obtain ⟨ts, left, right⟩ := below ps content composed
  refine ⟨identityTrees depth ++ ts, unfold_identity left, ?_⟩
  rw [Model.classTrees, found]
  change (o.plan.model.contentTrees depth ps >>= _) = _
  rw [right]
  rfl

theorem History.Plain.type_agrees (plain : o.Plain) (below : o.AgreesTo depth) {q : QName}
    (named : ClassType o.plan o.final c q) : simpleType? q = none ∧
      ∃ content, schema.typeContent? q = some content ∧
        Agree (schema.unfold depth content) (o.plan.model.classTrees depth c) := by
  cases named with
  | imported known resolved _ _ =>
    exact absurd (Import.Outlook.resolve_some resolved)
      (Bool.eq_false_iff.mp (plain.own c (Model.knows_mem known)))
  | own owned requested =>
    obtain ⟨ps, found⟩ := plain.collects c owned.1
    obtain ⟨content, read, composed⟩ := o.type_composed plain.own found owned requested
    refine ⟨?_, _, read, below.classTrees found composed⟩
    rw [o.qualified_eq]
    exact simpleType?_ownName plain.apart _

theorem History.AgreesTo.group_agrees (below : o.AgreesTo depth) (owned : o.plan.model.Owns c)
    (requested : o.final.Requested (.group c)) :
    ∃ content, schema.groupContent? (o.plan.qualified (o.final.names.get c)) = some content ∧
      Agree (schema.unfold depth content) (o.plan.model.classTrees depth c) := by
  obtain ⟨ps, content, found, read, composed⟩ := o.group_composed owned requested
  exact ⟨_, read, below.classTrees found composed⟩

/-- An element of the type of a class has the trees of the class. -/
theorem History.Plain.element_agrees (plain : o.Plain) (below : o.AgreesTo depth) {q : QName}
    (named : ClassType o.plan o.final c q) (name : String) (occurs : Occurs) :
    Agree (schema.unfold (depth + 1) [.element name q occurs])
      (do return [.element name occurs (← o.plan.model.classTrees depth c)]) := by
  obtain ⟨declared, content, read, ts, left, right⟩ := plain.type_agrees below named
  exact ⟨_, unfold_singleton (tree?_typed declared read left), by rw [right]; rfl⟩

theorem simpleType?_memberType (p : Primitive) :
    simpleType? (Plan.memberType p) = some (Plan.memberType p).localName := by
  obtain ⟨name, same, _⟩ := memberType_simple p
  rw [same]
  rfl

theorem History.Plain.plain_agrees (plain : o.Plain) {name : String} {occurs : Occurs}
    {primitives : List Primitive} {particle : Particle} {before after : Progress}
    (run : o.plan.plainParticle name occurs primitives before = .ok (particle, after))
    (grows : Grows after o.final) : schema.tree? (schema.unfold depth) particle =
      some (valueTree name occurs primitives) := by
  rw [Plan.plainParticle.eq_def] at run
  split at run
  next one =>
    obtain ⟨q, _, typed, run⟩ := bind_ok run
    cases pure_ok run
    cases one with
    | codelist c =>
      cases pure_ok typed
      rfl
    | datatype iri =>
      rw [Plan.plainType] at typed
      rw [valueTree]
      cases type : SchemaType.ofDatatype iri with
      | builtin own =>
        rw [type] at typed
        cases pure_ok typed
        rfl
      | languageText =>
        rw [type] at typed
        obtain ⟨_, _, used, typed⟩ := bind_ok typed
        cases modify_ok used
        cases pure_ok typed
        rw [o.qualified_eq]
        exact tree?_languageText o.toOutcome plain.apart (grows.languageText rfl) name occurs
  next several =>
    cases pure_ok run
    have each : ∀ q ∈ (primitives.map Plan.memberType).eraseDups,
        simpleType? q = some q.localName := by
      intro q member
      obtain ⟨p, _, rfl⟩ := List.mem_map.mp (List.mem_eraseDups.mp member)
      exact simpleType?_memberType p
    have types : (primitives.map Plan.memberType).eraseDups.mapM simpleType? =
        some ((primitives.map Plan.memberType).eraseDups.map (·.localName)) :=
      (mapM_congr each).trans List.mapM_pure
    rw [tree?, types, valueTree]
    · rfl
    · exact fun c => several _
    · exact fun iri => several _

/-- A choice has the trees of its root, or of a type without properties if it has none. -/
theorem History.Plain.choice_agrees (plain : o.Plain) (below : o.AgreesTo depth) {p : Property}
    {plan : ChoicePlan} {type : QName} {before after : Progress}
    (declared : o.plan.model.Declares p)
    (inPlace : p.isSpliced = false) (read : o.plan.model.shapeOf p = .ok (.choice plan))
    (run : o.plan.choiceType plan before = .ok (type, after)) (grows : Grows after o.final) :
    Agree (schema.unfold (depth + 1) [.element (toNCName p.label) type (occursOf p)])
      (o.plan.model.propertyTrees depth p) := by
  obtain ⟨known, grounded⟩ := Model.shapeOf_leads read
  rw [Model.propertyTrees, inPlace, read]
  change Agree _ (match plan.base with | .rooted root _ => _ | .placeholder _ => _)
  cases base : plan.base with
  | rooted root derived =>
    obtain ⟨_, named, _⟩ := rootedType_step known grounded base run
    exact plain.element_agrees below (named.mono grows) _ _
  | placeholder label =>
    obtain ⟨_, name, requested, rfl⟩ := madeUpType_step declared read base run
    have content := o.placeholder_content (grows.requested requested)
    rw [o.qualified_eq] at content ⊢
    have target := simpleType?_ownName plain.apart name
    have inner : schema.unfold depth [.identity] = some (identityTrees depth) := by
      cases depth <;> rfl
    exact ⟨_, unfold_singleton (tree?_typed target content inner), rfl⟩

/-- A property has the trees that the model says. The induction is on the chain, which grows with
every splice; all other references lead one level down. -/
theorem History.Plain.placed_agrees (plain : o.Plain) (below : o.AgreesTo depth)
    (chain : List String) : ∀ path p part, o.plan.model.Declares p →
      Placed o.plan o.final path chain p part →
      Agree (schema.unfold (depth + 1) part) (o.plan.model.propertyTrees depth p) := by
  induction chain using Model.walk_induction o.plan.model with
  | step chain ih =>
    intro path p part declared placed
    obtain ⟨before, after, run, grows⟩ := placed
    cases member_ok run with
    | @spliced d ps content _ _ spliced target way found run =>
      obtain ⟨⟨known, _⟩, _⟩ := Model.spliceTarget_ok target
      have declares := Model.effectiveProperties_declares (Model.knows_mem known) found
      have ran : Ran o.plan o.final path (d.iri :: chain) ps content := ⟨_, _, run, grows⟩
      rw [Model.propertyTrees_spliced spliced target found]
      split
      · obtain ⟨parts, rfl, placed⟩ := ran.placed declares
        refine flatten_agrees (((List.forall₂_and_left ..).mpr ⟨declares, placed⟩).imp ?_)
        exact fun q part made => ih d.iri way path q part made.1 made.2
      · obtain ⟨ts, left, right⟩ := below ps content (ran.composed declares)
        exact ⟨_, unfold_singleton (tree?_sequence left), by rw [right]; rfl⟩
    | plain inPlace read run =>
      rw [Model.propertyTrees, inPlace, read]
      exact ⟨_, unfold_singleton (plain.plain_agrees run grows), rfl⟩
    | typed inPlace read run =>
      obtain ⟨known, _⟩ := Model.shapeOf_leads read
      rw [Model.propertyTrees, inPlace, read]
      exact plain.element_agrees below ((typeOf_step known run).2.mono grows) _ _
    | @grouped d _ _ _ inPlace read resolved run =>
      obtain ⟨known, _⟩ := Model.shapeOf_leads read
      have owned : o.plan.model.Owns d := ⟨known, Import.Outlook.resolve_none resolved⟩
      obtain ⟨_, requested, rfl⟩ := requestGroup_class owned run
      rw [← grows.get d]
      obtain ⟨content, group, ts, left, right⟩ :=
        below.group_agrees owned (grows.requested requested)
      rw [Model.propertyTrees, inPlace, read]
      refine ⟨_, unfold_singleton (tree?_grouped group left), ?_⟩
      change (o.plan.model.classTrees depth d >>= _) = _
      rw [right]
      rfl
    | @nested d content _ _ inPlace read way run =>
      obtain ⟨known, _⟩ := Model.shapeOf_leads read
      obtain ⟨ps, found, composed⟩ := (members_filled run grows).composed known
      obtain ⟨ts, left, right⟩ := below.classTrees found composed
      rw [Model.propertyTrees, inPlace, read]
      refine ⟨_, unfold_singleton (tree?_nested left), ?_⟩
      change (o.plan.model.classTrees depth d >>= _) = _
      rw [right]
      rfl
    | choice inPlace read run => exact plain.choice_agrees below declared inPlace read run grows

theorem History.Plain.agrees (plain : o.Plain) (depth : Nat) : o.AgreesTo depth := by
  induction depth with
  | zero => exact fun ps content _ => ⟨[], rfl, by rw [Model.contentTrees]; rfl⟩
  | succ depth ih =>
    rintro ps _ ⟨parts, rfl, placed⟩
    refine flatten_agrees (placed.imp fun p part made => ?_)
    obtain ⟨declared, path, chain, made⟩ := made
    exact plain.placed_agrees ih chain path p part declared made

/-! ### Roots -/

theorem root?_none {d : Declaration} (other : d.toXml.name ≠ "xs:element") : d.root? = none := by
  cases d with
  | root name title content =>
    refine absurd ?_ other
    cases content with
    | typed type =>
      rw [Declaration.toXml]
      split <;> rfl
    | nested _ | grouped _ => rfl
  | complexType _ _ _ | extension _ _ _ _ | group _ _ | placeholder _ | languageText => rfl

theorem Outcome.roots_eq (o : Outcome s schema) :
    schema.declarations.filterMap (·.root?) = o.roots.filterMap (·.root?) := by
  have others : o.others.filterMap (·.root?) = [] := by
    refine List.filterMap_eq_nil_iff.mpr fun d member => root?_none ?_
    obtain ⟨p, _, tag, _⟩ := forall₂_mem_right o.answers member
    rw [tag]
    cases p <;> simp [Pending.tag]
  have language : (languageDeclarations o.final).filterMap (·.root?) = [] := by
    unfold languageDeclarations
    split <;> rfl
  rw [o.declarations, List.filterMap_append, List.filterMap_append, others, language,
    List.append_nil, List.append_nil]

theorem History.Plain.root_agrees (plain : o.Plain) {d : Declaration}
    (declared : RootDeclared o.plan o.final c d) (known : o.plan.model.Knows c) (depth : Nat) :
    ∃ content, d.root? = some (Model.elementName c, content) ∧
      Agree (schema.unfoldRoot depth content) (o.plan.model.classTrees depth c) := by
  have below := plain.agrees depth
  cases declared with
  | @typed q named =>
    obtain ⟨_, content, read, agree⟩ := plain.type_agrees below named
    refine ⟨_, rfl, ?_⟩
    change Agree (schema.typeContent? q >>= _) _
    rwa [read]
  | grouped owned requested =>
    obtain ⟨content, read, agree⟩ := below.group_agrees owned requested
    refine ⟨_, rfl, ?_⟩
    change Agree (schema.groupContent? _ >>= _) _
    rwa [read]
  | whole filled =>
    obtain ⟨ps, found, composed⟩ := filled.composed known
    exact ⟨_, rfl, below.classTrees found composed⟩

/-- The elements of the roots have the trees that the model says. -/
theorem History.Plain.trees_agree (plain : o.Plain) (once : schema.DeclaresOnce) (depth : Nat) :
    Agree (schema.trees depth) (o.plan.model.rootTrees depth) := by
  obtain ⟨cs, found, -⟩ := o.rooted
  have declared := o.roots_declared found
  rw [← o.model] at found
  have each := ((List.forall₂_and_left ..).mpr
    ⟨Model.rootClasses_knows found, declared⟩).imp fun c d both =>
      plain.root_agrees both.2 both.1 depth
  rw [trees, if_pos once, o.roots_eq, Model.rootTrees, found]
  change Agree _ (cs.mapM _)
  refine mapM_agrees ?_
  clear found declared
  generalize o.roots = ds at each
  induction each with
  | nil => exact .nil
  | @cons c d _ _ first _ ih =>
    obtain ⟨content, root, ts, left, right⟩ := first
    rw [List.filterMap_cons, root]
    refine .cons ⟨(Model.elementName c, ts), ?_, ?_⟩ ih
    · dsimp only
      rw [left]
      rfl
    · rw [right]
      rfl

end Schema

end RdfXmlMapping
