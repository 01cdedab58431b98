import RdfXmlMapping.Proofs.Content
import RdfXmlMapping.Proofs.Schema.Outline

/-!
The elements in one content. They are those of the properties of one class, named by their labels,
behind the identity: no two have the same name exactly if the labels keep the properties apart from
each other and from the identity (`elements_distinct_iff`).
-/

namespace RdfXmlMapping

theorem NCName.withStart_eq_self {cs : List Char} (free : '_' ∉ withStart cs) :
    withStart cs = cs := by
  cases cs with
  | nil => simp [withStart] at free
  | cons c cs =>
    rw [withStart] at free ⊢
    split
    · rfl
    next other => simp [if_neg other] at free

theorem toNCName_eq_self {label : String} (free : '_' ∉ (toNCName label).toList) :
    toNCName label = label := by
  have kept (c : Char) (other : NCName.replaceInvalid c ≠ '_') : NCName.replaceInvalid c = c := by
    unfold NCName.replaceInvalid at other ⊢
    split
    · rfl
    next invalid => exact absurd (if_neg invalid) other
  rw [toNCName, String.toList_ofList] at free
  have start := NCName.withStart_eq_self free
  rw [start] at free
  have same : label.toList.map NCName.replaceInvalid = label.toList := by
    refine
      (List.map_congr_left fun c member => kept c fun replaced => free ?_).trans (List.map_id _)
    exact replaced ▸ List.mem_map_of_mem member
  rw [toNCName, start, same, String.ofList_toList]

def Property.elementName (p : Property) : String := toNCName p.label

namespace Model

variable {m : Model} {ps qs ps' qs' : List Property}

/-- The properties whose elements stand in the content of the given ones: in the place of a spliced
property stand those of its target. -/
inductive Contributes (m : Model) : List Property → List Property → Prop
  | nil : Contributes m [] []
  | inPlace {p : Property} {ps qs : List Property} : p.isSpliced = false → Contributes m ps qs →
      Contributes m (p :: ps) (p :: qs)
  | spliced {p : Property} {d : Class} {ds inner ps qs : List Property} : p.isSpliced →
      m.spliceTarget p = .ok d → m.effectiveProperties d = .ok ds → Contributes m ds inner →
      Contributes m ps qs → Contributes m (p :: ps) (inner ++ qs)

theorem Contributes.append (h : m.Contributes ps qs) (h' : m.Contributes ps' qs') :
    m.Contributes (ps ++ ps') (qs ++ qs') := by
  induction h with
  | nil => exact h'
  | inPlace stays _ ih => exact .inPlace stays ih
  | spliced opened target found inner _ _ ih =>
    rw [List.append_assoc]
    exact .spliced opened target found inner ih

def ContentOf (m : Model) (c : Class) (qs : List Property) : Prop :=
  ∃ ps, m.effectiveProperties c = .ok ps ∧ m.Contributes ps qs

/-- The properties in a part of the content of a class, from some ancestor on. -/
def AddedTo (m : Model) (c : Class) (qs : List Property) : Prop :=
  ∃ all ps, m.effectiveProperties c = .ok all ∧ ps <:+ all ∧ m.Contributes ps qs

end Model

namespace Schema

open Xml (QName)

variable {x : Plan} {path chain : List String} {s t : Progress} {c d : Class}
  {ps qs : List Property} {content more inner : List Particle}

/-! ### Content models -/

mutual

def Particle.propertyNames : Particle → List String
  | .identity => []
  | .element name _ _ | .union name _ _ | .nested name _ _ | .grouped name _ _ => [name]
  | .sequence _ content => propertyNames content

def propertyNames : List Particle → List String
  | [] => []
  | p :: ps => p.propertyNames ++ propertyNames ps

end

/-- A particle that stands at the level of a content, perhaps in a sequence. -/
inductive Within (p : Particle) : List Particle → Prop
  | here {content : List Particle} : p ∈ content → Within p content
  | opened {occurs : Occurs} {inner content : List Particle} : .sequence occurs inner ∈ content →
      Within p inner → Within p content

/-- The content of the type of a class. That of an extension stands after the content of the type of
the parent; if the parent belongs to another specification, the schema has only the former. -/
inductive TypeContent (source : Source) (schema : Schema) : Class → List Particle → Prop
  | whole {c : Class} {title : Labels} {content : List Particle} : source.model.Owns c →
      .complexType ((ClassNames.ofModel source.model).get c) title content ∈ schema.declarations →
      TypeContent source schema c content
  | extending {c d : Class} {title : Labels} {base : QName} {content above : List Particle} :
      source.model.Owns c →
      .extension ((ClassNames.ofModel source.model).get c) title base content ∈
        schema.declarations →
      source.model.parent? c = .ok (some d) → TypeContent source schema d above →
      TypeContent source schema c (above ++ content)
  | adding {c d : Class} {title : Labels} {base : QName} {content : List Particle} :
      source.model.Owns c →
      .extension ((ClassNames.ofModel source.model).get c) title base content ∈
        schema.declarations →
      source.model.parent? c = .ok (some d) → source.model.isForeign d →
      TypeContent source schema c content

/-- What a schema says about the content of some element: the content of a type, of a group or of a
root, or one that is nested in such a content. -/
inductive Describes (source : Source) (schema : Schema) : List Particle → Prop
  | type {c : Class} {content : List Particle} : TypeContent source schema c content →
      Describes source schema content
  | group {name : String} {content : List Particle} : .group name content ∈ schema.declarations →
      Describes source schema content
  | root {name : String} {title : Labels} {content : List Particle} :
      .root name title (.nested content) ∈ schema.declarations → Describes source schema content
  | placeholder {name : String} : .placeholder name ∈ schema.declarations →
      Describes source schema [.identity]
  | nested {name : String} {occurs : Occurs} {content inner : List Particle} :
      Describes source schema content → Within (.nested name occurs inner) content →
      Describes source schema inner

def DistinctNames (content : List Particle) : Prop :=
  (elementNames (particles content)).Nodup ∧ identityElement ∉ propertyNames content

inductive Consists (m : Model) (content : List Particle) (qs : List Property) : Prop
  | whole {c : Class} : m.Knows c → m.ContentOf c qs →
      elementNames (particles content) = identityElement :: qs.map (·.elementName) →
      Consists m content qs
  | added {c : Class} : m.Knows c → m.AddedTo c qs →
      elementNames (particles content) = qs.map (·.elementName) → Consists m content qs
  | placeholder : content = [.identity] → qs = [] → Consists m content qs

/-! ### Levels -/

theorem propertyNames_append :
    propertyNames (content ++ more) = propertyNames content ++ propertyNames more := by
  induction content with
  | nil => rfl
  | cons p content ih => rw [List.cons_append, propertyNames, ih, propertyNames, List.append_assoc]

theorem within_append {p : Particle} (h : Within p (content ++ more)) :
    Within p content ∨ Within p more := by
  cases h with
  | here member => exact (List.mem_append.mp member).imp .here .here
  | opened member inside =>
    exact (List.mem_append.mp member).imp (.opened · inside) (.opened · inside)

theorem within_singleton {p q : Particle} (h : Within p [q]) :
    p = q ∨ ∃ occurs inner, q = .sequence occurs inner ∧ Within p inner := by
  cases h with
  | here member => exact .inl (List.mem_singleton.mp member)
  | opened member inside => exact .inr ⟨_, _, (List.mem_singleton.mp member).symm, inside⟩

def Lists (m : Model) (ps : List Property) (content : List Particle) : Prop :=
  ∃ qs, m.Contributes ps qs ∧ elementNames (particles content) = qs.map (·.elementName) ∧
    propertyNames content = qs.map (·.elementName)

def Nests (x : Plan) (content : List Particle) : Prop :=
  ∀ name occurs inner, Within (.nested name occurs inner) content → ∃ c path s t rest,
    x.model.Knows c ∧ inner = .identity :: rest ∧ x.members path c s = .ok (rest, t)

theorem Lists.append {m : Model} (h : Lists m ps content) (h' : Lists m qs more) :
    Lists m (ps ++ qs) (content ++ more) := by
  obtain ⟨_, first, names, own⟩ := h
  obtain ⟨_, second, names', own'⟩ := h'
  refine ⟨_, first.append second, ?_, ?_⟩
  · rw [particles_append, elementNames_append, names, names', List.map_append]
  · rw [propertyNames_append, own, own', List.map_append]

theorem Nests.append (h : Nests x content) (h' : Nests x more) : Nests x (content ++ more) :=
  fun name occurs inner inside => (within_append inside).elim (h name occurs inner)
    (h' name occurs inner)

theorem nests_single {p : Particle} (leaf : ∀ name occurs inner, p ≠ .nested name occurs inner)
    (flat : ∀ occurs inner, p ≠ .sequence occurs inner) : Nests x [p] := by
  intro name occurs inner inside
  rcases within_singleton inside with rfl | ⟨_, _, rfl, _⟩
  · exact absurd rfl (leaf _ _ _)
  · exact absurd rfl (flat _ _)

theorem nests_identity : Nests x [.identity] := nests_single (by simp) (by simp)

theorem plainParticle_single {name : String} {occurs : Occurs} {vs : List Primitive} {p : Particle}
    (h : x.plainParticle name occurs vs s = .ok (p, t)) :
    (∃ type, p = .element name type occurs) ∨ ∃ members, p = .union name occurs members := by
  rw [Plan.plainParticle.eq_def] at h
  split at h
  · obtain ⟨type, _, _, h⟩ := bind_ok h
    cases pure_ok h
    exact .inl ⟨type, rfl⟩
  · cases pure_ok h
    exact .inr ⟨_, rfl⟩

theorem member_lists {x : Plan} {path chain : List String} {p : Property} {part : List Particle}
    {s t : Progress}
    (spliced : ∀ iri, x.model.canEnter chain iri → ∀ ps s content t,
      x.particles path (iri :: chain) ps s = .ok (content, t) →
        Lists x.model ps content ∧ Nests x content)
    (run : x.member path chain p s = .ok (part, t)) : Lists x.model [p] part ∧ Nests x part := by
  have element {particle : Particle} (stays : p.isSpliced = false)
      (named : elementNames (particles [particle]) = [p.elementName])
      (own : propertyNames [particle] = [p.elementName]) : Lists x.model [p] [particle] :=
    ⟨[p], .inPlace stays .nil, named, own⟩
  cases member_ok run with
  | @spliced d ds content _ _ opened target way found run =>
    obtain ⟨⟨qs, inner, names, own⟩, nests⟩ := spliced d.iri way ds _ content _ run
    have contributes : x.model.Contributes [p] qs := by
      simpa using Model.Contributes.spliced opened target found inner .nil
    split
    · exact ⟨⟨qs, contributes, names, own⟩, nests⟩
    · refine ⟨⟨qs, contributes, ?_, ?_⟩, fun name occurs inner inside => ?_⟩
      · simpa [particles, Particle.toXml, elementNames, elementNamesOf] using names
      · simpa [propertyNames, Particle.propertyNames] using own
      · rcases within_singleton inside with same | ⟨_, _, same, inside⟩
        · cases same
        · obtain ⟨rfl, rfl⟩ := Particle.sequence.inj same
          exact nests _ _ _ inside
  | plain stays _ run =>
    have named := plainParticle_names run
    rcases plainParticle_single run with ⟨_, rfl⟩ | ⟨_, rfl⟩
    · exact ⟨element stays named rfl, nests_single (by simp) (by simp)⟩
    · exact ⟨element stays named rfl, nests_single (by simp) (by simp)⟩
  | typed stays _ _ | grouped stays _ _ _ | choice stays _ _ =>
    refine ⟨element stays ?_ rfl, nests_single (by simp) (by simp)⟩
    simp [particles, Particle.toXml, elementNames, elementNamesOf, Property.elementName]
  | @nested d content _ _ stays read way run =>
    refine ⟨element stays ?_ rfl, fun name occurs inner inside => ?_⟩
    · simp [particles, Particle.toXml, elementNames, elementNamesOf, Property.elementName]
    · rcases within_singleton inside with same | ⟨_, _, same, _⟩
      · obtain ⟨rfl, rfl, rfl⟩ := Particle.nested.inj same
        exact ⟨d, _, _, _, content, (Model.shapeOf_leads read).1, rfl, run⟩
      · cases same

theorem particles_lists (x : Plan) (path chain : List String) : ∀ ps s content t,
    x.particles path chain ps s = .ok (content, t) →
      Lists x.model ps content ∧ Nests x content := by
  -- The chain grows with every splice. A nested class has a chain of its own, so nothing is asked
  -- of its content but that it has been made for the class.
  induction chain using Model.walk_induction x.model with
  | step chain spliced =>
    intro ps s content t h
    obtain ⟨parts, runs, rfl⟩ := particles_ok h
    have each : List.Forall₂ (fun p part => Lists x.model [p] part ∧ Nests x part) ps parts :=
      runs_forall₂ runs fun _ _ _ _ _ run => member_lists spliced run
    clear h runs
    induction each with
    | nil =>
      refine ⟨⟨[], .nil, rfl, rfl⟩, fun name occurs inner inside => ?_⟩
      cases inside with
      | here member => cases member
      | opened member => cases member
    | cons first _ rest => exact ⟨first.1.append rest.1, first.2.append rest.2⟩

/-! ### Contents of a schema -/

inductive Fits (m : Model) (c : Class) : List Particle → Prop
  | whole {ps : List Property} {content : List Particle} : m.effectiveProperties c = .ok ps →
      Lists m ps content → Fits m c (.identity :: content)
  | added {all ps : List Property} {content : List Particle} : m.effectiveProperties c = .ok all →
      ps <:+ all → Lists m ps content → Fits m c content

theorem filled_fits {final : Progress} (h : Filled x final path c content) :
    Fits x.model c (.identity :: content) ∧ Nests x (.identity :: content) := by
  obtain ⟨ps, found, s, t, run, _⟩ := h
  obtain ⟨lists, nests⟩ := particles_lists x _ _ _ _ _ _ run
  exact ⟨.whole found lists, nests_identity.append nests⟩

theorem members_fits (h : x.members path c s = .ok (content, t)) :
    Fits x.model c (.identity :: content) ∧ Nests x (.identity :: content) := by
  obtain ⟨ps, found, run⟩ := members_ok h
  obtain ⟨lists, nests⟩ := particles_lists x _ _ _ _ _ _ run
  exact ⟨.whole found lists, nests_identity.append nests⟩

theorem Fits.extend {m : Model} (above : Fits m d content) (parent : m.parent? c = .ok (some d))
    (found : m.effectiveProperties c = .ok ps) (own : Lists m c.properties more) :
    Fits m c (content ++ more) := by
  obtain ⟨inherited, known, rfl⟩ := Model.effectiveProperties_parent found parent
  cases above with
  | whole found' lists =>
    obtain rfl := Except.ok.inj (known.symm.trans found')
    exact .whole found (lists.append own)
  | added found' suffix lists =>
    obtain rfl := Except.ok.inj (known.symm.trans found')
    obtain ⟨before, rfl⟩ := suffix
    exact .added found ⟨before, (List.append_assoc ..).symm⟩ (lists.append own)

variable {source : Source} {schema : Schema}

inductive Origin (x : Plan) (final : Progress) (d : Declaration) : Prop
  | root {c : Class} : x.model.Knows c → RootDeclared x final c d → Origin x final d
  | type {c : Class} : x.model.Owns c → TypeDeclared x final c d → Origin x final d
  | group {c : Class} : x.model.Owns c → GroupDeclared x final c d → Origin x final d
  | placeholder {name : String} : d = .placeholder name → Origin x final d
  | languageText : d = .languageText → Origin x final d

theorem History.origin (o : History source schema) {d : Declaration}
    (present : d ∈ schema.declarations) : Origin o.plan o.final d := by
  rw [o.declarations] at present
  rcases List.mem_append.mp present with present | last
  · rcases List.mem_append.mp present with root | other
    · obtain ⟨cs, found, each⟩ := o.rooted
      obtain ⟨c, member, made⟩ := forall₂_mem_right (o.roots_declared found) root
      exact .root (o.model ▸ Model.rootClasses_knows found c member) made
    · obtain ⟨p, requested, s, t, run, grows⟩ := forall₂_mem_right o.made other
      have proper := o.kept.queue.proper p (List.mem_append_left _ requested)
      cases p with
      | type c => exact .type proper (declare_type proper run grows)
      | group c => exact .group proper (declare_group proper run grows)
      | placeholder name => exact .placeholder (Prod.mk.inj (pure_ok run)).1
  · unfold languageDeclarations at last
    split at last
    · exact .languageText (List.mem_singleton.mp last)
    · cases last

theorem Origin.complexType {x : Plan} {final : Progress} {name : String} {title : Labels}
    (h : Origin x final (.complexType name title content)) : ∃ c inner, x.model.Owns c ∧
      final.names.get c = name ∧ content = .identity :: inner ∧
      Filled x final [c.iri] c inner := by
  cases h with
  | @type c owned made =>
    cases made with
    | whole _ filled => exact ⟨c, _, owned, rfl, rfl, filled⟩
  | root _ made => cases made
  | group _ made => cases made
  | placeholder same | languageText same => cases same

theorem Origin.extension {x : Plan} {final : Progress} {name : String} {title : Labels}
    {base : QName}
    (h : Origin x final (.extension name title base content)) : ∃ c parent, x.model.Owns c ∧
      final.names.get c = name ∧ x.extensionBase c = .ok (some parent) ∧
      ClassType x final parent base ∧ Ran x final [c.iri] [c.iri] c.properties content := by
  cases h with
  | @type c owned made =>
    cases made with
    | extending extension based ran => exact ⟨c, _, owned, rfl, extension, based, ran⟩
  | root _ made => cases made
  | group _ made => cases made
  | placeholder same | languageText same => cases same

theorem History.named (o : History source schema) (owned : source.model.Owns c)
    (owned' : o.plan.model.Owns d)
    (same : o.final.names.get d = (ClassNames.ofModel source.model).get c) : d = c := by
  rw [o.kept.get, o.model] at same
  exact ClassNames.get_injective (o.model ▸ owned') owned same

theorem collects (h : generate source = .ok schema) (known : source.model.Knows c) :
    ∃ ps, source.model.effectiveProperties c = .ok ps := by
  obtain ⟨⟨⟩, checked, _⟩ := except_bind_ok h
  obtain ⟨ps, found, _⟩ := (Model.checkSplicing_spliceable checked known).collects
  exact ⟨ps, found⟩

theorem History.extension_lists (o : History source schema) {title : Labels} {base : QName}
    (owned : source.model.Owns c)
    (present : .extension ((ClassNames.ofModel source.model).get c) title base content ∈
      schema.declarations) : Lists source.model c.properties content ∧ Nests o.plan content := by
  obtain ⟨d, _, owned', same, _, _, _, _, run, _⟩ := (o.origin present).extension
  obtain rfl := o.named owned owned' same
  exact o.model ▸ particles_lists o.plan _ _ _ _ _ _ run

theorem History.type_fits (o : History source schema) (h : generate source = .ok schema)
    (type : TypeContent source schema c content) :
    source.model.Owns c ∧ Fits source.model c content ∧ Nests o.plan content := by
  induction type with
  | @whole c title content owned present =>
    obtain ⟨d, inner, owned', same, rfl, filled⟩ := (o.origin present).complexType
    obtain rfl := o.named owned owned' same
    exact ⟨owned, o.model ▸ filled_fits filled⟩
  | @extending c d title base content above owned present parent _ ih =>
    obtain ⟨lists, nests⟩ := o.extension_lists owned present
    obtain ⟨ps, found⟩ := collects h owned.1
    exact ⟨owned, ih.2.1.extend parent found lists, ih.2.2.append nests⟩
  | @adding c d title base content owned present parent _ =>
    obtain ⟨lists, nests⟩ := o.extension_lists owned present
    obtain ⟨ps, found⟩ := collects h owned.1
    obtain ⟨inherited, _, rfl⟩ := Model.effectiveProperties_parent found parent
    exact ⟨owned, .added found (List.suffix_append _ _) lists, nests⟩

/-- Every content that a schema describes is that of a class, or one of an identity alone. -/
theorem History.describes_fits (o : History source schema) (h : generate source = .ok schema)
    (described : Describes source schema content) :
    ((∃ c, source.model.Knows c ∧ Fits source.model c content) ∨ content = [.identity]) ∧
      Nests o.plan content := by
  induction described with
  | type made =>
    obtain ⟨owned, fits, nests⟩ := o.type_fits h made
    exact ⟨.inl ⟨_, owned.1, fits⟩, nests⟩
  | group present =>
    cases o.origin present with
    | @group c owned made =>
      cases made with
      | whole filled =>
        obtain ⟨fits, nests⟩ := filled_fits filled
        exact ⟨.inl ⟨c, o.model ▸ owned.1, o.model ▸ fits⟩, nests⟩
    | root _ made => cases made
    | type _ made => cases made
    | placeholder same | languageText same => cases same
  | root present =>
    cases o.origin present with
    | @root c known made =>
      cases made with
      | whole filled =>
        obtain ⟨fits, nests⟩ := filled_fits filled
        exact ⟨.inl ⟨c, o.model ▸ known, o.model ▸ fits⟩, nests⟩
    | type _ made => cases made
    | group _ made => cases made
    | placeholder same | languageText same => cases same
  | placeholder => exact ⟨.inr rfl, nests_identity⟩
  | nested _ inside ih =>
    obtain ⟨c, _, _, _, rest, known, rfl, run⟩ := ih.2 _ _ _ inside
    obtain ⟨fits, nests⟩ := members_fits run
    exact ⟨.inl ⟨c, o.model ▸ known, o.model ▸ fits⟩, nests⟩

theorem History.extends_type (o : History source schema) {title : Labels} {base : QName}
    (owned : o.plan.model.Owns c)
    (present : .extension ((ClassNames.ofModel source.model).get c) title base content ∈
      schema.declarations)
    (extension : o.plan.extensionBase c = .ok (some d)) (based : ClassType o.plan o.final d base)
    (parents : o.plan.model.Owns d → o.final.Requested (.type d) →
      ∃ above, TypeContent source schema d above) :
    ∃ above, TypeContent source schema c (above ++ content) := by
  have parent := o.model ▸ extensionBase_parent extension
  have owned := o.model ▸ owned
  cases based with
  | imported _ resolved _ _ =>
    have foreign := o.model ▸ Import.Outlook.resolve_some resolved
    exact ⟨[], .adding owned present parent foreign⟩
  | own owned' requested =>
    obtain ⟨above, type⟩ := parents owned' requested
    exact ⟨above, .extending owned present parent type⟩

theorem History.type_content (o : History source schema)
    (found : o.plan.model.effectiveProperties c = .ok ps) : o.plan.model.Owns c →
      o.final.Requested (.type c) → ∃ content, TypeContent source schema c content := by
  refine Model.inheritance_induction
    (motive := fun c _ => o.plan.model.Owns c → o.final.Requested (.type c) →
      ∃ content, TypeContent source schema c content)
    (fun c ps found ih owned requested => ?_) found
  obtain ⟨declaration, present, made⟩ := o.type_declared owned requested
  have named : o.final.names.get c = (ClassNames.ofModel source.model).get c := by
    rw [o.kept.get, o.model]
  cases made with
  | whole => exact ⟨_, .whole (o.model ▸ owned) (named ▸ present)⟩
  | @extending parent base content extension based _ =>
    obtain ⟨inherited, _, same⟩ :=
      Model.effectiveProperties_parent found (extensionBase_parent extension)
    obtain ⟨above, type⟩ := o.extends_type owned (named ▸ present) extension based
      (ih parent inherited (extensionBase_parent extension) same)
    exact ⟨_, type⟩

/-- Each declared type has a content that is described, an extension one that ends with its own. -/
theorem types_described (h : generate source = .ok schema) {name : String} {title : Labels} :
    (.complexType name title content ∈ schema.declarations → Describes source schema content) ∧
    ∀ base, .extension name title base content ∈ schema.declarations →
      ∃ above, Describes source schema (above ++ content) := by
  obtain ⟨extended, ds, final, run, _⟩ := generate_run h
  obtain ⟨o, _⟩ := generate_history h run
  have named (c : Class) : o.final.names.get c = (ClassNames.ofModel source.model).get c := by
    rw [o.kept.get, o.model]
  constructor
  · intro present
    obtain ⟨c, _, owned, same, _, _⟩ := (o.origin present).complexType
    rw [← same, named] at present
    exact .type (.whole (o.model ▸ owned) present)
  · intro base present
    obtain ⟨c, parent, owned, same, extension, based, _⟩ := (o.origin present).extension
    obtain ⟨ps, found⟩ := collects h (o.model ▸ owned.1)
    obtain ⟨inherited, found', _⟩ := Model.effectiveProperties_parent found
      (o.model ▸ extensionBase_parent extension)
    rw [← same, named] at present
    obtain ⟨above, type⟩ := o.extends_type owned present extension based
      (o.type_content (o.model ▸ found'))
    exact ⟨above, .type type⟩

theorem Fits.consists {m : Model} (known : m.Knows c) (h : Fits m c content) :
    ∃ qs, Consists m content qs ∧ propertyNames content = qs.map (·.elementName) := by
  cases h with
  | whole found lists =>
    obtain ⟨qs, contributes, names, own⟩ := lists
    refine ⟨qs, .whole known ⟨_, found, contributes⟩ ?_, own⟩
    rw [← names]
    rfl
  | added found suffix lists =>
    obtain ⟨qs, contributes, names, own⟩ := lists
    exact ⟨qs, .added known ⟨_, _, found, suffix, contributes⟩ names, own⟩

/-! ### Distinct names -/

theorem elementName_identity {p : Property} :
    p.elementName = identityElement ↔ p.label = identityElement := by
  constructor
  · intro same
    have free : '_' ∉ identityElement.toList := by decide
    rw [← same] at free
    exact (toNCName_eq_self free).symm.trans same
  · intro same
    rw [Property.elementName, same]
    exact toNCName_of_isNCName (by decide +kernel)

theorem Consists.distinct_iff {m : Model} (h : Consists m content qs)
    (own : propertyNames content = qs.map (·.elementName)) : DistinctNames content ↔
      (qs.map (·.elementName)).Nodup ∧ ∀ q ∈ qs, q.label ≠ identityElement := by
  have apart : identityElement ∉ propertyNames content ↔ ∀ q ∈ qs, q.label ≠ identityElement := by
    rw [own]
    simp [elementName_identity]
  rw [DistinctNames, apart]
  refine and_congr_left fun free => ?_
  cases h with
  | whole _ _ names =>
    rw [names, List.nodup_cons, ← own]
    exact and_iff_right (apart.mpr free)
  | added _ _ names => rw [names]
  | placeholder alone none =>
    rw [alone, none]
    simp [particles, Particle.toXml, elementNames, elementNamesOf, identityParticle]

/-- In each content that a schema describes the elements are those of the properties of one class,
own, inherited and spliced, behind the identity. All have different names, and none of a property
has that of the identity, exactly if the labels of these properties give different names and none of
them is that of the identity. -/
theorem elements_distinct_iff (h : generate source = .ok schema)
    (described : Describes source schema content) :
    ∃ qs, Consists source.model content qs ∧ propertyNames content = qs.map (·.elementName) ∧
      (DistinctNames content ↔
        (qs.map (·.elementName)).Nodup ∧ ∀ q ∈ qs, q.label ≠ identityElement) := by
  obtain ⟨extended, ds, final, run, _⟩ := generate_run h
  obtain ⟨o, _⟩ := generate_history h run
  rcases (o.describes_fits h described).1 with ⟨c, known, fits⟩ | rfl
  · obtain ⟨qs, consists, own⟩ := fits.consists known
    exact ⟨qs, consists, own, consists.distinct_iff own⟩
  · have consists : Consists source.model [.identity] [] := .placeholder rfl rfl
    exact ⟨[], consists, rfl, consists.distinct_iff rfl⟩

def catalogue (label : String) : Source where
  model := (Model.make "catalogue" "library").rootedAt ["Book"]
    |>.declaring ((Class.make "Book" "Book")
      |>.declaring ((Property.make "title" "https://ex.org/title").primitive
        (Vocabulary.xsd ++ "string"))
      |>.declaring ((Property.make label "https://ex.org/text").primitive
        (Vocabulary.xsd ++ "string")))
  manifests := []
  config := {}

def bookContent (label : String) : List Particle :=
  [.identity, .element "title" (builtin "string") ⟨1, some 1⟩,
    .element (toNCName label) (builtin "string") ⟨1, some 1⟩]

def catalogueSchema (label : String) : Schema where
  target := none
  importsXml := false
  imports := []
  declarations := [.root "Book" {} (.nested (bookContent label))]

theorem catalogue_describes (label : String) :
    Describes (catalogue label) (catalogueSchema label) (bookContent label) :=
  .root (List.mem_singleton_self (Declaration.root "Book" {} (.nested (bookContent label))))

set_option maxRecDepth 2000 in
theorem generate_catalogue_isbn :
    generate (catalogue "isbn") = .ok (catalogueSchema "isbn") := by cbv

set_option maxRecDepth 2000 in
theorem generate_catalogue_iri :
    generate (catalogue "iri") = .ok (catalogueSchema "iri") := by cbv

theorem elements_distinct_catalogue :
    generate (catalogue "isbn") = .ok (catalogueSchema "isbn") ∧
    Describes (catalogue "isbn") (catalogueSchema "isbn") (bookContent "isbn") ∧
    DistinctNames (bookContent "isbn") ∧
    ∃ qs, Consists (catalogue "isbn").model (bookContent "isbn") qs ∧
      (qs.map (·.elementName)).Nodup ∧ ∀ q ∈ qs, q.label ≠ identityElement := by
  obtain ⟨qs, consists, own, distinct⟩ :=
    elements_distinct_iff generate_catalogue_isbn (catalogue_describes "isbn")
  have apart : DistinctNames (bookContent "isbn") := by
    have names : elementNames (particles (bookContent "isbn")) = ["iri", "title", "isbn"] := by
      decide +kernel
    have own : propertyNames (bookContent "isbn") = ["title", "isbn"] := by decide +kernel
    rw [DistinctNames, names, own]
    decide
  exact ⟨generate_catalogue_isbn, catalogue_describes "isbn", apart, qs, consists,
    distinct.mp apart⟩

/-- The element of a property with the label of the identity has the name of the identity. -/
theorem property_named_identity :
    generate (catalogue "iri") = .ok (catalogueSchema "iri") ∧
    Describes (catalogue "iri") (catalogueSchema "iri") (bookContent "iri") ∧
    elementNames (particles (bookContent "iri")) = ["iri", "title", "iri"] ∧
    ¬ DistinctNames (bookContent "iri") := by
  have names : elementNames (particles (bookContent "iri")) = ["iri", "title", "iri"] := by
    decide +kernel
  refine ⟨generate_catalogue_iri, catalogue_describes "iri", names, fun distinct => ?_⟩
  have once := distinct.1
  rw [names] at once
  exact absurd once (by decide)

end Schema

end RdfXmlMapping
