import RdfXmlMapping.Proofs.Schema.Resolution

/-!
What stands in a schema for what has been asked for: one declaration, made by a run whose outcome
the finished schema still has.
-/

namespace RdfXmlMapping.Schema

variable {x : Plan} {final s t : Progress} {c : Class} {d e : Declaration}

/-- The content of properties has been made, and nothing known then is lost in the end. -/
def Ran (x : Plan) (final : Progress) (path chain : List String) (ps : List Property)
    (content : List Particle) : Prop :=
  ∃ s t, x.particles path chain ps s = .ok (content, t) ∧ Grows t final

/-- The content of one property has been made. -/
def Placed (x : Plan) (final : Progress) (path chain : List String) (p : Property)
    (content : List Particle) : Prop :=
  ∃ s t, x.member path chain p s = .ok (content, t) ∧ Grows t final

theorem Ran.placed {path chain : List String} {ps : List Property} {content : List Particle}
    (declared : ∀ p ∈ ps, x.model.Declares p) (h : Ran x final path chain ps content) :
    ∃ parts, content = parts.flatten ∧ List.Forall₂ (Placed x final path chain) ps parts := by
  obtain ⟨s, t, run, grows⟩ := h
  obtain ⟨parts, runs, rfl⟩ := particles_ok run
  have placed := runs_ends Grows.refl (fun _ _ _ => Grows.trans) runs
    fun p member part s t run => (member_step (declared p member) run).grows
  refine ⟨parts, rfl, placed.imp fun p part made => ?_⟩
  obtain ⟨s', t', run, more⟩ := made
  exact ⟨s', t', run, more.trans grows⟩

/-- The content of a class without the identity. -/
def Filled (x : Plan) (final : Progress) (path : List String) (c : Class)
    (content : List Particle) : Prop :=
  ∃ ps, x.model.effectiveProperties c = .ok ps ∧ Ran x final path [c.iri] ps content

theorem Filled.placed {path : List String} {content : List Particle} (known : x.model.Knows c)
    (h : Filled x final path c content) : ∃ ps parts, x.model.effectiveProperties c = .ok ps ∧
      content = parts.flatten ∧ List.Forall₂ (Placed x final path [c.iri]) ps parts := by
  obtain ⟨ps, own, ran⟩ := h
  have declared := Model.effectiveProperties_declares (Model.knows_mem known) own
  obtain ⟨parts, same, placed⟩ := ran.placed declared
  exact ⟨ps, parts, own, same, placed⟩

theorem members_filled {path : List String} {content : List Particle}
    (h : x.members path c s = .ok (content, t)) (grows : Grows t final) :
    Filled x final path c content := by
  obtain ⟨ps, own, run⟩ := members_ok h
  exact ⟨ps, own, s, t, run, grows⟩

theorem content_filled {content : List Particle} (h : x.content c s = .ok (content, t))
    (grows : Grows t final) :
    ∃ inner, Filled x final [c.iri] c inner ∧ content = .identity :: inner := by
  obtain ⟨inner, run, rfl⟩ := content_ok h
  exact ⟨inner, members_filled run grows, rfl⟩

/-- The declaration of the type of a class: one with all its content, or an extension of the type of
its parent. -/
inductive TypeDeclared (x : Plan) (final : Progress) (c : Class) : Declaration → Prop
  | whole {content : List Particle} : x.extensionBase c = .ok none →
      Filled x final [c.iri] c content →
      TypeDeclared x final c (.complexType (final.names.get c) c.title (.identity :: content))
  | extending {parent : Class} {base : Xml.QName} {content : List Particle} :
      x.extensionBase c = .ok (some parent) → ClassType x final parent base →
      Ran x final [c.iri] [c.iri] c.properties content →
      TypeDeclared x final c (.extension (final.names.get c) c.title base content)

inductive GroupDeclared (x : Plan) (final : Progress) (c : Class) : Declaration → Prop
  | whole {content : List Particle} : Filled x final [c.iri] c content →
      GroupDeclared x final c (.group (final.names.get c) (.identity :: content))

/-- The element of a root: one of a named type, of a named group, or with its content in place. -/
inductive RootDeclared (x : Plan) (final : Progress) (c : Class) : Declaration → Prop
  | typed {q : Xml.QName} : ClassType x final c q →
      RootDeclared x final c (.root (Model.elementName c) c.title (.typed q))
  | grouped : x.model.Owns c → final.Requested (.group c) →
      RootDeclared x final c
        (.root (Model.elementName c) c.title (.grouped (x.qualified (final.names.get c))))
  | whole {content : List Particle} : Filled x final [c.iri] c content →
      RootDeclared x final c
        (.root (Model.elementName c) c.title (.nested (.identity :: content)))

theorem root_declared (known : x.model.Knows c) (h : x.root c s = .ok (d, t))
    (grows : Grows t final) : RootDeclared x final c d := by
  cases root_ok h with
  | typed run => exact .typed ((typeOf_step known run).2.mono grows)
  | grouped resolved run =>
    have owned : x.model.Owns c := ⟨known, Import.Outlook.resolve_none resolved⟩
    obtain ⟨_, requested, rfl⟩ := requestGroup_class owned run
    rw [← grows.get c]
    exact .grouped owned (grows.requested requested)
  | nested run =>
    obtain ⟨inner, filled, rfl⟩ := content_filled run grows
    exact .whole filled

theorem ClassType.requested {q : Xml.QName} (h : ClassType x s c q)
    (own : x.model.isForeign c = false) : s.Requested (.type c) := by
  cases h with
  | own _ requested => exact requested
  | imported _ resolved _ _ =>
    exact absurd (Import.Outlook.resolve_some resolved) (Bool.eq_false_iff.mp own)

theorem declare_type (owned : x.model.Owns c) (h : x.declare (.type c) s = .ok (d, t))
    (grows : Grows t final) : TypeDeclared x final c d := by
  have named := (grows.get c).trans ((declare_step (p := .type c) owned h).1.grows.get c)
  cases declareType_ok h with
  | whole found run =>
    obtain ⟨inner, filled, rfl⟩ := content_filled run grows
    rw [← named]
    exact .whole found filled
  | extending found called run =>
    have declared : ∀ p ∈ c.properties, x.model.Declares p :=
      fun p member => ⟨c, Model.knows_mem owned.1, member⟩
    have later := (particles_step x _ _ _ _ _ _ declared run).1.grows.trans grows
    rw [← named]
    exact .extending found ((typeOf_step (extensionBase_knows found) called).2.mono later)
      ⟨_, _, run, grows⟩

theorem declare_group (owned : x.model.Owns c) (h : x.declare (.group c) s = .ok (d, t))
    (grows : Grows t final) : GroupDeclared x final c d := by
  have named := (grows.get c).trans ((declare_step (p := .group c) owned h).1.grows.get c)
  obtain ⟨content, run, rfl⟩ := declareGroup_ok h
  obtain ⟨inner, filled, rfl⟩ := content_filled run grows
  rw [← named]
  exact .whole filled

/-! ### Declarations of a finished schema -/

variable {source : Source} {schema : Schema}

theorem History.roots_declared (o : History source schema) {roots : List Class}
    (found : source.model.rootClasses = .ok roots) :
    List.Forall₂ (RootDeclared o.plan o.final) roots o.roots := by
  obtain ⟨cs, found', each⟩ := o.rooted
  obtain rfl := Except.ok.inj (found.symm.trans found')
  refine List.forall₂_iff_zip.mpr ⟨each.length_eq, fun {c d} member => ?_⟩
  obtain ⟨_, _, run, grows⟩ := List.forall₂_zip each member
  have known := Model.rootClasses_knows found c (List.of_mem_zip member).1
  exact root_declared (o.model ▸ known) run grows

theorem History.made_of (o : History source schema) {p : Pending} (proper : p.Proper o.plan.model)
    (requested : o.final.Requested p) : ∃ d ∈ schema.declarations, Made o.plan o.final p d := by
  have member := (o.kept.queue.requested p proper).mp requested
  rw [o.finished, List.append_nil] at member
  obtain ⟨d, present, made⟩ := forall₂_mem_left o.made member
  refine ⟨d, ?_, made⟩
  rw [o.declarations]
  exact List.mem_append_left _ (List.mem_append_right _ present)

theorem History.type_declared (o : History source schema) (owned : o.plan.model.Owns c)
    (requested : o.final.Requested (.type c)) :
    ∃ d ∈ schema.declarations, TypeDeclared o.plan o.final c d := by
  obtain ⟨d, present, _, _, run, grows⟩ := o.made_of (p := .type c) owned requested
  exact ⟨d, present, declare_type owned run grows⟩

theorem History.group_declared (o : History source schema) (owned : o.plan.model.Owns c)
    (requested : o.final.Requested (.group c)) :
    ∃ d ∈ schema.declarations, GroupDeclared o.plan o.final c d := by
  obtain ⟨d, present, _, _, run, grows⟩ := o.made_of (p := .group c) owned requested
  exact ⟨d, present, declare_group owned run grows⟩

theorem History.placeholder_declared (o : History source schema) {name : String}
    (requested : o.final.Requested (.placeholder name)) :
    .placeholder name ∈ schema.declarations := by
  obtain ⟨d, present, _, _, run, _⟩ := o.made_of (p := .placeholder name) trivial requested
  cases pure_ok run
  exact present

theorem Outcome.languageText_declared (o : Outcome source schema)
    (used : o.final.usesLanguageText) : .languageText ∈ schema.declarations := by
  rw [o.declarations, languageDeclarations, if_pos used]
  exact List.mem_append_right _ List.mem_cons_self

/-! ### One declaration for each name -/

/-- The kind of element that a declaration makes, and its name. -/
def Declaration.Bears (d : Declaration) (tag name : String) : Prop :=
  d.toXml.name = tag ∧ d.toXml.attributes.lookup "name" = some name

theorem bears_unique {tag name : String} {ds : List Declaration}
    (once : (topLevel tag (ds.map Declaration.toXml)).Nodup) (left : d ∈ ds) (right : e ∈ ds)
    (first : d.Bears tag name) (second : e.Bears tag name) : d = e := by
  rw [topLevel, List.filterMap_map, List.Nodup, List.pairwise_filterMap] at once
  have symmetric : Std.Symm fun d e : Declaration => ∀ a,
      ((fun e : Xml.Element => if e.name = tag then e.attributes.lookup "name" else none) ∘
        Declaration.toXml) d = some a → ∀ b, _ = some b → a ≠ b :=
    ⟨fun _ _ apart b right a left => (apart a left b right).symm⟩
  by_contra different
  refine once.forall left right different name ?_ name ?_ rfl
  · simp [first.1, first.2]
  · simp [second.1, second.2]

theorem Outcome.bears_unique (o : Outcome source schema) {tag name : String}
    (kind : tag = "xs:complexType" ∨ tag = "xs:group") (left : d ∈ schema.declarations)
    (right : e ∈ schema.declarations) (first : d.Bears tag name) (second : e.Bears tag name) :
    d = e := by
  have once : (topLevel tag (toXml schema).children).Nodup := by
    rcases kind with rfl | rfl
    · exact o.types_nodup
    · exact o.groups_nodup
  rw [toXml, Xml.Element.children, topLevel_append] at once
  exact Schema.bears_unique once.of_append_right left right first second

end RdfXmlMapping.Schema
