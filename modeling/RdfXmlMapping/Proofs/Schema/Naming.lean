import RdfXmlMapping.Proofs.Schema.Requests

/-!
The names by which a schema refers to types and groups. Each step that gives out a name asks for
what the name stands for, so that the name is good from then on.
-/

namespace RdfXmlMapping.Schema

open Xml (QName)

/-- The name of a class of another specification, given the entry of its schema. What a schema
without a namespace declares falls into the target namespace. -/
def Plan.importedName (x : Plan) (e : Import.Entry) (name : String) : QName :=
  match e.bound with
  | some own => ⟨some own, name⟩
  | none => x.qualified name

/-- The name of the type of a class, which is good in a state. -/
inductive ClassType (x : Plan) (s : Progress) (c : Class) : QName → Prop
  | own : x.model.Owns c → s.Requested (.type c) → ClassType x s c (x.qualified (s.names.get c))
  | imported {d : Import.Descriptor} {e : Import.Entry} : x.model.Knows c →
      x.outlook.resolve x.model c = .ok (some d) → e ∈ s.imports.entries →
      e.descriptor.reference = d.reference →
      ClassType x s c (x.importedName e (s.names.get c))

/-- A name of a type that is good in a state. -/
inductive TypeName (x : Plan) (s : Progress) : QName → Prop
  | standard (name : String) : TypeName x s (builtin name)
  | ofClass {c : Class} {q : QName} : ClassType x s c q → TypeName x s q
  | madeUp {name : String} : s.Requested (.placeholder name) → TypeName x s (x.qualified name)
  | languageText : s.usesLanguageText → TypeName x s (x.qualified languageTextType)

def GroupName (x : Plan) (s : Progress) (q : QName) : Prop :=
  ∃ c, x.model.Owns c ∧ s.Requested (.group c) ∧ q = x.qualified (s.names.get c)

variable {x : Plan} {s t : Progress} {q : QName} {c : Class}

theorem Grows.requested {p : Pending} (grows : Grows s t) (h : s.Requested p) :
    t.Requested p := by
  cases p with
  | type c => exact grows.types h
  | group c => exact grows.groups h
  | placeholder name =>
    obtain ⟨key, present⟩ := h
    exact ⟨key, grows.placeholders present⟩

theorem ClassType.mono (h : ClassType x s c q) (grows : Grows s t) : ClassType x t c q := by
  cases h with
  | own owned requested => exact grows.get _ ▸ .own owned (grows.requested requested)
  | imported known resolved member same =>
    exact grows.get _ ▸ .imported known resolved (grows.imports member) same

theorem TypeName.mono (h : TypeName x s q) (grows : Grows s t) : TypeName x t q := by
  cases h with
  | standard name => exact .standard name
  | ofClass named => exact .ofClass (named.mono grows)
  | madeUp requested => exact .madeUp (grows.requested requested)
  | languageText used => exact .languageText (grows.languageText used)

theorem GroupName.mono (h : GroupName x s q) (grows : Grows s t) : GroupName x t q := by
  obtain ⟨c, owned, requested, rfl⟩ := h
  exact ⟨c, owned, grows.requested requested, by rw [grows.get]⟩

/-! ### Requests for classes -/

theorem mem_iris_cons {m : Model} {c d : Class} (left : m.Owns d) (right : m.Owns c)
    {iris : List String} : d.iri ∈ c.iri :: iris ↔ d.iri ∈ iris ∨ d = c := by
  rw [List.mem_cons, or_comm]
  refine or_congr_right ⟨Model.knows_eq left.1 right.1, ?_⟩
  rintro rfl
  rfl

theorem typeRequested_step (owned : x.model.Owns c) (new : c.iri ∉ s.types) :
    Step x s { s with types := c.iri :: s.types, pending := s.pending ++ [.type c] } := by
  refine ⟨⟨rfl, List.Subset.refl _, List.subset_cons_self .., List.Subset.refl _,
    List.Subset.refl _, id⟩, fun done kept => ?_⟩
  refine { kept with queue := kept.queue.push (p := .type c) owned new rfl fun q good => ?_ }
  cases q with
  | type d =>
    rw [Pending.type.injEq]
    exact mem_iris_cons good owned
  | group d => exact (or_iff_left fun same => by cases same).symm
  | placeholder name => exact (or_iff_left fun same => by cases same).symm

theorem groupRequested_step (owned : x.model.Owns c) (new : c.iri ∉ s.groups) :
    Step x s { s with groups := c.iri :: s.groups, pending := s.pending ++ [.group c] } := by
  refine ⟨⟨rfl, List.Subset.refl _, List.Subset.refl _, List.subset_cons_self ..,
    List.Subset.refl _, id⟩, fun done kept => ?_⟩
  refine { kept with queue := kept.queue.push (p := .group c) owned new rfl fun q good => ?_ }
  cases q with
  | group d =>
    rw [Pending.group.injEq]
    exact mem_iris_cons good owned
  | type d => exact (or_iff_left fun same => by cases same).symm
  | placeholder name => exact (or_iff_left fun same => by cases same).symm

theorem requestType_step (owned : x.model.Owns c) (h : x.requestType c s = .ok (q, t)) :
    Step x s t ∧ ClassType x t c q := by
  obtain ⟨_, _, asked, h⟩ := bind_ok h
  cases modify_ok asked
  obtain ⟨_, _, now, h⟩ := bind_ok h
  cases get_ok now
  cases pure_ok h
  split
  next old => exact ⟨.refl x s, .own owned (List.contains_iff_mem.mp old)⟩
  next new =>
    have step := typeRequested_step owned fun old => new (List.contains_iff_mem.mpr old)
    exact ⟨step, .own owned List.mem_cons_self⟩

theorem requestGroup_class (owned : x.model.Owns c) (h : x.requestGroup c s = .ok (q, t)) :
    Step x s t ∧ t.Requested (.group c) ∧ q = x.qualified (t.names.get c) := by
  obtain ⟨_, _, asked, h⟩ := bind_ok h
  cases modify_ok asked
  obtain ⟨_, _, now, h⟩ := bind_ok h
  cases get_ok now
  cases pure_ok h
  split
  next old => exact ⟨.refl x s, List.contains_iff_mem.mp old, rfl⟩
  next new =>
    have step := groupRequested_step owned fun old => new (List.contains_iff_mem.mpr old)
    exact ⟨step, List.mem_cons_self, rfl⟩

theorem requestGroup_step (owned : x.model.Owns c) (h : x.requestGroup c s = .ok (q, t)) :
    Step x s t ∧ GroupName x t q := by
  obtain ⟨step, requested, named⟩ := requestGroup_class owned h
  exact ⟨step, c, owned, requested, named⟩

/-! ### Imports -/

theorem registered_step {d : Import.Descriptor} {e : Import.Entry} {imports : Import.Table}
    (known : x.model.Knows c) (resolved : x.outlook.resolve x.model c = .ok (some d))
    (h : s.imports.Registered d e imports) : Step x s { s with imports } := by
  refine ⟨⟨rfl, (Import.Table.registered_prefix h).subset, List.Subset.refl _,
    List.Subset.refl _, List.Subset.refl _, id⟩, fun done kept => ?_⟩
  refine { kept with
    imports := Import.Table.sound_registered kept.imports h
    reserved := (Import.Table.registered_reserved h).trans kept.reserved
    origins := fun e member => ?_
    queue := kept.queue.same rfl fun q => by cases q <;> rfl }
  rcases Import.Table.registered_entry h member with old | rfl
  · exact kept.origins e old
  · exact ⟨c, known, resolved⟩

theorem importedType_step {d : Import.Descriptor} (known : x.model.Knows c)
    (resolved : x.outlook.resolve x.model c = .ok (some d))
    (h : x.importedType d c s = .ok (q, t)) : Step x s t ∧ ClassType x t c q := by
  obtain ⟨_, _, now, h⟩ := bind_ok h
  cases get_ok now
  obtain ⟨_, _, stored, h⟩ := bind_ok h
  cases set_ok stored
  cases pure_ok h
  have entered := Import.Table.register_registered s.imports d
  obtain ⟨member, same⟩ := Import.Table.registered_mem entered
  exact ⟨registered_step known resolved entered, .imported known resolved member same⟩

theorem typeOf_step (known : x.model.Knows c) (h : x.typeOf c s = .ok (q, t)) :
    Step x s t ∧ ClassType x t c q := by
  obtain ⟨found, _, resolved, h⟩ := bind_ok h
  obtain ⟨resolved, rfl⟩ := lift_ok resolved
  cases found with
  | none => exact requestType_step ⟨known, Import.Outlook.resolve_none resolved⟩ h
  | some d => exact importedType_step known resolved h

/-! ### Plain values and choices -/

theorem plainType_step {p : Primitive} (h : x.plainType p s = .ok (q, t)) :
    Step x s t ∧ TypeName x t q := by
  cases p with
  | codelist c =>
    cases pure_ok h
    exact ⟨.refl x s, .standard _⟩
  | datatype iri =>
    rw [Plan.plainType] at h
    cases type : SchemaType.ofDatatype iri with
    | builtin name =>
      rw [type] at h
      cases pure_ok h
      exact ⟨.refl x s, .standard _⟩
    | languageText =>
      rw [type] at h
      obtain ⟨_, _, used, h⟩ := bind_ok h
      cases modify_ok used
      cases pure_ok h
      refine ⟨⟨⟨rfl, List.Subset.refl _, List.Subset.refl _, List.Subset.refl _,
        List.Subset.refl _, fun _ => rfl⟩, fun done kept => ?_⟩, .languageText rfl⟩
      exact { kept with
        queue := kept.queue.same rfl fun q => by cases q <;> rfl
        placeholders := ⟨kept.placeholders.keys, kept.placeholders.made⟩ }

/-- A type of the language whose name is a name. -/
def IsSimple (q : QName) : Prop := ∃ name, q = builtin name ∧ ∀ c ∈ name.toList, NCName.isPart c

theorem fixedType_part {name : String}
    (fixed : name ∈ ["anySimpleType", "anyURI", "dateTimeStamp", "string"]) :
    ∀ c ∈ name.toList, NCName.isPart c := by
  have checked : ["anySimpleType", "anyURI", "dateTimeStamp", "string"].all
      fun name => name.toList.all NCName.isPart := by decide
  exact List.all_eq_true.mp (List.all_eq_true.mp checked name fixed)

theorem ofDatatype_part {iri name : String} (h : SchemaType.ofDatatype iri = .builtin name) :
    ∀ c ∈ name.toList, NCName.isPart c := by
  unfold SchemaType.ofDatatype at h
  split at h
  · cases h
  · split at h
    · obtain rfl := SchemaType.builtin.inj h
      exact fixedType_part (by decide)
    · split at h
      · split at h
        next proper =>
          obtain rfl := SchemaType.builtin.inj h
          rw [String.toList_ofList]
          exact isNCNameChars_part proper
        next =>
          obtain rfl := SchemaType.builtin.inj h
          exact fixedType_part (by decide)
      · obtain rfl := SchemaType.builtin.inj h
        exact fixedType_part (by decide)

theorem memberType_simple (p : Primitive) : IsSimple (Plan.memberType p) := by
  cases p with
  | codelist c => exact ⟨_, rfl, fixedType_part (by decide)⟩
  | datatype iri =>
    rw [Plan.memberType]
    split
    next read => exact ⟨_, rfl, ofDatatype_part read⟩
    next => exact ⟨_, rfl, fixedType_part (by decide)⟩

theorem keyOf?_placeholder {m : Model} {p : Property} {plan : ChoicePlan} {label : String}
    (shape : m.shapeOf p = .ok (.choice plan)) (base : plan.base = .placeholder label) :
    keyOf? m p = some (placeholderKey plan) := by
  simp [keyOf?, shape, ChoicePlan.isPlaceholder, base]

theorem placeholderRequested_step {p : Property} {plan : ChoicePlan} {label : String}
    (declared : x.model.Declares p) (shape : x.model.shapeOf p = .ok (.choice plan))
    (base : plan.base = .placeholder label)
    (new : ∀ e ∈ s.placeholders, e.1 ≠ placeholderKey plan) :
    Step x s { s with
      names := (s.names.reserve (toNCName label)).2
      placeholders := s.placeholders ++
        [(placeholderKey plan, (s.names.reserve (toNCName label)).1)]
      pending := s.pending ++ [.placeholder (s.names.reserve (toNCName label)).1] } := by
  have free : (s.names.reserve (toNCName label)).1 ∉ s.names.taken := ClassNames.reserve_free
  refine ⟨⟨rfl, List.Subset.refl _, List.Subset.refl _, List.Subset.refl _,
    List.subset_append_left .., id⟩, fun done kept => ?_⟩
  refine { kept with
    taken := List.subset_cons_of_subset _ kept.taken
    queue := kept.queue.push (p := .placeholder _) trivial ?_ rfl fun q good => ?_
    placeholders := ⟨?_, fun e member => ?_⟩ }
  · rintro ⟨key, present⟩
    exact free (kept.placeholders.made _ present).2.2.1
  · cases q with
    | placeholder name => simp [Progress.Requested, exists_or]
    | type d => exact (or_iff_left fun same => by cases same).symm
    | group d => exact (or_iff_left fun same => by cases same).symm
  · rw [List.map_append]
    refine List.Nodup.append kept.placeholders.keys (List.nodup_singleton _) ?_
    intro key old last
    obtain ⟨e, member, rfl⟩ := List.mem_map.mp old
    exact new e member (List.mem_singleton.mp last)
  · rcases List.mem_append.mp member with old | last
    · obtain ⟨found, made, taken, apart⟩ := kept.placeholders.made e old
      exact ⟨found, made, List.mem_cons_of_mem _ taken, apart⟩
    · obtain rfl := List.mem_singleton.mp last
      obtain ⟨n, named⟩ : ∃ n, (s.names.reserve (toNCName label)).1 =
          ClassNames.choice (toNCName label) n := ClassNames.reserve_choice
      exact ⟨⟨p, declared, keyOf?_placeholder shape base⟩,
        ⟨p, plan, label, n, declared, shape, base, named⟩, List.mem_cons_self,
        fun present => free (kept.taken present)⟩

/-- A choice with a root refers to the types of the root and of all that derive from it. -/
theorem rootedType_step {plan : ChoicePlan} {root : Class} {derived : List Derivation}
    (known : ∀ c ∈ plan.candidates, x.model.Describable c) (grounded : plan.Grounded)
    (base : plan.base = .rooted root derived) (h : x.choiceType plan s = .ok (q, t)) :
    Step x s t ∧ ClassType x t root q ∧ ∀ d ∈ derived, ∃ r, ClassType x t d.cls r := by
  rw [ChoicePlan.Grounded, base] at grounded
  rw [Plan.choiceType, base] at h
  obtain ⟨type, _, first, h⟩ := bind_ok h
  obtain ⟨others, _, each, h⟩ := bind_ok h
  cases pure_ok h
  obtain ⟨step, named⟩ := typeOf_step (known root grounded.1).1 first
  obtain ⟨steps, made⟩ := runs_grow (G := Step x)
    (P := fun s (d : Derivation) => ClassType x s d.cls)
    (Step.refl x) (fun _ _ _ => Step.trans) (fun _ _ _ _ step named => named.mono step.grows)
    (mapM_ok each) fun d member q s t run =>
      typeOf_step (known d.cls (grounded.2 d member).1).1 run
  refine ⟨step.trans steps, named.mono steps.grows, fun d member => ?_⟩
  obtain ⟨r, _, good⟩ := forall₂_mem_left made member
  exact ⟨r, good⟩

/-- A choice without a root refers to a type made up for it. -/
theorem madeUpType_step {p : Property} {plan : ChoicePlan} {label : String}
    (declared : x.model.Declares p) (shape : x.model.shapeOf p = .ok (.choice plan))
    (base : plan.base = .placeholder label) (h : x.choiceType plan s = .ok (q, t)) :
    Step x s t ∧ ∃ name, t.Requested (.placeholder name) ∧ q = x.qualified name := by
  rw [Plan.choiceType, base] at h
  obtain ⟨_, _, now, h⟩ := bind_ok h
  cases get_ok now
  dsimp only at h
  cases find : s.placeholders.find? (·.1 == placeholderKey plan) with
  | some e =>
    rw [← placeholderKey, find] at h
    cases pure_ok h
    exact ⟨.refl x s, e.2, ⟨_, List.mem_of_find?_eq_some find⟩, rfl⟩
  | none =>
    rw [← placeholderKey, find] at h
    obtain ⟨_, _, stored, h⟩ := bind_ok h
    cases set_ok stored
    cases pure_ok h
    refine ⟨placeholderRequested_step declared shape base fun e member same => ?_, _, ?_, rfl⟩
    · exact List.find?_eq_none.mp find e member (beq_iff_eq.mpr same)
    · exact ⟨_, List.mem_append_right _ List.mem_cons_self⟩

theorem choiceType_step {p : Property} {plan : ChoicePlan} (declared : x.model.Declares p)
    (shape : x.model.shapeOf p = .ok (.choice plan)) (h : x.choiceType plan s = .ok (q, t)) :
    Step x s t ∧ TypeName x t q := by
  obtain ⟨known, grounded⟩ := Model.shapeOf_leads shape
  cases base : plan.base with
  | rooted root derived =>
    obtain ⟨step, named, _⟩ := rootedType_step known grounded base h
    exact ⟨step, .ofClass named⟩
  | placeholder label =>
    obtain ⟨step, name, requested, rfl⟩ := madeUpType_step declared shape base h
    exact ⟨step, .madeUp requested⟩

end RdfXmlMapping.Schema
