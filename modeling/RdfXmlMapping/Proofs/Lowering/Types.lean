import RdfXmlMapping.Proofs.ClassNames
import RdfXmlMapping.Proofs.Import.Table
import RdfXmlMapping.Proofs.Lowering.Runs

/-!
The types that a stylesheet states. A branch of a choice states the type of its class, unless that
is the root of the choice; the schema of another specification has been entered by then.
-/

namespace RdfXmlMapping.Lowering

open Xml (QName)

variable {y : Plan} {s t u : Progress} {c : Class} {q : QName}

/-- What holds of the schemas that have been entered while a stylesheet grows. -/
structure Kept (y : Plan) (s : Progress) : Prop where
  sound : s.types.Sound
  origins : ∀ e ∈ s.types.entries, ∃ c, y.model.Knows c ∧
    y.schemaOutlook.resolve y.model c = .ok (some e.descriptor)

structure Grows (y : Plan) (s t : Progress) : Prop where
  types : s.types.entries ⊆ t.types.entries
  kept : Kept y s → Kept y t
  reserved : t.types.reserved = s.types.reserved

theorem Grows.refl (y : Plan) (s : Progress) : Grows y s s := ⟨List.Subset.refl _, id, rfl⟩

theorem Grows.trans (first : Grows y s t) (second : Grows y t u) : Grows y s u :=
  ⟨List.Subset.trans first.types second.types, second.kept ∘ first.kept,
    second.reserved.trans first.reserved⟩

/-- The name by which a stylesheet states the type of a class. -/
inductive TypeName (y : Plan) (s : Progress) (c : Class) : QName → Prop
  | own : y.model.isForeign c = false →
      TypeName y s c (Stylesheet.targetName y.model.target? (y.names.get c))
  | imported {d : Import.Descriptor} {e : Import.Entry} :
      y.schemaOutlook.resolve y.model c = .ok (some d) → e ∈ s.types.entries →
      e.descriptor.reference = d.reference → TypeName y s c ⟨e.bound, toNCName c.label⟩

theorem TypeName.mono (h : TypeName y s c q) (grows : Grows y s t) : TypeName y t c q := by
  cases h with
  | own own => exact .own own
  | imported resolved member same => exact .imported resolved (grows.types member) same

/-- The branch for a candidate of a choice with a root. Its type is stated if it is not the root. -/
def BranchOf (y : Plan) (s : Progress) (root c : Class) (b : Branch) : Prop :=
  if c.iri = root.iri then b.type = none else ∃ q, b.type = some q ∧ TypeName y s c q

/-- What is written for a property whose values are chosen has one branch for each candidate. -/
def ItemOf (y : Plan) (s : Progress) (p : Property) (i : Item) : Prop :=
  ∀ plan root derived, y.model.shapeOf p = .ok (.choice plan) → plan.base = .rooted root derived →
    ∃ rows name branches otherwise, i = .element rows name (.choice branches otherwise) ∧
      List.Forall₂ (BranchOf y s root) plan.candidates branches

def TemplateOf (y : Plan) (s : Progress) (c : Class) (t : Template) : Prop :=
  ∃ ps, y.model.effectiveProperties c = .ok ps ∧ List.Forall₂ (ItemOf y s) ps t.items

theorem BranchOf.mono {root : Class} {b : Branch} (h : BranchOf y s root c b)
    (grows : Grows y s t) : BranchOf y t root c b := by
  rw [BranchOf] at h ⊢
  split
  next same => rwa [if_pos same] at h
  next other =>
    rw [if_neg other] at h
    obtain ⟨q, stated, named⟩ := h
    exact ⟨q, stated, named.mono grows⟩

theorem ItemOf.mono {p : Property} {i : Item} (h : ItemOf y s p i) (grows : Grows y s t) :
    ItemOf y t p i := by
  intro plan root derived shape base
  obtain ⟨rows, name, branches, otherwise, same, each⟩ := h plan root derived shape base
  exact ⟨rows, name, branches, otherwise, same, each.imp fun _ _ b => b.mono grows⟩

theorem TemplateOf.mono {template : Template} (h : TemplateOf y s c template)
    (grows : Grows y s t) : TemplateOf y t c template := by
  obtain ⟨ps, own, each⟩ := h
  exact ⟨ps, own, each.imp fun _ _ i => i.mono grows⟩

/-! ### Steps -/

theorem templateOf_grows {name : String} (h : y.templateOf c s = .ok (name, t)) : Grows y s t := by
  obtain ⟨_, _, _, rfl⟩ := templateOf_made h
  exact ⟨List.Subset.refl _, fun kept => ⟨kept.sound, kept.origins⟩, rfl⟩

theorem registered_grows {d : Import.Descriptor} {e : Import.Entry} {types : Import.Table}
    (known : y.model.Knows c) (resolved : y.schemaOutlook.resolve y.model c = .ok (some d))
    (h : s.types.Registered d e types) : Grows y s { s with types } := by
  refine ⟨(Import.Table.registered_prefix h).subset, fun kept => ?_,
    Import.Table.registered_reserved h⟩
  refine ⟨Import.Table.sound_registered kept.sound h, fun e member => ?_⟩
  rcases Import.Table.registered_entry h member with old | rfl
  · exact kept.origins e old
  · exact ⟨c, known, resolved⟩

theorem typeName_step (known : y.model.Knows c) (h : y.typeName c s = .ok (q, t)) :
    Grows y s t ∧ TypeName y t c q := by
  cases typeName_made h with
  | own resolved => exact ⟨.refl y _, .own (Import.Outlook.resolve_none resolved)⟩
  | @imported d resolved =>
    have entered := Import.Table.register_registered s.types d
    obtain ⟨member, same⟩ := Import.Table.registered_mem entered
    exact ⟨registered_grows known resolved entered, .imported resolved member same⟩

theorem branch_step {root : Class} {b : Branch} (known : y.model.Knows c)
    (h : y.branch root c s = .ok (b, t)) : Grows y s t ∧ BranchOf y t root c b := by
  unfold BranchOf
  cases branch_made h with
  | root _ same made =>
    rw [if_pos same]
    exact ⟨templateOf_grows made, rfl⟩
  | derived _ other named made =>
    rw [if_neg other]
    obtain ⟨first, typed⟩ := typeName_step known named
    have second := templateOf_grows made
    exact ⟨first.trans second, _, rfl, typed.mono second⟩

theorem branches_step {p : Property} {plan : ChoicePlan} {root : Class} {branches : List Branch}
    (shape : y.model.shapeOf p = .ok (.choice plan))
    (h : Runs (y.branch root) plan.candidates branches s t) :
    Grows y s t ∧ List.Forall₂ (BranchOf y t root) plan.candidates branches :=
  runs_grow (P := fun s c b => BranchOf y s root c b) (Grows.refl y) (fun _ _ _ => Grows.trans)
    (fun _ _ _ _ grows b => b.mono grows) h
    fun c member _ _ _ run => branch_step ((Model.shapeOf_leads shape).1 c member).1 run

theorem content_grows {p : Property} {shape : Shape} {content : Content}
    (read : y.model.shapeOf p = .ok shape) (h : ContentMade y p s shape content t) :
    Grows y s t := by
  cases h with
  | codelist | literal | identity => exact .refl y _
  | instanceOf made => exact templateOf_grows made
  | choice _ each made => exact (branches_step read each).1.trans (templateOf_grows made)

theorem item_step {p : Property} {i : Item} (h : y.item p s = .ok (i, t)) :
    Grows y s t ∧ ItemOf y t p i := by
  cases item_made h with
  | spliced _ target made =>
    refine ⟨templateOf_grows made, fun plan root derived shape _ => ?_⟩
    cases Except.ok.inj (shape.symm.trans (Model.spliceTarget_single target).1)
  | element _ read made =>
    refine ⟨content_grows read made, fun plan root derived chosen base => ?_⟩
    obtain rfl := Except.ok.inj (read.symm.trans chosen)
    cases made with
    | identity base' => cases base.symm.trans base'
    | choice base' each made =>
      obtain ⟨rfl, rfl⟩ := ChoiceBase.rooted.inj (base.symm.trans base')
      refine ⟨_, _, _, _, rfl, (branches_step read each).2.imp fun _ _ b => ?_⟩
      exact b.mono (templateOf_grows made)

theorem classTemplate_step {template : Template}
    (h : y.classTemplate c s = .ok (template, t)) : Grows y s t ∧ TemplateOf y t c template := by
  obtain ⟨ps, items, own, each, rfl⟩ := classTemplate_made h
  obtain ⟨steps, holds⟩ := runs_grow (P := ItemOf y) (Grows.refl y) (fun _ _ _ => Grows.trans)
    (fun _ _ _ _ grows i => i.mono grows) each fun _ _ _ _ _ run => item_step run
  exact ⟨steps, ps, own, holds⟩

theorem rootRules_grows {cs : List Class} {rules : List RootRule}
    (h : RulesMade y cs rules s t) : Grows y s t := by
  induction h with
  | nil => exact .refl y _
  | cons _ made _ ih => exact (templateOf_grows made).trans ih

/-- The templates of a stylesheet belong to the classes that are described. -/
theorem templates_step {templates : List Template}
    (h : Runs y.classTemplate y.model.describedClasses templates s t) :
    Grows y s t ∧ List.Forall₂ (TemplateOf y t) y.model.describedClasses templates :=
  runs_grow (P := TemplateOf y) (Grows.refl y) (fun _ _ _ => Grows.trans)
    (fun _ _ _ _ grows i => i.mono grows) h fun _ _ _ _ _ run => classTemplate_step run

end RdfXmlMapping.Lowering
