import Mathlib.Data.List.Induction
import RdfXmlMapping.Proofs.Model.Reach

/-!
What the values of a property look like, told from the model alone: which datum or candidate is
refused and why, and which shape the data add up to if none is (`shapeOf_iff`).
-/

namespace RdfXmlMapping

/-- What is recorded for a candidate that has a parent: the parent, which is a candidate too. -/
structure Derivation.Records (candidates : List Class) (c : Class) (d : Derivation) : Prop where
  cls : d.cls = c
  parent : d.parent ∈ candidates
  named : c.parents = [d.parent.iri]

/-- What the candidates of a choice rest on. Exactly one of them has no parent, and all others are
listed, each once and with its parent among the candidates, or a type is made up. -/
inductive ChoicePlan.Based (plan : ChoicePlan) : Prop
  | rooted (root : Class) : plan.candidates.filter (·.parents.isEmpty) = [root] →
      plan.base = .rooted root plan.derived →
      List.Forall₂ (Derivation.Records plan.candidates) (plan.candidates.erase root) plan.derived →
      Based plan
  | placeholder : (plan.candidates.filter (·.parents.isEmpty)).length ≠ 1 →
      plan.base = .placeholder (String.join (plan.candidates.map (·.label))) →
      plan.derived = [] → Based plan

namespace Model

/-- The plain value that a datum stands for, if it is one. -/
def plainValue? (m : Model) : DataType → Option Primitive
  | .primitive iri => some (.datatype iri)
  | .association target => ((m.find? target).filter (·.isCodelist)).map .codelist

/-- The class whose instances a datum asks for, if they are described. -/
def namedClass? (m : Model) : DataType → Option Class
  | .primitive _ => none
  | .association target => (m.find? target).filter (!·.isCodelist)

/-- The classes whose instances are values of a property, in the order in which they come first. -/
def namedClasses (m : Model) (p : Property) : List Class :=
  (p.types.filterMap m.namedClass?).eraseDups

/-- A datum refers to no class of the model. -/
def Dangles (m : Model) (t : DataType) : Prop :=
  ∃ target, t = .association target ∧ m.find? target = none

/-- Why a candidate is refused: it has several parents, or one that is no class of the model or no
candidate. -/
inductive Refuses (m : Model) (p : Property) (candidates : List Class) (c : Class) :
    GenerationError → Prop
  | several : 2 ≤ c.parents.length → Refuses m p candidates c (.multipleInheritance c.iri)
  | unknown {parent : String} : c.parents = [parent] → m.find? parent = none →
      Refuses m p candidates c (.unknownClass parent c.iri)
  | outside {parent : Class} : c.parents = [parent.iri] → m.Knows parent → parent ∉ candidates →
      Refuses m p candidates c (.parentOutsideChoice p.iri c.iri parent.iri)

/-- What becomes of the data of a property. -/
inductive Resolves (m : Model) (p : Property) : Generated Shape → Prop
  | empty : p.types = [] → Resolves m p (.error (.emptyDataTypes p.iri))
  | dangling {before after : List DataType} {target : String} :
      p.types = before ++ .association target :: after → (∀ t ∈ before, ¬ m.Dangles t) →
      m.find? target = none → Resolves m p (.error (.unknownClass target p.iri))
  | mixed : (∀ t ∈ p.types, ¬ m.Dangles t) → (∃ t ∈ p.types, ∃ v, m.plainValue? t = some v) →
      (∃ t ∈ p.types, ∃ c, m.namedClass? t = some c) →
      Resolves m p (.error (.heterogeneousDataTypes p.iri))
  | plain {vs : List Primitive} : p.types ≠ [] →
      List.Forall₂ (fun t v => m.plainValue? t = some v) p.types vs →
      Resolves m p (.ok (.primitive vs))
  | single {c : Class} : (∀ t ∈ p.types, ∃ c, m.namedClass? t = some c) → m.namedClasses p = [c] →
      Resolves m p (.ok (.single c))
  | refused {before after : List Class} {c : Class} {e : GenerationError} :
      (∀ t ∈ p.types, ∃ c, m.namedClass? t = some c) → 2 ≤ (m.namedClasses p).length →
      m.namedClasses p = before ++ c :: after →
      (∀ b ∈ before, ∀ e, ¬ m.Refuses p (m.namedClasses p) b e) →
      m.Refuses p (m.namedClasses p) c e → Resolves m p (.error e)
  | choice {plan : ChoicePlan} : (∀ t ∈ p.types, ∃ c, m.namedClass? t = some c) →
      plan.candidates = m.namedClasses p → 2 ≤ plan.candidates.length →
      (∀ c ∈ plan.candidates, ∀ e, ¬ m.Refuses p plan.candidates c e) → plan.Based →
      Resolves m p (.ok (.choice plan))

variable {m : Model} {p : Property} {c d : Class} {t : DataType} {cs : List Class}
  {r : Generated Shape}

/-! ### Data -/

theorem namedClass?_knows (h : m.namedClass? t = some c) : m.Knows c := by
  cases t with
  | primitive _ => cases h
  | association target => exact (find?_knows (Option.filter_eq_some_iff.mp h).1).1

/-- A datum refers to nothing, or it stands for a plain value or a class, and not for both. -/
theorem datum_cases (m : Model) (t : DataType) : m.Dangles t ∨
    (∃ v, m.plainValue? t = some v ∧ m.namedClass? t = none) ∨
    ∃ c, m.namedClass? t = some c ∧ m.plainValue? t = none := by
  cases t with
  | primitive iri => exact .inr (.inl ⟨.datatype iri, rfl, rfl⟩)
  | association target =>
    cases found : m.find? target with
    | none => exact .inl ⟨target, rfl, found⟩
    | some c =>
      cases listed : c.isCodelist with
      | true => exact .inr (.inl ⟨.codelist c, by simp [plainValue?, namedClass?, found, listed]⟩)
      | false => exact .inr (.inr ⟨c, by simp [plainValue?, namedClass?, found, listed]⟩)

theorem candidate_plain {v : Primitive} (h : m.plainValue? t = some v) :
    m.candidate p t = .ok (.plain v) := by
  cases t with
  | primitive iri =>
    obtain rfl := Option.some.inj h
    rfl
  | association target =>
    obtain ⟨c, kept, rfl⟩ := Option.map_eq_some_iff.mp h
    obtain ⟨found, listed⟩ := Option.filter_eq_some_iff.mp kept
    simp [candidate, lookUp, found, listed]

theorem candidate_named (h : m.namedClass? t = some c) :
    m.candidate p t = .ok (.described c) := by
  cases t with
  | primitive _ => cases h
  | association target =>
    obtain ⟨found, plain⟩ := Option.filter_eq_some_iff.mp h
    exact candidate_described.mpr ⟨target, rfl, found, by simpa using plain⟩

theorem candidate_dangling {target : String} (h : m.find? target = none) :
    m.candidate p (.association target) = .error (.unknownClass target p.iri) := by
  simp [candidate, lookUp, h]

/-- Data that refer to something stand for plain values and for classes. -/
theorem candidates_resolved {ts : List DataType} (resolved : ∀ t ∈ ts, ¬ m.Dangles t) :
    ∃ candidates, ts.mapM (m.candidate p) = .ok candidates ∧
      candidates.filterMap (·.plain?) = ts.filterMap m.plainValue? ∧
      candidates.filterMap (·.described?) = ts.filterMap m.namedClass? := by
  induction ts with
  | nil => exact ⟨[], rfl, rfl, rfl⟩
  | cons t ts ih =>
    obtain ⟨here, rest⟩ := List.forall_mem_cons.mp resolved
    obtain ⟨candidates, run, plain, described⟩ := ih rest
    rcases m.datum_cases t with dangles | ⟨v, value, other⟩ | ⟨c, named, other⟩
    · exact absurd dangles here
    · refine ⟨.plain v :: candidates, ?_, ?_, ?_⟩
      · rw [List.mapM_cons, candidate_plain value, run]
        rfl
      · rw [List.filterMap_cons_some value, ← plain]
        rfl
      · rw [List.filterMap_cons_none rfl, List.filterMap_cons_none other, described]
    · refine ⟨.described c :: candidates, ?_, ?_, ?_⟩
      · rw [List.mapM_cons, candidate_named named, run]
        rfl
      · rw [List.filterMap_cons_none rfl, List.filterMap_cons_none other, plain]
      · rw [List.filterMap_cons_some named, ← described]
        rfl

/-! ### Candidates that come first -/

/-- Classes of the model that differ have different identities. -/
theorem distinctClasses_eq (known : ∀ c ∈ cs, m.Knows c) : distinctClasses cs = cs.eraseDups := by
  induction cs using List.reverseRecOn with
  | nil => rfl
  | append_singleton seen c ih =>
    have before := ih fun d member => known d (List.mem_append_left _ member)
    have last := known c (by simp)
    rw [distinctClasses, List.foldl_append, ← distinctClasses, before, List.foldl_cons,
      List.foldl_nil]
    by_cases old : c ∈ seen
    · rw [eraseDups_seen old, if_pos]
      exact List.any_eq_true.mpr ⟨c, List.mem_eraseDups.mpr old, beq_self_eq_true _⟩
    · rw [eraseDups_new old, if_neg]
      intro kept
      obtain ⟨d, member, same⟩ := List.any_eq_true.mp kept
      have present := List.mem_eraseDups.mp member
      obtain rfl := knows_eq (known d (by simp [present])) last (beq_iff_eq.mp same)
      exact old present

theorem namedClasses_knows : ∀ c ∈ m.namedClasses p, m.Knows c := by
  intro c member
  obtain ⟨t, _, named⟩ := List.mem_filterMap.mp (List.mem_eraseDups.mp member)
  exact namedClass?_knows named

theorem distinctClasses_named :
    distinctClasses (p.types.filterMap m.namedClass?) = m.namedClasses p := by
  refine distinctClasses_eq (m := m) fun c member => ?_
  obtain ⟨t, _, named⟩ := List.mem_filterMap.mp member
  exact namedClass?_knows named

/-- The shape of a property all of whose data refer to something. -/
theorem shapeOf_resolved (some : p.types ≠ []) (resolved : ∀ t ∈ p.types, ¬ m.Dangles t) :
    m.shapeOf p = match p.types.filterMap m.plainValue?, m.namedClasses p with
      | [], [c] => .ok (.single c)
      | [], classes => .choice <$> m.planChoice p classes
      | primitives, [] => .ok (.primitive primitives)
      | _, _ => .error (.heterogeneousDataTypes p.iri) := by
  obtain ⟨candidates, run, plain, described⟩ := candidates_resolved (p := p) resolved
  rw [← distinctClasses_named, ← plain, ← described, shapeOf]
  dsimp only
  rw [if_neg (by simpa using some), run]
  rfl

/-! ### Choices -/

theorem find?_candidate (known : ∀ c ∈ cs, m.Knows c) (member : d ∈ cs) :
    cs.find? (·.iri == d.iri) = some d := by
  cases found : cs.find? (·.iri == d.iri) with
  | none => exact absurd (beq_self_eq_true d.iri) (List.find?_eq_none.mp found d member)
  | some e =>
    have same := beq_iff_eq.mp (List.find?_some found :)
    rw [knows_eq (known e (List.mem_of_find?_eq_some found)) (known d member) same]

theorem parent?_of_named (known : m.Knows d) (one : c.parents = [d.iri]) :
    m.parent? c = .ok (some d) := by
  have found : m.find? d.iri = some d := known
  simp [parent?, one, lookUp, found]

theorem parentIn_refused (known : ∀ c ∈ cs, m.Knows c) {e : GenerationError}
    (h : m.Refuses p cs c e) : m.parentIn p cs c = .error e := by
  cases h with
  | several more =>
    match named : c.parents, more with
    | _ :: _ :: _, _ =>
      rw [parentIn, parent?, named]
      rfl
  | unknown one missing =>
    rw [parentIn, parent?, one]
    simp only [lookUp, missing]
    rfl
  | @outside parent one found apart =>
    have outside : cs.find? (·.iri == parent.iri) = none := by
      refine List.find?_eq_none.mpr fun d member same => apart ?_
      exact knows_eq (known d member) found (beq_iff_eq.mp same) ▸ member
    rw [parentIn, parent?_of_named found one]
    simp [bind, Except.bind, outside, throw, throwThe, MonadExceptOf.throw]

theorem parentIn_top (none : c.parents = []) : m.parentIn p cs c = .ok (c, Option.none) := by
  rw [parentIn, parent?, none]
  rfl

theorem parentIn_derived (known : ∀ c ∈ cs, m.Knows c) (member : d ∈ cs)
    (one : c.parents = [d.iri]) : m.parentIn p cs c = .ok (c, some d) := by
  rw [parentIn, parent?_of_named (known d member) one]
  simp [bind, Except.bind, pure, Except.pure, find?_candidate known member]

theorem parents_cases (m : Model) (p : Property) (cs : List Class) (c : Class) :
    (∃ e, m.Refuses p cs c e) ∨ c.parents = [] ∨ ∃ d ∈ cs, c.parents = [d.iri] := by
  match named : c.parents with
  | [] => exact .inr (.inl rfl)
  | _ :: _ :: _ => exact .inl ⟨_, .several (by simp [named])⟩
  | [parent] =>
    cases found : m.find? parent with
    | none => exact .inl ⟨_, .unknown named found⟩
    | some d =>
      obtain ⟨known, rfl⟩ := find?_knows found
      by_cases member : d ∈ cs
      · exact .inr (.inr ⟨d, member, rfl⟩)
      · exact .inl ⟨_, .outside named known member⟩

/-- What is read of some candidates none of which is refused. -/
theorem parents_read (known : ∀ c ∈ cs, m.Knows c) {part : List Class}
    (sound : ∀ c ∈ part, ∀ e, ¬ m.Refuses p cs c e) : ∃ read,
      part.mapM (m.parentIn p cs) = .ok read ∧
      (read.filter (·.2.isNone)).map (·.1) = part.filter (·.parents.isEmpty) ∧
      List.Forall₂ (Derivation.Records cs) (part.filter (!·.parents.isEmpty))
        (read.filterMap fun (c, parent) => parent.map (Derivation.mk c)) := by
  induction part with
  | nil => exact ⟨[], rfl, rfl, .nil⟩
  | cons c rest ih =>
    obtain ⟨here, others⟩ := List.forall_mem_cons.mp sound
    obtain ⟨read, run, tops, derived⟩ := ih others
    rcases m.parents_cases p cs c with ⟨e, refused⟩ | none | ⟨d, member, one⟩
    · exact absurd refused (here e)
    · refine ⟨(c, .none) :: read, ?_, ?_, ?_⟩
      · rw [List.mapM_cons, parentIn_top none, run]
        rfl
      · simp [none, tops]
      · simpa [none] using derived
    · refine ⟨(c, .some d) :: read, ?_, ?_, ?_⟩
      · rw [List.mapM_cons, parentIn_derived known member one, run]
        rfl
      · simp [one, tops]
      · simpa [one] using ⟨⟨rfl, member, one⟩, derived⟩

theorem filter_derived {root : Class} (distinct : cs.Nodup)
    (alone : cs.filter (·.parents.isEmpty) = [root]) :
    cs.filter (!·.parents.isEmpty) = cs.erase root := by
  rw [distinct.erase_eq_filter]
  refine List.filter_congr fun c member => ?_
  have tops : c.parents.isEmpty = true ↔ c = root := by
    rw [← List.mem_singleton (a := c), ← alone, List.mem_filter, and_iff_right member]
  rw [Bool.eq_iff_iff, Bool.not_eq_true', bne_iff_ne, Ne, ← tops, Bool.not_eq_true]

theorem planChoice_based (known : ∀ c ∈ cs, m.Knows c) (distinct : cs.Nodup)
    (sound : ∀ c ∈ cs, ∀ e, ¬ m.Refuses p cs c e) :
    ∃ plan, m.planChoice p cs = .ok plan ∧ plan.candidates = cs ∧ plan.Based := by
  obtain ⟨read, run, tops, derived⟩ := parents_read known sound
  rw [planChoice, run]
  simp only [bind, Except.bind]
  split
  next root parent alone =>
    have top : cs.filter (·.parents.isEmpty) = [root] := by rw [← tops, alone]; rfl
    exact ⟨_, rfl, rfl, .rooted root top rfl (filter_derived distinct top ▸ derived)⟩
  next several =>
    refine ⟨_, rfl, rfl, .placeholder (fun one => ?_) rfl rfl⟩
    rw [← tops, List.length_map] at one
    obtain ⟨⟨root, parent⟩, alone⟩ := List.length_eq_one_iff.mp one
    exact several root parent alone

theorem planChoice_refused (known : ∀ c ∈ cs, m.Knows c) {before after : List Class}
    {e : GenerationError} (split : cs = before ++ c :: after)
    (first : ∀ b ∈ before, ∀ e, ¬ m.Refuses p cs b e) (h : m.Refuses p cs c e) :
    m.planChoice p cs = .error e := by
  obtain ⟨read, run, _⟩ := parents_read known first
  have failed := except_mapM_fails run (parentIn_refused known h) after
  rw [planChoice, ← split] at *
  rw [failed]
  rfl

theorem records_unique (known : ∀ c ∈ cs, m.Knows c) {d e : Derivation}
    (left : d.Records cs c) (right : e.Records cs c) : d = e := by
  have named : d.parent.iri = e.parent.iri := by simpa [left.named] using right.named
  have parent := knows_eq (known _ left.parent) (known _ right.parent) named
  cases d
  cases e
  exact congr (congrArg Derivation.mk (left.cls.trans right.cls.symm)) parent

/-- Two plans that rest on the same candidates are the same. -/
theorem based_unique {left right : ChoicePlan} (known : ∀ c ∈ left.candidates, m.Knows c)
    (same : left.candidates = right.candidates) (hl : left.Based) (hr : right.Based) :
    left = right := by
  have base : left.base = right.base := by
    cases hl with
    | rooted root alone base derived =>
      cases hr with
      | rooted root' alone' base' derived' =>
        rw [← same] at alone' derived'
        obtain rfl := List.singleton_inj.mp (alone.symm.trans alone')
        have unique : Relator.RightUnique (Derivation.Records left.candidates) :=
          fun _ _ _ => records_unique known
        rw [base, base', unique.forall₂ derived derived']
      | placeholder several => exact absurd (by rw [← same, alone]; rfl) several
    | placeholder several base =>
      cases hr with
      | rooted root' alone' => exact absurd (by rw [same, alone']; rfl) several
      | placeholder _ base' => rw [base, base', same]
  cases left
  cases right
  exact congr (congrArg ChoicePlan.mk same) base

/-! ### All data -/

theorem named_resolved (named : ∀ t ∈ p.types, ∃ c, m.namedClass? t = some c) :
    ∀ t ∈ p.types, ¬ m.Dangles t := by
  rintro _ member ⟨target, rfl, missing⟩
  obtain ⟨c, found⟩ := named _ member
  rw [namedClass?, missing] at found
  cases found

theorem named_class (asked : t ∈ p.types) (found : m.namedClass? t = some c) :
    c ∈ m.namedClasses p :=
  List.mem_eraseDups.mpr (List.mem_filterMap.mpr ⟨t, asked, found⟩)

/-- A property asks for nothing but instances of classes. -/
theorem plainValues_nil (named : ∀ t ∈ p.types, ∃ c, m.namedClass? t = some c) :
    p.types.filterMap m.plainValue? = [] := by
  refine List.filterMap_eq_nil_iff.mpr fun t member => ?_
  obtain ⟨c, found⟩ := named t member
  rcases m.datum_cases t with dangles | ⟨_, _, other⟩ | ⟨_, _, other⟩
  · exact absurd dangles (named_resolved named t member)
  · rw [found] at other
    cases other
  · exact other

theorem types_some (several : m.namedClasses p ≠ []) : p.types ≠ [] := by
  intro none
  exact several (by rw [namedClasses, none]; rfl)

theorem shapeOf_several (named : ∀ t ∈ p.types, ∃ c, m.namedClass? t = some c)
    (several : 2 ≤ (m.namedClasses p).length) :
    m.shapeOf p = .choice <$> m.planChoice p (m.namedClasses p) := by
  have some : m.namedClasses p ≠ [] := fun none => by simp [none] at several
  rw [shapeOf_resolved (types_some some) (named_resolved named), plainValues_nil named]
  match split : m.namedClasses p, several with
  | _ :: _ :: _, _ => rfl

theorem filterMap_plainValue? {vs : List Primitive} {ts : List DataType}
    (each : List.Forall₂ (fun t v => m.plainValue? t = some v) ts vs) :
    ts.filterMap m.plainValue? = vs := by
  induction each with
  | nil => rfl
  | cons first _ ih => rw [List.filterMap_cons_some first, ih]

theorem forall₂_plainValue? {ts : List DataType}
    (each : ∀ t ∈ ts, ∃ v, m.plainValue? t = some v) :
    List.Forall₂ (fun t v => m.plainValue? t = some v) ts (ts.filterMap m.plainValue?) := by
  induction ts with
  | nil => exact .nil
  | cons t ts ih =>
    obtain ⟨⟨v, first⟩, rest⟩ := List.forall_mem_cons.mp each
    rw [List.filterMap_cons_some first]
    exact .cons first (ih rest)

theorem plain_exclusive {v : Primitive} (value : m.plainValue? t = some v) :
    ¬ m.Dangles t ∧ m.namedClass? t = none := by
  rcases m.datum_cases t with ⟨target, rfl, missing⟩ | ⟨_, _, other⟩ | ⟨_, _, other⟩
  · simp [plainValue?, missing] at value
  · refine ⟨?_, other⟩
    rintro ⟨target, rfl, missing⟩
    simp [plainValue?, missing] at value
  · rw [value] at other
    cases other

theorem Resolves.shapeOf_eq (h : m.Resolves p r) : m.shapeOf p = r := by
  cases h with
  | empty none =>
    rw [shapeOf, none]
    rfl
  | @dangling before after target whole first missing =>
    obtain ⟨candidates, run, _⟩ := candidates_resolved (p := p) first
    have failed := except_mapM_fails run (candidate_dangling (p := p) missing) after
    rw [← whole] at failed
    rw [shapeOf, if_neg (by simp [whole]), failed]
    rfl
  | mixed resolved value named =>
    obtain ⟨t, asked, v, value⟩ := value
    obtain ⟨u, asked', c, named⟩ := named
    rw [shapeOf_resolved (List.ne_nil_of_mem asked) resolved]
    have values : v ∈ p.types.filterMap m.plainValue? := List.mem_filterMap.mpr ⟨t, asked, value⟩
    have classes := named_class asked' named
    obtain ⟨_, _, plain⟩ := List.exists_cons_of_ne_nil (List.ne_nil_of_mem values)
    obtain ⟨_, _, described⟩ := List.exists_cons_of_ne_nil (List.ne_nil_of_mem classes)
    rw [plain, described]
  | @plain vs some each =>
    have exclusive : ∀ t ∈ p.types, ¬ m.Dangles t ∧ m.namedClass? t = none := by
      intro t member
      obtain ⟨v, _, value⟩ := forall₂_mem_left each member
      exact plain_exclusive value
    have none : m.namedClasses p = [] := by
      rw [namedClasses, List.filterMap_eq_nil_iff.mpr fun t member => (exclusive t member).2]
      rfl
    rw [shapeOf_resolved some fun t member => (exclusive t member).1, filterMap_plainValue? each,
      none]
    cases vs with
    | nil => exact absurd (List.forall₂_nil_right_iff.mp each) some
    | cons => rfl
  | @single c named one =>
    have some : m.namedClasses p ≠ [] := by simp [one]
    rw [shapeOf_resolved (types_some some) (named_resolved named), plainValues_nil named, one]
  | refused named several split first refused =>
    rw [shapeOf_several named several,
      planChoice_refused namedClasses_knows split first refused]
    rfl
  | @choice plan named same several sound based =>
    rw [same] at several sound
    obtain ⟨plan', made, same', based'⟩ :=
      planChoice_based namedClasses_knows (eraseDups_nodup _) sound
    have known : ∀ c ∈ plan'.candidates, m.Knows c := by
      rw [same']
      exact namedClasses_knows
    rw [shapeOf_several named several, made,
      based_unique known (same'.trans same.symm) based' based]
    rfl

/-- If all data ask for instances of classes, there is one class, or the first candidate that cannot
stand in a choice is refused, or there is a choice. -/
theorem resolves_named (filled : p.types ≠ [])
    (named : ∀ t ∈ p.types, ∃ c, m.namedClass? t = some c) : ∃ r, m.Resolves p r := by
  match classes : m.namedClasses p with
  | [] =>
    obtain ⟨t, member⟩ := List.exists_mem_of_ne_nil _ filled
    obtain ⟨c, found⟩ := named t member
    have among := named_class member found
    rw [classes] at among
    cases among
  | [c] => exact ⟨_, .single named classes⟩
  | first :: second :: rest =>
    have several : 2 ≤ (m.namedClasses p).length := by simp [classes]
    by_cases refused : ∃ c ∈ m.namedClasses p, ∃ e, m.Refuses p (m.namedClasses p) c e
    · obtain ⟨before, c, after, split, sound, e, refuses⟩ := exists_first refused
      exact ⟨_, .refused named several split (fun b member e h => sound b member ⟨e, h⟩) refuses⟩
    · have sound : ∀ c ∈ m.namedClasses p, ∀ e, ¬ m.Refuses p (m.namedClasses p) c e :=
        fun c member e h => refused ⟨c, member, e, h⟩
      obtain ⟨plan, _, same, based⟩ := planChoice_based namedClasses_knows (eraseDups_nodup _) sound
      exact ⟨_, .choice named same (same ▸ several) (same ▸ sound) based⟩

/-- A datum asks for no class: if another one does, they are mixed, else all are plain. -/
theorem resolves_unnamed (resolved : ∀ t ∈ p.types, ¬ m.Dangles t) (asked : t ∈ p.types)
    (unnamed : ¬ ∃ c, m.namedClass? t = some c) : ∃ r, m.Resolves p r := by
  have plain : ∀ u ∈ p.types, (¬ ∃ c, m.namedClass? u = some c) →
      ∃ v, m.plainValue? u = some v := by
    intro u member other
    rcases m.datum_cases u with dangles | ⟨v, value, _⟩ | ⟨c, found, _⟩
    · exact absurd dangles (resolved u member)
    · exact ⟨v, value⟩
    · exact absurd ⟨c, found⟩ other
  by_cases mixed : ∃ u ∈ p.types, ∃ c, m.namedClass? u = some c
  · exact ⟨_, .mixed resolved ⟨t, asked, plain t asked unnamed⟩ mixed⟩
  · exact ⟨_, .plain (List.ne_nil_of_mem asked) (forall₂_plainValue? fun u member =>
      plain u member fun named => mixed ⟨u, member, named⟩)⟩

/-- Something becomes of all data: the first that refers to nothing is refused, then a mixture, then
the first candidate that cannot stand in a choice. -/
theorem resolves_exists (m : Model) (p : Property) : ∃ r, m.Resolves p r := by
  by_cases none : p.types = []
  · exact ⟨_, .empty none⟩
  by_cases dangles : ∃ t ∈ p.types, m.Dangles t
  · obtain ⟨before, _, after, whole, first, ⟨target, rfl, missing⟩⟩ := exists_first dangles
    exact ⟨_, .dangling whole first missing⟩
  have resolved : ∀ t ∈ p.types, ¬ m.Dangles t := fun t member h => dangles ⟨t, member, h⟩
  by_cases named : ∀ t ∈ p.types, ∃ c, m.namedClass? t = some c
  · exact resolves_named none named
  · obtain ⟨t, asked, unnamed⟩ : ∃ t ∈ p.types, ¬ ∃ c, m.namedClass? t = some c := by
      simpa using named
    exact resolves_unnamed resolved asked unnamed

/-- A choice is one between several classes. -/
theorem shapeOf_choice_several {plan : ChoicePlan} (h : m.shapeOf p = .ok (.choice plan)) :
    2 ≤ plan.candidates.length := by
  obtain ⟨r, resolves⟩ := m.resolves_exists p
  obtain rfl := h.symm.trans resolves.shapeOf_eq
  cases resolves with
  | choice _ _ several => exact several

/-- What is said of a property, be it an error or a shape, is what becomes of its data. -/
theorem shapeOf_iff (m : Model) (p : Property) (r : Generated Shape) :
    m.shapeOf p = r ↔ m.Resolves p r := by
  refine ⟨fun h => ?_, fun h => h.shapeOf_eq⟩
  obtain ⟨r', resolves⟩ := m.resolves_exists p
  exact h.symm.trans resolves.shapeOf_eq ▸ resolves

end Model

end RdfXmlMapping
