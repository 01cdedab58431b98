import Mathlib.Logic.Relation
import RdfXmlMapping.Proofs.ClassNames

/-!
The walk over spliced properties. It ends without failure only if the properties of all classes can
be collected and no class is spliced into itself.
-/

namespace RdfXmlMapping.Model

variable {m : Model} {path done done' : List String} {c d : Class}

theorem canEnter_of_mem (member : c ∈ m.classes) (new : c.iri ∉ path) : m.canEnter path c.iri := by
  have present : m.classes.any (·.iri == c.iri) :=
    List.any_eq_true.mpr ⟨c, member, beq_self_eq_true _⟩
  simp [canEnter, present, new]

theorem canEnter_of_knows (known : m.Knows c) (new : c.iri ∉ path) : m.canEnter path c.iri :=
  canEnter_of_mem (knows_mem known) new

/-- What the walk does for one spliced property; `path` holds the class that declares it and those
into which that class is spliced. -/
def followSplice (m : Model) (path done : List String) (p : Property) :
    Generated (List String) := do
  let target ← m.spliceTarget p
  if path.contains target.iri then throw (.dematerializationCycle p.iri)
  m.followSplices path done target

theorem followSplices_eq : m.followSplices path done c =
    if done.contains c.iri then .ok done
    else if m.canEnter path c.iri then do
      let properties ← m.effectiveProperties c
      let done ← (properties.filter (·.isSpliced)).foldlM (m.followSplice (c.iri :: path)) done
      return c.iri :: done
    else .error (.unknownClass c.iri c.iri) := by
  rw [followSplices]
  rfl

/-- A class whose content is spliced into that of another. -/
def DirectlySpliced (m : Model) (d c : Class) : Prop :=
  ∃ ps, m.effectiveProperties c = .ok ps ∧ ∃ p ∈ ps, p.isSpliced ∧ m.spliceTarget p = .ok d

/-- A class whose properties can be collected, with all that is spliced into it, after finitely many
steps. -/
structure Spliceable (m : Model) (c : Class) : Prop where
  collects : ∃ ps, m.effectiveProperties c = .ok ps ∧
    ∀ p ∈ ps, p.isSpliced → ∃ d, m.spliceTarget p = .ok d
  ends : Acc m.DirectlySpliced c

theorem acc_irrefl {α : Type} {r : α → α → Prop} {a : α} (ends : Acc r a) :
    ¬ Relation.TransGen r a a := by
  replace ends := ends.transGen
  induction ends with
  | intro a _ ih => exact fun circle => ih a circle circle

theorem Spliceable.irrefl (safe : m.Spliceable c) :
    ¬ Relation.TransGen m.DirectlySpliced c c := acc_irrefl safe.ends

def AllSpliceable (m : Model) (done : List String) : Prop :=
  ∀ d, m.Knows d → d.iri ∈ done → m.Spliceable d

/-- What a walk over some spliced properties leaves behind. -/
theorem followSplice_fold {ps : List Property}
    (follow : ∀ done done' d, m.Knows d → m.AllSpliceable done →
      m.followSplices path done d = .ok done' →
        m.AllSpliceable done' ∧ m.Spliceable d)
    (before : m.AllSpliceable done) (h : ps.foldlM (m.followSplice path) done = .ok done') :
    m.AllSpliceable done' ∧ ∀ p ∈ ps, ∃ d, m.spliceTarget p = .ok d ∧ m.Spliceable d := by
  induction ps generalizing done with
  | nil =>
    obtain rfl := Except.ok.inj h
    exact ⟨before, fun p member => by cases member⟩
  | cons p ps ih =>
    rw [List.foldlM_cons] at h
    obtain ⟨next, first, h⟩ := except_bind_ok h
    obtain ⟨d, target, first⟩ := except_bind_ok first
    split at first
    · cases first
    · obtain ⟨after, safe⟩ := follow done next d (spliceTarget_ok target).1.1 before first
      obtain ⟨last, rest⟩ := ih after h
      refine ⟨last, fun q member => ?_⟩
      rcases List.mem_cons.mp member with rfl | member
      · exact ⟨d, target, safe⟩
      · exact rest q member

/-- The class that the walk starts with may be hidden by another one with its identity, if that has
been walked through already. -/
theorem followSplices_spliceable (path : List String) : ∀ done done' c,
    (∀ d, m.Knows d → d.iri = c.iri → d = c ∨ m.Spliceable d) → m.AllSpliceable done →
      m.followSplices path done c = .ok done' →
        m.AllSpliceable done' ∧ (m.Knows c → m.Spliceable c) := by
  induction path using walk_induction m with
  | step path ih =>
    intro done done' c first before h
    rw [followSplices_eq] at h
    split at h
    next old =>
      obtain rfl := Except.ok.inj h
      exact ⟨before, fun known => before c known (List.contains_iff_mem.mp old)⟩
    · split at h
      next way =>
        obtain ⟨ps, own, h⟩ := except_bind_ok h
        obtain ⟨inner, fold, h⟩ := except_bind_ok h
        obtain rfl := Except.ok.inj h
        have follow (done done' : List String) (d : Class) (known : m.Knows d)
            (before : m.AllSpliceable done)
            (h : m.followSplices (c.iri :: path) done d = .ok done') :
            m.AllSpliceable done' ∧ m.Spliceable d := by
          obtain ⟨after, safe⟩ := ih c.iri way done done' d
            (fun e found same => .inl (knows_eq found known same)) before h
          exact ⟨after, safe known⟩
        obtain ⟨after, targets⟩ := followSplice_fold follow before fold
        have each (p : Property) (member : p ∈ ps) (spliced : p.isSpliced) :=
          targets p (List.mem_filter.mpr ⟨member, spliced⟩)
        have safe : m.Spliceable c := by
          refine ⟨⟨ps, own, fun p member spliced => ?_⟩, Acc.intro c ?_⟩
          · obtain ⟨d, target, _⟩ := each p member spliced
            exact ⟨d, target⟩
          · rintro d ⟨qs, own', p, member, spliced, target⟩
            obtain rfl := Except.ok.inj (own.symm.trans own')
            obtain ⟨e, target', safe⟩ := each p member spliced
            obtain rfl := Except.ok.inj (target.symm.trans target')
            exact safe.ends
        refine ⟨fun d found among => ?_, fun _ => safe⟩
        rcases List.mem_cons.mp among with same | old
        · exact (first d found same).elim (fun same => same ▸ safe) id
        · exact after d found old
      next => cases h

theorem checkSplicing_spliceable (h : m.checkSplicing = .ok ()) (known : m.Knows c) :
    m.Spliceable c := by
  have walk : ∀ rest seen done done', m.classes = seen ++ rest → m.AllSpliceable done →
      (∀ d ∈ seen, m.Knows d → m.Spliceable d) →
      rest.foldlM (m.followSplices []) done = .ok done' →
        ∀ d ∈ seen ++ rest, m.Knows d → m.Spliceable d := by
    intro rest
    induction rest with
    | nil =>
      intro seen done done' _ _ safe _
      rwa [List.append_nil]
    | cons c rest ih =>
      intro seen done done' whole before safe h
      rw [List.foldlM_cons] at h
      obtain ⟨next, first, h⟩ := except_bind_ok h
      have hidden (d : Class) (found : m.Knows d) (same : d.iri = c.iri) :
          d = c ∨ m.Spliceable d := by
        have located : (seen ++ c :: rest).find? (·.iri == d.iri) = some d := whole ▸ found
        rw [List.find?_append] at located
        cases early : seen.find? (·.iri == d.iri) with
        | some e =>
          rw [early] at located
          obtain rfl := Option.some.inj located
          exact .inr (safe e (List.mem_of_find?_eq_some early) found)
        | none =>
          have new : ¬ ∃ e ∈ seen, e.iri = c.iri := fun ⟨e, member, other⟩ =>
            List.find?_eq_none.mp early e member (beq_iff_eq.mpr (other.trans same.symm))
          exact .inl (knows_eq found (ClassNames.knows_of_new whole new) same)
      obtain ⟨after, last⟩ := followSplices_spliceable [] done next c hidden before first
      have all := ih (seen ++ [c]) next done' (by simpa using whole) after ?_ h
      · simpa using all
      · intro d member found
        rcases List.mem_append.mp member with old | new
        · exact safe d old found
        · exact List.mem_singleton.mp new ▸ last (List.mem_singleton.mp new ▸ found)
  obtain ⟨done', fold, _⟩ := except_bind_ok h
  exact walk m.classes [] [] done' rfl (fun _ _ member => by cases member)
    (fun _ member => by cases member) fold c (knows_mem known) known

end RdfXmlMapping.Model
