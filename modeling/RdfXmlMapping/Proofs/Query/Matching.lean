import RdfXmlMapping.Query.Basic

/-!
Ways of matching a condition: every optional group is taken or passed over, and of every union one
branch is taken. What a way leaves out is left out of the triples it matches.
-/

namespace RdfXmlMapping.Query

def Term.vars : Term → List Nat
  | var n => [n]
  | iri _ | type _ => []

def Triple.vars (t : Triple) : List Nat := t.subject.vars ++ t.predicate.vars ++ t.object.vars

def Triple.StatesClass (t : Triple) : Prop := ∃ text, t.predicate = .type text

def Mentions (ts : List Triple) (n : Nat) : Prop := ∃ t ∈ ts, n ∈ t.vars

/-- The triples that one way of matching the conditions matches. A union without branches is written
as nothing and asks for nothing. -/
inductive Matches : List Pattern → List Triple → Prop
  | nil : Matches [] []
  | triple {t : Triple} {ps : List Pattern} {ts : List Triple} :
      Matches ps ts → Matches (.triple t :: ps) (t :: ts)
  | taken {group ps : List Pattern} {us ts : List Triple} :
      Matches group us → Matches ps ts → Matches (.optional group :: ps) (us ++ ts)
  | passed {group ps : List Pattern} {ts : List Triple} :
      Matches ps ts → Matches (.optional group :: ps) ts
  | branch {branches : List (List Pattern)} {b ps : List Pattern} {us ts : List Triple} :
      b ∈ branches → Matches b us → Matches ps ts → Matches (.union branches :: ps) (us ++ ts)
  | noBranch {ps : List Pattern} {ts : List Triple} :
      Matches ps ts → Matches (.union [] :: ps) ts

/-- A condition offers a class to a resource without asking for it: the triple stands alone in an
optional group, or in a branch of a union beside a triple that leads to the resource. -/
inductive Offers (t : Triple) : List Pattern → Prop
  | alone {ps : List Pattern} : .optional [.triple t] ∈ ps → Offers t ps
  | candidate {edge : Triple} {n : Nat} {branches : List (List Pattern)} {b ps : List Pattern} :
      .triple edge ∈ ps → n ∈ edge.vars → t.subject = .var n →
      .union branches ∈ ps → b ∈ branches → .triple t ∈ b → Offers t ps
  | inOptional {group ps : List Pattern} : .optional group ∈ ps → Offers t group → Offers t ps
  | inBranch {branches : List (List Pattern)} {b ps : List Pattern} :
      .union branches ∈ ps → b ∈ branches → Offers t b → Offers t ps

theorem mentions_append {us ts : List Triple} {n : Nat} :
    Mentions (us ++ ts) n ↔ Mentions us n ∨ Mentions ts n := by
  simp only [Mentions, List.mem_append, or_and_right, exists_or]

theorem matches_append {ps qs : List Pattern} {ts : List Triple} (h : Matches (ps ++ qs) ts) :
    ∃ us vs, Matches ps us ∧ Matches qs vs ∧ ts = us ++ vs := by
  induction ps generalizing ts with
  | nil => exact ⟨[], ts, .nil, h, rfl⟩
  | cons p ps ih =>
    cases h with
    | triple rest =>
      obtain ⟨us, vs, left, right, rfl⟩ := ih rest
      exact ⟨_, vs, .triple left, right, rfl⟩
    | taken inner rest =>
      obtain ⟨us, vs, left, right, rfl⟩ := ih rest
      exact ⟨_, vs, .taken inner left, right, (List.append_assoc ..).symm⟩
    | passed rest =>
      obtain ⟨us, vs, left, right, rfl⟩ := ih rest
      exact ⟨us, vs, .passed left, right, rfl⟩
    | branch member inner rest =>
      obtain ⟨us, vs, left, right, rfl⟩ := ih rest
      exact ⟨_, vs, .branch member inner left, right, (List.append_assoc ..).symm⟩
    | noBranch rest =>
      obtain ⟨us, vs, left, right, rfl⟩ := ih rest
      exact ⟨us, vs, .noBranch left, right, rfl⟩

theorem matches_triple {ps : List Pattern} {ts : List Triple} {t : Triple} (h : Matches ps ts)
    (member : .triple t ∈ ps) : t ∈ ts := by
  induction h with
  | nil => cases member
  | triple _ ih =>
    rcases List.mem_cons.mp member with same | member
    · cases same
      exact List.mem_cons_self
    · exact List.mem_cons_of_mem _ (ih member)
  | taken _ _ _ ih | branch _ _ _ _ ih =>
    rcases List.mem_cons.mp member with same | member
    · cases same
    · exact List.mem_append_right _ (ih member)
  | passed _ ih | noBranch _ ih =>
    rcases List.mem_cons.mp member with same | member
    · cases same
    · exact ih member

theorem matches_optional {group : List Pattern} {ts : List Triple}
    (h : Matches [.optional group] ts) : ts = [] ∨ Matches group ts := by
  cases h with
  | taken inner rest => cases rest; exact .inr (by simpa using inner)
  | passed rest => cases rest; exact .inl rfl

theorem matches_union {branches : List (List Pattern)} {ts : List Triple}
    (h : Matches [.union branches] ts) : ts = [] ∨ ∃ b ∈ branches, Matches b ts := by
  cases h with
  | branch member inner rest => cases rest; exact .inr ⟨_, member, by simpa using inner⟩
  | noBranch rest => cases rest; exact .inl rfl

theorem offers_mono {t : Triple} {ps qs : List Pattern} (h : Offers t ps) (sub : ps ⊆ qs) :
    Offers t qs := by
  cases h with
  | alone member => exact .alone (sub member)
  | candidate edge mentioned subject union member stands =>
    exact .candidate (sub edge) mentioned subject (sub union) member stands
  | inOptional member inner => exact .inOptional (sub member) inner
  | inBranch union member inner => exact .inBranch (sub union) member inner

end RdfXmlMapping.Query
