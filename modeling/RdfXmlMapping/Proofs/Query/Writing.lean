import RdfXmlMapping.Proofs.Query.Matching
import RdfXmlMapping.Proofs.Steps
import RdfXmlMapping.Query.Generate

/-!
What the single steps of the generation of a query write. None of them fails. `classPatterns_ok` and
`propertyPatterns_ok` tell of which steps a description that succeeds consists.
-/

namespace RdfXmlMapping

/-- An IRI as it is written, by the prefix of its namespace if it has a local name and in full
otherwise, and the table after that. -/
def PrefixTable.write (t : PrefixTable) (iri : String) : String × PrefixTable :=
  ((t.qualify iri).1.getD ("<" ++ iri ++ ">"), (t.qualify iri).2)

namespace Query

/-- The triple that states the class of an instance. -/
def classTriple (subject : Nat) (predicate meaning : String) : Triple :=
  ⟨.var subject, .type predicate, .iri meaning⟩

/-- The triple of a property, from the one that has it to the value or the other way round. -/
def edge (p : Property) (name : String) (owner value : Nat) : Triple :=
  if p.isReverse then ⟨.var value, .iri name, .var owner⟩ else ⟨.var owner, .iri name, .var value⟩

theorem mem_vars_classTriple {n subject : Nat} {predicate meaning : String} :
    n ∈ (classTriple subject predicate meaning).vars ↔ n = subject := by
  simp [classTriple, Triple.vars, Term.vars]

theorem mem_vars_edge {n owner value : Nat} {p : Property} {name : String} :
    n ∈ (edge p name owner value).vars ↔ n = owner ∨ n = value := by
  unfold edge
  split <;> simp [Triple.vars, Term.vars, or_comm]

theorem edge_predicate (p : Property) (name : String) (owner value : Nat) :
    (edge p name owner value).predicate = .iri name := by
  unfold edge
  split <;> rfl

variable {s : Progress} {c : Class}

theorem newVariable_eq :
    newVariable s = .ok (s.variableCount, { s with variableCount := s.variableCount + 1 }) := rfl

theorem shorten_eq (iri : String) :
    shorten iri s =
      .ok ((s.prefixes.write iri).1, { s with prefixes := (s.prefixes.write iri).2 }) := by
  unfold shorten PrefixTable.write
  rcases s.prefixes.qualify iri with ⟨_ | name, prefixes⟩ <;> rfl

theorem typePatterns_none (subject : Nat) (isOptional : Bool) (none : c.meaning = none) :
    typePatterns subject isOptional c s = .ok ([], s) := by
  unfold typePatterns
  rw [none]
  rfl

theorem typePatterns_some (subject : Nat) (isOptional : Bool) {meaning : String}
    (some : c.meaning = some meaning) :
    let (a, prefixes) := s.prefixes.write Vocabulary.rdfType
    let (b, prefixes) := prefixes.write meaning
    let t := classTriple subject a b
    typePatterns subject isOptional c s =
      .ok ([if isOptional then .optional [.triple t] else .triple t],
        { s with prefixes, template := s.template ++ [t] }) := by
  unfold typePatterns
  rw [some]
  dsimp only
  rw [bind_of_ok (shorten_eq _), bind_of_ok (shorten_eq _)]
  rfl

theorem propertyTriple_eq (subject : Nat) (p : Property) :
    let (name, prefixes) := s.prefixes.write p.predicate
    let t := edge p name subject s.variableCount
    propertyTriple subject p s = .ok ((s.variableCount, .triple t),
      { prefixes, variableCount := s.variableCount + 1, template := s.template ++ [t] }) := by
  unfold propertyTriple edge
  dsimp only
  rw [bind_of_ok newVariable_eq, bind_of_ok (shorten_eq _)]
  dsimp only
  split <;> rfl

theorem newVariable_succeeds : ∃ r, newVariable s = .ok r := ⟨_, newVariable_eq⟩

theorem typePatterns_succeeds (subject : Nat) (isOptional : Bool) (c : Class) (s : Progress) :
    ∃ r, typePatterns subject isOptional c s = .ok r := by
  cases read : c.meaning with
  | none => exact ⟨_, typePatterns_none subject isOptional read⟩
  | some meaning => exact ⟨_, typePatterns_some subject isOptional read⟩

theorem propertyTriple_succeeds (subject : Nat) (p : Property) (s : Progress) :
    ∃ r, propertyTriple subject p s = .ok r := ⟨_, propertyTriple_eq subject p⟩

/-! ### The steps of a description -/

/-- What describes the values of a property of an instance. `path` ends with the class of the
instance. -/
def valuePatterns (m : Model) (path : List String) (value : Nat) : Shape → Build (List Pattern)
  | .primitive _ => return []
  | .single target => classPatterns m path value true target
  | .choice plan => do
    let branches ← plan.candidates.mapM (classPatterns m path value (plan.candidates.length = 1))
    return [.union branches]

/-- What describes a property of an instance. -/
def propertyPatterns (m : Model) (path : List String) (subject : Nat) (p : Property) :
    Build (List Pattern) := do
  let shape ← m.shapeOf p
  refuseReversePrimitive p shape
  let (value, edge) ← propertyTriple subject p
  let described ← valuePatterns m path value shape
  return if p.isOptional then [.optional (edge :: described)] else edge :: described

variable {m : Model} {path : List String} {subject value : Nat} {isOptional : Bool}
  {ps : List Pattern} {u : Progress}

theorem classPatterns_eq (way : m.canEnter path c.iri) :
    classPatterns m path subject isOptional c = do
      let type ← typePatterns subject isOptional c
      let properties ←
        (← m.effectiveProperties c).mapM (propertyPatterns m (c.iri :: path) subject)
      return type ++ properties.flatten := by
  rw [classPatterns, dif_pos way]
  refine bind_congr fun type => lift_bind_congr fun properties _ => ?_
  refine congrArg (· >>= _) (mapM_congr fun p _ => ?_)
  unfold propertyPatterns
  refine bind_congr fun shape => bind_congr fun _ => bind_congr fun edge => ?_
  cases shape with
  | primitive _ => rfl
  | single _ => rfl
  | choice _ => exact (bind_assoc _ _ _).symm

theorem classPatterns_ok (h : classPatterns m path subject isOptional c s = .ok (ps, u)) :
    m.canEnter path c.iri ∧ ∃ type t properties out,
      typePatterns subject isOptional c s = .ok (type, t) ∧
      m.effectiveProperties c = .ok properties ∧
      Runs (propertyPatterns m (c.iri :: path) subject) properties out t u ∧
      ps = type ++ out.flatten := by
  by_cases way : m.canEnter path c.iri
  · rw [classPatterns_eq way] at h
    obtain ⟨type, t, typed, h⟩ := bind_ok h
    obtain ⟨properties, _, inherited, h⟩ := bind_ok h
    obtain ⟨inherited, rfl⟩ := lift_ok inherited
    obtain ⟨out, _, described, h⟩ := bind_ok h
    cases pure_ok h
    exact ⟨way, type, t, properties, out, typed, inherited, mapM_ok described, rfl⟩
  · rw [classPatterns, dif_neg way] at h
    exact (throw_ok h).elim

theorem propertyPatterns_ok {p : Property} (h : propertyPatterns m path subject p s = .ok (ps, u)) :
    ∃ shape value edge t content, m.shapeOf p = .ok shape ∧
      refuseReversePrimitive p shape = .ok () ∧
      propertyTriple subject p s = .ok ((value, edge), t) ∧
      valuePatterns m path value shape t = .ok (content, u) ∧
      ps = if p.isOptional then [.optional (edge :: content)] else edge :: content := by
  obtain ⟨shape, _, shaped, h⟩ := bind_ok h
  obtain ⟨shaped, rfl⟩ := lift_ok shaped
  obtain ⟨_, _, allowed, h⟩ := bind_ok h
  obtain ⟨allowed, rfl⟩ := lift_ok allowed
  obtain ⟨⟨value, edge⟩, t, led, h⟩ := bind_ok h
  obtain ⟨content, _, described, h⟩ := bind_ok h
  cases pure_ok h
  exact ⟨shape, value, edge, t, content, shaped, allowed, led, described, rfl⟩

theorem valuePatterns_choice_ok {plan : ChoicePlan}
    (h : valuePatterns m path value (.choice plan) s = .ok (ps, u)) : ∃ branches,
    Runs (classPatterns m path value (plan.candidates.length = 1)) plan.candidates branches s u ∧
      ps = [.union branches] := by
  obtain ⟨branches, _, followed, h⟩ := bind_ok h
  cases pure_ok h
  exact ⟨branches, mapM_ok followed, rfl⟩

theorem find?_of_lookUp {iri referrer : String} (h : m.lookUp iri referrer = .ok c) :
    m.find? iri = some c := by
  unfold Model.lookUp at h
  split at h
  next found => rw [found, Except.ok.inj h]
  next => cases h

theorem rootPatterns_ok {group : List String} (h : rootPatterns m group s = .ok (ps, u)) :
    ∃ candidates, List.Forall₂ (fun iri c => m.find? iri = some c) group candidates ∧
      let t := { s with variableCount := s.variableCount + 1 }
      ((∃ c, candidates = [c] ∧ classPatterns m [] s.variableCount false c t = .ok (ps, u)) ∨
        (candidates.length ≠ 1 ∧ ∃ branches,
          Runs (classPatterns m [] s.variableCount (1 < candidates.length))
            candidates branches t u ∧
          ps = [.union branches])) := by
  unfold rootPatterns at h
  rw [bind_of_ok newVariable_eq] at h
  obtain ⟨candidates, _, looked, h⟩ := bind_ok h
  obtain ⟨each, rfl⟩ := runs_lift (mapM_ok looked)
  refine ⟨candidates, each.imp fun iri c read => find?_of_lookUp read, ?_⟩
  split at h
  next c => exact .inl ⟨c, rfl, h⟩
  next several =>
    obtain ⟨branches, _, followed, h⟩ := bind_ok h
    cases pure_ok h
    refine .inr ⟨fun one => ?_, branches, mapM_ok followed, rfl⟩
    obtain ⟨c, only⟩ := List.length_eq_one_iff.mp one
    exact several c only

end Query

end RdfXmlMapping
