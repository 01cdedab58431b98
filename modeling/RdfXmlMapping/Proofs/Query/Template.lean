import RdfXmlMapping.Proofs.Query.Facts
import RdfXmlMapping.Proofs.Query.Writing

/-!
The template of a query. It says the facts about the documents of a model one after the other
(`ofModel_writes`), with a variable for each place in the order in which the facts come to them, and
lists the triples of the pattern in their order.
-/

namespace RdfXmlMapping.Query

/-! ### Triples of patterns -/

mutual

def Pattern.triples : Pattern → List Triple
  | .triple t => [t]
  | .optional group => groupTriples group
  | .union branches => branchTriples branches

/-- The triples of conditions in the order in which they are written. -/
def groupTriples : List Pattern → List Triple
  | [] => []
  | p :: ps => p.triples ++ groupTriples ps

def branchTriples : List (List Pattern) → List Triple
  | [] => []
  | b :: bs => groupTriples b ++ branchTriples bs

end

theorem groupTriples_append (ps qs : List Pattern) :
    groupTriples (ps ++ qs) = groupTriples ps ++ groupTriples qs := by
  induction ps with
  | nil => rfl
  | cons p ps ih => rw [List.cons_append, groupTriples, groupTriples, ih, List.append_assoc]

theorem groupTriples_singleton (p : Pattern) : groupTriples [p] = p.triples := by
  simp [groupTriples]

theorem groupTriples_flatten (groups : List (List Pattern)) :
    groupTriples groups.flatten = groups.flatMap groupTriples := by
  induction groups with
  | nil => rfl
  | cons ps groups ih => rw [List.flatten_cons, groupTriples_append, ih, List.flatMap_cons]

theorem groupTriples_union (branches : List (List Pattern)) :
    groupTriples [.union branches] = branches.flatMap groupTriples := by
  rw [groupTriples_singleton, Pattern.triples]
  induction branches with
  | nil => rfl
  | cons b branches ih => rw [branchTriples, ih, List.flatMap_cons]

theorem groupTriples_optional (isOptional : Bool) (ps : List Pattern) :
    groupTriples (if isOptional then [.optional ps] else ps) = groupTriples ps := by
  cases isOptional with
  | false => rfl
  | true => exact groupTriples_singleton _

/-! ### Writing down facts -/

/-- The triples are written for the facts one after the other. There are variables for the places
that are known, each the number of its place, and each fact makes known the place that it comes to
first; the table gets prefixes for the IRIs. -/
inductive Written : List Place → PrefixTable → List Fact → List Triple → PrefixTable → Prop
  | done {known : List Place} {t : PrefixTable} : Written known t [] [] t
  | entry {known : List Place} {t t' : PrefixTable} {place : Place} {facts : List Fact}
      {ts : List Triple} :
      Written (known ++ [place]) t facts ts t' → Written known t (.entry place :: facts) ts t'
  | isA {known : List Place} {t t₁ t₂ t' : PrefixTable} {place : Place} {iri meaning a b : String}
      {facts : List Fact} {ts : List Triple} {n : Nat} :
      known[n]? = some place → t.write Vocabulary.rdfType = (a, t₁) → t₁.write meaning = (b, t₂) →
      Written known t₂ facts ts t' →
      Written known t (.isA place iri meaning :: facts) (classTriple n a b :: ts) t'
  | leads {known : List Place} {t t₁ t' : PrefixTable} {owner value : Place} {p : Property}
      {iri name : String} {facts : List Fact} {ts : List Triple} {n : Nat} :
      known[n]? = some owner → t.write p.predicate = (name, t₁) →
      Written (known ++ [value]) t₁ facts ts t' →
      Written known t (.leads owner iri p value :: facts) (edge p name n known.length :: ts) t'

variable {known : List Place} {t t' t'' : PrefixTable} {facts rest : List Fact}
  {ts us : List Triple}

theorem Written.append (first : Written known t facts ts t')
    (second : Written (known ++ places facts) t' rest us t'') :
    Written known t (facts ++ rest) (ts ++ us) t'' := by
  induction first with
  | done => simpa [places] using second
  | entry _ ih =>
    rw [known_places_cons] at second
    exact .entry (ih second)
  | isA subject first last _ ih => exact .isA subject first last (ih second)
  | leads subject named _ ih =>
    rw [known_places_cons] at second
    exact .leads subject named (ih second)

/-- A run that writes the facts, with the triples at the end of the template. -/
structure Tells (known : List Place) (s u : Progress) (facts : List Fact) (ts : List Triple) :
    Prop where
  counted : u.variableCount = s.variableCount + (places facts).length
  template : u.template = s.template ++ ts
  written : Written known s.prefixes facts ts u.prefixes

variable {m : Model} {s u w : Progress} {place : Place} {v number : Nat} {ps : List Pattern}
  {c : Class}

theorem Tells.nothing (known : List Place) (s : Progress) : Tells known s s [] [] :=
  ⟨rfl, (List.append_nil _).symm, .done⟩

theorem Tells.append (first : Tells known s u facts ts)
    (second : Tells (known ++ places facts) u w rest us) :
    Tells known s w (facts ++ rest) (ts ++ us) where
  counted := by
    rw [second.counted, first.counted, places_append, List.length_append, Nat.add_assoc]
  template := by rw [second.template, first.template, List.append_assoc]
  written := first.written.append second.written

theorem Tells.ready (h : Tells known s u facts ts) (ready : known.length = s.variableCount) :
    (known ++ places facts).length = u.variableCount := by
  rw [List.length_append, ready, h.counted]

/-- What is written for each of several things, from the one of number `k` on. -/
theorem runs_tell {α : Type} {f : α → Build (List Pattern)} {xs : List α}
    {out : List (List Pattern)} (Known : List Place → Prop) (About : Nat → α → List Fact → Prop)
    (AboutAll : Nat → List α → List Fact → Prop) (runs : Runs f xs out s u)
    (mono : ∀ known more, Known known → Known (known ++ more))
    (none : ∀ k, AboutAll k [] [])
    (next : ∀ k x xs facts rest, About k x facts → AboutAll (k + 1) xs rest →
      AboutAll k (x :: xs) (facts ++ rest))
    (step : ∀ x ∈ xs, ∀ k known s ps u, known.length = s.variableCount → Known known →
      f x s = .ok (ps, u) → ∃ facts, About k x facts ∧ Tells known s u facts (groupTriples ps))
    (k : Nat) (known : List Place) (ready : known.length = s.variableCount)
    (knows : Known known) :
    ∃ facts, AboutAll k xs facts ∧ Tells known s u facts (out.flatMap groupTriples) := by
  induction runs generalizing k known with
  | nil s => exact ⟨[], none k, .nothing known s⟩
  | cons first _ ih =>
    obtain ⟨facts, about, told⟩ := step _ List.mem_cons_self k known _ _ _ ready knows first
    obtain ⟨rest, others, told'⟩ := ih (fun x member => step x (List.mem_cons_of_mem _ member))
      (k + 1) (known ++ places facts) (told.ready ready) (mono _ _ knows)
    exact ⟨facts ++ rest, next k _ _ facts rest about others, told.append told'⟩

/-! ### Classes -/

theorem typePatterns_tells {isOptional : Bool} (subject : known[v]? = some place)
    (h : typePatterns v isOptional c s = .ok (ps, u)) :
    Tells known s u (c.meaning.toList.map (.isA place c.iri)) (groupTriples ps) := by
  cases read : c.meaning with
  | none =>
    rw [typePatterns_none _ _ read] at h
    cases h
    exact .nothing known s
  | some meaning =>
    rw [typePatterns_some _ _ read] at h
    cases h
    refine ⟨rfl, ?_, ?_⟩
    · cases isOptional <;> rfl
    · cases isOptional <;> exact .isA subject rfl rfl .done

theorem propertyTriple_tells {value : Nat} {p : Property} {e : Pattern} (iri : String) (new : Place)
    (ready : known.length = s.variableCount) (subject : known[v]? = some place)
    (h : propertyTriple v p s = .ok ((value, e), u)) :
    Tells known s u [.leads place iri p new] e.triples ∧ (known ++ [new])[value]? = some new := by
  rw [propertyTriple_eq] at h
  cases h
  rw [Pattern.triples, ← ready]
  refine ⟨⟨by rw [ready]; rfl, rfl, .leads subject rfl .done⟩, ?_⟩
  simp

theorem getElem?_append_of_some {n : Nat} (known more : List Place) (h : known[n]? = some place) :
    (known ++ more)[n]? = some place := by
  rw [List.getElem?_append_left (List.getElem?_eq_some_iff.mp h).1, h]

/-- What is written for the classes that a resource may be an instance of. -/
theorem candidates_tell {f : Class → Build (List Pattern)} {cs : List Class}
    {out : List (List Pattern)} (runs : Runs f cs out s u)
    (step : ∀ d number known s ps u, known.length = s.variableCount → known[v]? = some place →
      f d s = .ok (ps, u) →
        ∃ facts, FactsOf m place (.cls number d) facts ∧ Tells known s u facts (groupTriples ps))
    (ready : known.length = s.variableCount) (subject : known[v]? = some place) :
    ∃ facts, FactsOf m place (.candidates 0 cs) facts ∧
      Tells known s u facts (groupTriples [.union out]) := by
  rw [groupTriples_union]
  exact runs_tell (fun known => known[v]? = some place) (fun j d => FactsOf m place (.cls j d))
    (fun j cs => FactsOf m place (.candidates j cs)) runs
    (fun known more => getElem?_append_of_some known more) (fun _ => .noCandidate)
    (fun _ _ _ _ _ => .candidate) (fun d _ number => step d number) 0 known ready subject

/-- The facts about a property of an instance: that it leads to a value, and all about the value. -/
def PropertyFacts (m : Model) (place : Place) (number : Nat) (iri : String) (k : Nat) (p : Property)
    (facts : List Fact) : Prop :=
  ∃ shape below, m.shapeOf p = .ok shape ∧
    FactsOf m (place.value number iri k) (.candidates 0 shape.targets) below ∧
    facts = .leads place iri p (place.value number iri k) :: below

theorem property_tells {iri : String} {p : Property} {shape : Shape} {value k : Nat} {e : Pattern}
    {content : List Pattern} (shaped : m.shapeOf p = .ok shape)
    (ready : known.length = s.variableCount) (subject : known[v]? = some place)
    (led : propertyTriple v p s = .ok ((value, e), u))
    (described : (known ++ [place.value number iri k]).length = u.variableCount →
      (known ++ [place.value number iri k])[value]? = some (place.value number iri k) →
      ∃ below, FactsOf m (place.value number iri k) (.candidates 0 shape.targets) below ∧
        Tells (known ++ [place.value number iri k]) u w below (groupTriples content)) :
    ∃ facts, PropertyFacts m place number iri k p facts ∧ Tells known s w facts
      (groupTriples (if p.isOptional then [.optional (e :: content)] else e :: content)) := by
  obtain ⟨told, subject'⟩ := propertyTriple_tells iri (place.value number iri k) ready subject led
  obtain ⟨below, about, inner⟩ := described (told.ready ready) subject'
  rw [groupTriples_optional, groupTriples]
  exact ⟨_, ⟨_, below, shaped, about, rfl⟩, told.append inner⟩

theorem not_mem_of_canEnter {path : List String} {iri : String} (h : m.canEnter path iri) :
    iri ∉ path := by
  simp only [Model.canEnter, Bool.and_eq_true, Bool.not_eq_true', List.contains_eq_mem,
    decide_eq_false_iff_not] at h
  exact h.2

theorem classPatterns_tells {path : List String} {isOptional : Bool} (way : place.classes ⊆ path)
    (ready : known.length = s.variableCount) (subject : known[v]? = some place)
    (h : classPatterns m path v isOptional c s = .ok (ps, u)) :
    ∃ facts, FactsOf m place (.cls number c) facts ∧ Tells known s u facts (groupTriples ps) := by
  induction path, v, isOptional, c using classPatterns.induct m
    generalizing s ps u known place number with
  | case2 path v isOptional c outside => exact absurd (classPatterns_ok h).1 outside
  | case1 path v isOptional c inside single choice =>
    obtain ⟨_, type, s₁, properties, out, typed, inherited, described, rfl⟩ := classPatterns_ok h
    have stated := typePatterns_tells subject typed
    have none := places_isA place c.iri c.meaning
    have outside : c.iri ∉ path := not_mem_of_canEnter inside
    -- The path holds the classes on the way to the place, so a new class is none of these.
    have onward (k : Nat) : (place.value number c.iri k).classes ⊆ c.iri :: path := by
      rw [Place.classes_value]
      exact List.append_subset.mpr ⟨List.subset_cons_of_subset _ way, by simp⟩
    rw [groupTriples_append, groupTriples_flatten]
    obtain ⟨facts, about, told⟩ := runs_tell (fun known => known[v]? = some place)
      (PropertyFacts m place number c.iri)
      (fun k ps => FactsOf m place (.properties number c.iri k ps))
      described (fun known more => getElem?_append_of_some known more)
      (fun k => .noProperty)
      (by
        rintro k p ps _ rest ⟨shape, below, read, inner, rfl⟩ others
        exact .property read inner others)
      (by
        intro p _ k known s group u ready subject h
        obtain ⟨shape, value, e, u₃, content, shaped, _, led, followed, rfl⟩ :=
          propertyPatterns_ok h
        refine property_tells shaped ready subject led fun ready subject => ?_
        cases shape with
        | primitive _ =>
          cases pure_ok followed
          exact ⟨[], .noCandidate, .nothing _ _⟩
        | single target =>
          obtain ⟨below, about, inner⟩ := single value target (onward k) ready subject followed
          refine ⟨below ++ [], .candidate about .noCandidate, ?_⟩
          rw [List.append_nil]
          exact inner
        | choice plan =>
          obtain ⟨branches, candidates, rfl⟩ := valuePatterns_choice_ok followed
          exact candidates_tell candidates (fun d _ known s ps u ready subject run =>
            choice value plan d (onward k) ready subject run) ready subject)
      0 known (by simpa [none] using stated.ready ready) subject
    exact ⟨_, .cls (fun old => outside (way old)) inherited about,
      stated.append (by simpa [none] using told)⟩

/-! ### Roots -/

theorem rootPatterns_tells {group : List String} (k : Nat) (ready : known.length = s.variableCount)
    (h : rootPatterns m group s = .ok (ps, u)) :
    ∃ candidates facts, List.Forall₂ (fun iri c => m.find? iri = some c) group candidates ∧
      FactsOf m (.root k) (.candidates 0 candidates) facts ∧
      Tells known s u (.entry (.root k) :: facts) (groupTriples ps) := by
  obtain ⟨candidates, found, described⟩ := rootPatterns_ok h
  have opened : Tells known s { s with variableCount := s.variableCount + 1 }
      [.entry (.root k)] [] := ⟨rfl, (List.append_nil _).symm, .entry .done⟩
  have ready' := opened.ready ready
  have subject : (known ++ places [.entry (.root k)])[s.variableCount]? = some (.root k) := by
    rw [← ready]
    simp [places, Fact.opens?]
  obtain ⟨c, rfl, made⟩ | ⟨_, branches, followed, rfl⟩ := described
  · obtain ⟨facts, about, told⟩ := classPatterns_tells (List.nil_subset _) ready' subject made
    refine ⟨[c], facts ++ [], found, .candidate about .noCandidate, ?_⟩
    rw [List.append_nil]
    exact opened.append told
  · obtain ⟨facts, about, told⟩ := candidates_tell followed
      (fun d _ known s ps u ready subject run =>
        classPatterns_tells (List.nil_subset _) ready subject run) ready' subject
    exact ⟨candidates, _, found, about, opened.append told⟩

theorem modelPatterns_tells (h : modelPatterns m {} = .ok (ps, u)) :
    ∃ facts, Expansion m facts ∧ Tells [] {} u facts (groupTriples ps) := by
  unfold modelPatterns at h
  obtain ⟨branches, s₁, followed, h⟩ := bind_ok h
  obtain ⟨facts, about, told⟩ := runs_tell (fun _ => True)
    (fun k group facts => ∃ candidates inner,
      List.Forall₂ (fun iri c => m.find? iri = some c) group candidates ∧
      FactsOf m (.root k) (.candidates 0 candidates) inner ∧ facts = .entry (.root k) :: inner)
    (GroupFacts m) (mapM_ok followed) (fun _ _ _ => trivial) (fun _ => .noGroup)
    (by
      rintro k group groups _ rest ⟨candidates, inner, found, about, rfl⟩ others
      exact .group found about others)
    (by
      intro group _ k known s ps u ready _ run
      obtain ⟨candidates, inner, found, about, told⟩ := rootPatterns_tells k ready run
      exact ⟨_, ⟨candidates, inner, found, about, rfl⟩, told⟩)
    0 [] rfl trivial
  refine ⟨facts, about, ?_⟩
  split at h
  · cases pure_ok h
    simpa using told
  · cases pure_ok h
    rw [groupTriples_union]
    exact told

/-- A query is made by writing down the facts about the documents of the model. -/
theorem ofModel_writes {q : Query} (h : ofModel m = .ok q) : ∃ facts table, Expansion m facts ∧
    Written [] { stem := "ns" } facts q.template table ∧ q.prefixes = table.bindings ∧
    q.variableCount = (places facts).length ∧ q.template = groupTriples q.pattern := by
  unfold ofModel at h
  obtain ⟨_, _, h⟩ := except_bind_ok h
  obtain ⟨⟨pattern, final⟩, made, h⟩ := except_bind_ok h
  obtain rfl := Except.ok.inj h
  obtain ⟨facts, expansion, told⟩ := modelPatterns_tells made
  have template : final.template = groupTriples pattern := told.template.trans (List.nil_append _)
  exact ⟨facts, final.prefixes, expansion, template ▸ told.written, rfl,
    told.counted.trans (Nat.zero_add _), template⟩

end RdfXmlMapping.Query
