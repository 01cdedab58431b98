import Mathlib
import RdfXmlMapping.Model.Build
import RdfXmlMapping.Proofs.Query.Template

/-!
The trees of a query. The template lists the triples of its pattern in their order
(`template_lists_pattern`). There is a variable for each place, so the triples of a document form a
tree as well: each variable but that of the root is the value of one property, of a resource with a
smaller variable, and is not mentioned before (`variables_form_trees`).
-/

namespace RdfXmlMapping.Query

/-! ### The pattern -/

/-- The template lists the triples of the pattern in their order. -/
theorem template_lists_pattern {m : Model} {q : Query} (h : ofModel m = .ok q) :
    q.template = groupTriples q.pattern := by
  obtain ⟨_, _, _, _, _, _, template⟩ := ofModel_writes h
  exact template

/-- Rooms with a guard, which show works, and the works themselves. A painting has been created by
a person, as a guard is one; the predicate for guards has no local name. -/
def gallery : Model :=
  let resource (name : String) : Class :=
    { Class.make name name with meaning := some ("https://ex.org/" ++ name) }
  (Model.make "gallery" "art").rootedAt ["Room"] |>.rootedAt ["Painting", "Statue"]
    |>.declaring ((resource "Room")
      |>.declaring ((Property.make "guard" "urn:guard").association "Person")
      |>.declaring { (Property.make "shows" "https://ex.org/shows")
        |>.association "Painting" |>.association "Statue" with least := 0 })
    |>.declaring ((resource "Painting").declaring
      { (Property.make "creator" "https://ex.org/created").association "Person" with
        isReverse := true })
    |>.declaring (resource "Statue")
    |>.declaring (Class.make "Person" "Person")

def galleryQuery : Query :=
  let isA (n : Nat) (name : String) : Triple := classTriple n "ns0:type" ("ns1:" ++ name)
  let guard : Triple := ⟨.var 0, .iri "<urn:guard>", .var 1⟩
  let shows : Triple := ⟨.var 0, .iri "ns1:shows", .var 2⟩
  let created (creator painting : Nat) : Triple :=
    ⟨.var creator, .iri "ns1:created", .var painting⟩
  { prefixes := [
      ("ns0", "http://www.w3.org/1999/02/22-rdf-syntax-ns#"), ("ns1", "https://ex.org/")]
    template := [
      isA 0 "Room", guard, shows, isA 2 "Painting", created 3 2, isA 2 "Statue",
      isA 4 "Painting", created 5 4, isA 4 "Statue"]
    pattern := [.union [
      [.triple (isA 0 "Room"), .triple guard, .optional [.triple shows,
        .union [[.triple (isA 2 "Painting"), .triple (created 3 2)], [.triple (isA 2 "Statue")]]]],
      [.union [[.optional [.triple (isA 4 "Painting")], .triple (created 5 4)],
        [.optional [.triple (isA 4 "Statue")]]]]]]
    variableCount := 6 }

set_option maxRecDepth 20000 in
theorem ofModel_gallery : ofModel gallery = .ok galleryQuery := by cbv

theorem template_lists_pattern_gallery : ofModel gallery = .ok galleryQuery ∧
    galleryQuery.template = groupTriples galleryQuery.pattern :=
  ⟨ofModel_gallery, template_lists_pattern ofModel_gallery⟩

/-! ### Variables -/

/-- The variable of a place is the number of places that come before it. -/
def variableOf (facts : List Fact) (place : Place) : Nat := (places facts).idxOf place

/-- The triple says the fact, with a variable for each place. -/
inductive Says (number : Place → Nat) : Fact → Triple → Prop
  | isA {place : Place} {iri meaning a b : String} :
      Says number (.isA place iri meaning) (classTriple (number place) a b)
  | leads {owner value : Place} {iri name : String} {p : Property} :
      Says number (.leads owner iri p value) (edge p name (number owner) (number value))

/-- The triple is that of a property. -/
def Triple.isEdge (t : Triple) : Bool :=
  match t.predicate with
  | .iri _ => true
  | .var _ | .type _ => false

/-- The facts that are said, with the triples that say them. -/
def sayings (facts : List Fact) (q : Query) : List (Fact × Triple) :=
  (statements facts).zip q.template

/-- The triple of the number `i` leads from the variable `u` to `n` as the value of a property. -/
def Introduces (facts : List Fact) (q : Query) (i u n : Nat) : Prop :=
  ∃ owner iri p value name,
    (sayings facts q)[i]? = some (.leads owner iri p value, edge p name u n)

/-- The variables of the query make trees of the documents that the facts are about. -/
structure Forest (m : Model) (q : Query) (facts : List Fact) : Prop where
  /-- The triples of the template say the facts in their order. -/
  said : List.Forall₂ (Says (variableOf facts)) (statements facts) q.template
  /-- Every variable has a number below the count. -/
  bounded : ∀ t ∈ q.template, ∀ n ∈ t.vars, n < q.variableCount
  /-- There is a variable for each root group and for each triple of a property. -/
  counted : q.variableCount = m.roots.length + q.template.countP Triple.isEdge
  /-- A variable that is not that of a root group is the value of a property in one triple, whose
  other end is smaller and before which no triple mentions it. -/
  introduced : ∀ n < q.variableCount, (∀ k < m.roots.length, n ≠ variableOf facts (.root k)) →
    ∃ i u, Introduces facts q i u n ∧ u < n ∧ (∀ j w, Introduces facts q j w n → j = i) ∧
      ∀ j t, q.template[j]? = some t → n ∈ t.vars → i ≤ j
  /-- Each place has a variable of its own. -/
  apart : ∀ f ∈ facts, ∀ g ∈ facts, ∀ u ∈ f.mentions, ∀ v ∈ g.mentions,
    variableOf facts u = variableOf facts v → u = v
  /-- No variable is shared between instances of a class that are reached on different ways. -/
  classes : ∀ f t g t', (f, t) ∈ sayings facts q → (g, t') ∈ sayings facts q → ∀ u v iri,
    f.Describes u iri → g.Describes v iri → u ≠ v → ∀ n ∈ t.vars, n ∉ t'.vars
  /-- No variable is shared between root groups. -/
  groups : ∀ f t g t', (f, t) ∈ sayings facts q → (g, t') ∈ sayings facts q → ∀ u v iri iri',
    f.Describes u iri → g.Describes v iri' → u.group ≠ v.group → ∀ n ∈ t.vars, n ∉ t'.vars

variable {m : Model} {q : Query} {known : List Place} {t t' : PrefixTable}
  {facts before after : List Fact} {ts : List Triple} {f : Fact} {x : Triple} {place u v : Place}
  {iri : String} {number : Place → Nat} {n i : Nat}

/-! ### Triples of facts -/

theorem Says.mem_vars (h : Says number f x) : n ∈ x.vars ↔ ∃ v ∈ f.mentions, n = number v := by
  cases h with
  | isA => simp [mem_vars_classTriple, Fact.mentions]
  | leads => simp [mem_vars_edge, Fact.mentions]

theorem Says.value {owner value : Place} {p : Property} {name : String} {u : Nat}
    (h : Says number (.leads owner iri p value) (edge p name u n)) : number value = n := by
  generalize made : edge p name u n = x at h
  cases h
  unfold edge at made
  split at made <;> cases made <;> rfl

theorem idxOf_known {more : List Place} (nodup : (known ++ more).Nodup)
    (h : known[n]? = some place) : (known ++ more).idxOf place = n := by
  obtain ⟨bound, same⟩ := List.getElem?_eq_some_iff.mp (getElem?_append_of_some known more h)
  rw [← same]
  exact nodup.idxOf_getElem n bound

theorem idxOf_next (more : List Place) (new : place ∉ known) :
    (known ++ place :: more).idxOf place = known.length := by
  rw [List.idxOf_append_of_notMem new, List.idxOf_cons_self, Nat.add_zero]

theorem Written.tells (h : Written known t facts ts t') (nodup : (known ++ places facts).Nodup) :
    List.Forall₂ (Says (known ++ places facts).idxOf) (statements facts) ts := by
  induction h with
  | done => exact .nil
  | entry _ ih =>
    rw [known_places_cons] at nodup ⊢
    exact ih nodup
  | isA owner _ _ _ ih =>
    rw [known_places_cons, Fact.opens?, Option.toList_none, List.append_nil] at nodup ⊢
    refine .cons ?_ (ih nodup)
    rw [← idxOf_known nodup owner]
    exact .isA
  | @leads known _ _ _ _ value _ _ _ facts _ _ owner _ _ ih =>
    rw [known_places_cons] at nodup ⊢
    refine .cons ?_ (ih nodup)
    -- The value gets the number of the known places, and it is none of them.
    rw [Fact.opens?, Option.toList_some, List.append_assoc, List.singleton_append] at nodup ⊢
    have new : value ∉ known := fun old =>
      List.disjoint_of_nodup_append nodup old List.mem_cons_self
    rw [← idxOf_known nodup owner, ← idxOf_next (places facts) new]
    exact .leads

/-! ### Places that are known -/

/-- What a fact describes has been come to before. -/
theorem Written.placed (h : Written known t (before ++ f :: after) ts t')
    (describes : f.Describes place iri) : place ∈ known ++ places before := by
  induction before generalizing known t ts with
  | nil =>
    cases describes with
    | isA =>
      cases h with
      | isA owner => exact List.mem_append_left _ (List.mem_of_getElem? owner)
    | leads =>
      cases h with
      | leads owner => exact List.mem_append_left _ (List.mem_of_getElem? owner)
  | cons g before ih =>
    rw [known_places_cons]
    cases h with
    | entry rest => exact ih rest
    | isA _ _ _ rest => exact (List.append_nil known).symm ▸ ih rest
    | leads _ _ rest => exact ih rest

/-- What a fact mentions has been come to before, or the fact comes to it. -/
theorem Written.mentioned (h : Written [] t (before ++ after) ts t') (member : f ∈ before) :
    ∀ v ∈ f.mentions, v ∈ places before := by
  obtain ⟨earlier, later, rfl⟩ := List.append_of_mem member
  rw [List.append_assoc, List.cons_append] at h
  have old {v : Place} (known : v ∈ places earlier) : v ∈ places (earlier ++ f :: later) := by
    rw [places_append]
    exact List.mem_append_left _ known
  have new {v : Place} (opens : f.opens? = some v) : v ∈ places (earlier ++ f :: later) :=
    mem_places member opens
  intro v mentioned
  cases f with
  | entry place => exact new (congrArg some (List.mem_singleton.mp mentioned).symm)
  | isA place iri meaning =>
    obtain rfl := List.mem_singleton.mp mentioned
    exact old (h.placed .isA)
  | leads owner iri p value =>
    rcases List.mem_cons.mp mentioned with rfl | last
    · exact old (h.placed .leads)
    · exact new (congrArg some (List.mem_singleton.mp last).symm)

theorem variableOf_lt (h : v ∈ places before) :
    variableOf (before ++ after) v < (places before).length := by
  rw [variableOf, places_append, List.idxOf_append_of_mem h]
  exact List.idxOf_lt_length_of_mem h

theorem variableOf_inj (same : variableOf facts u = variableOf facts v) (h : u ∈ places facts) :
    u = v := List.idxOf_inj h |>.mp same

/-! ### Positions -/

theorem getElem?_middle {α : Type} {xs ys : List α} {a b : α} {j : Nat}
    (h : (xs ++ a :: ys)[j]? = some b) :
    j < xs.length ∧ b ∈ xs ∨ j = xs.length ∧ b = a ∨ xs.length < j ∧ b ∈ ys := by
  rcases Nat.lt_trichotomy j xs.length with before | rfl | after
  · rw [List.getElem?_append_left before] at h
    exact .inl ⟨before, List.mem_of_getElem? h⟩
  · rw [List.getElem?_append_right (Nat.le_refl _), Nat.sub_self] at h
    exact .inr (.inl ⟨rfl, (Option.some.inj h).symm⟩)
  · rw [List.getElem?_append_right (Nat.le_of_lt after)] at h
    obtain ⟨k, rfl⟩ := Nat.exists_eq_add_of_lt after
    rw [show xs.length + k + 1 - xs.length = k + 1 by omega, List.getElem?_cons_succ] at h
    exact .inr (.inr ⟨after, List.mem_of_getElem? h⟩)

/-- Facts before, at and after a statement. -/
theorem statements_middle {g : Fact} {j : Nat} (isStatement : f.isStatement)
    (h : (statements (before ++ f :: after))[j]? = some g) :
    j < (statements before).length ∧ g ∈ before ∨ j = (statements before).length ∧ g = f ∨
      (statements before).length < j ∧ g ∈ after := by
  have next : statements (f :: after) = f :: statements after := List.filter_cons_of_pos isStatement
  rw [statements_append, next] at h
  rcases getElem?_middle h with ⟨here, member⟩ | here | ⟨here, member⟩
  · exact .inl ⟨here, List.mem_of_mem_filter member⟩
  · exact .inr (.inl here)
  · exact .inr (.inr ⟨here, List.mem_of_mem_filter member⟩)

theorem sayings_at (said : List.Forall₂ (Says number) (statements facts) q.template) {j : Nat}
    (h : (sayings facts q)[j]? = some (f, x)) :
    (statements facts)[j]? = some f ∧ q.template[j]? = some x ∧ Says number f x := by
  obtain ⟨fact, triple⟩ := List.getElem?_zip_eq_some.mp h
  exact ⟨fact, triple, (List.forall₂_iff_zip.mp said).2 (List.mem_of_getElem? h)⟩

theorem sayings_of_template (said : List.Forall₂ (Says number) (statements facts) q.template)
    {j : Nat} (h : q.template[j]? = some x) : ∃ f, (sayings facts q)[j]? = some (f, x) := by
  have bound := (List.getElem?_eq_some_iff.mp h).1
  rw [← said.length_eq] at bound
  exact ⟨_, List.getElem?_zip_eq_some.mpr ⟨List.getElem?_eq_getElem bound, h⟩⟩

theorem sayings_of_statement (said : List.Forall₂ (Says number) (statements facts) q.template)
    {j : Nat} (h : (statements facts)[j]? = some f) : ∃ x, (sayings facts q)[j]? = some (f, x) := by
  have bound := (List.getElem?_eq_some_iff.mp h).1
  rw [said.length_eq] at bound
  exact ⟨_, List.getElem?_zip_eq_some.mpr ⟨h, List.getElem?_eq_getElem bound⟩⟩

/-! ### Values of properties -/

section

variable {owner value : Place} {p : Property} {j w : Nat}
  (split : facts = before ++ .leads owner iri p value :: after)
  (written : Written [] t facts q.template t') (nodup : (places facts).Nodup)
  (said : List.Forall₂ (Says (variableOf facts)) (statements facts) q.template)

include split nodup in
theorem variableOf_value :
    variableOf facts value = (places before).length ∧ value ∉ places after := by
  have whole : places facts = places before ++ value :: places after := split ▸ places_append ..
  rw [whole] at nodup
  have new := (List.nodup_cons.mp (List.nodup_middle.mp nodup)).1
  rw [List.mem_append, not_or] at new
  rw [variableOf, whole]
  exact ⟨idxOf_next _ new.1, new.2⟩

include split written nodup said in
/-- No triple mentions the value before the triple that leads to it. -/
theorem first_mention (here : q.template[j]? = some x)
    (mentioned : variableOf facts value ∈ x.vars) : (statements before).length ≤ j := by
  obtain ⟨g, told⟩ := sayings_of_template said here
  obtain ⟨fact, _, saying⟩ := sayings_at said told
  have size := (variableOf_value split nodup).1
  subst split
  rcases statements_middle rfl fact with ⟨_, member⟩ | ⟨same, _⟩ | ⟨later, _⟩
  · obtain ⟨v, among, same⟩ := saying.mem_vars.mp mentioned
    have : variableOf (before ++ .leads owner iri p value :: after) v < (places before).length :=
      variableOf_lt (written.mentioned member v among)
    omega
  · omega
  · omega

include split written nodup said in
/-- No other triple leads to the value. -/
theorem introduced_once (introduces : Introduces facts q j w (variableOf facts value)) :
    j = (statements before).length := by
  obtain ⟨owner', iri', p', value', name', told⟩ := introduces
  obtain ⟨fact, here, saying⟩ := sayings_at said told
  have low := first_mention split written nodup said here (mem_vars_edge.mpr (.inr rfl))
  have new := (variableOf_value split nodup).2
  subst split
  rcases statements_middle rfl fact with ⟨early, _⟩ | ⟨same, _⟩ | ⟨_, member⟩
  · omega
  · exact same
  · have known : value' ∈ places (before ++ .leads owner iri p value :: after) :=
      mem_places (List.mem_append_right _ (List.mem_cons_of_mem _ member)) rfl
    obtain rfl := variableOf_inj saying.value known
    exact absurd (mem_places member rfl) new

include split written nodup said in
theorem introduced_at : ∃ u < variableOf facts value,
    Introduces facts q (statements before).length u (variableOf facts value) := by
  have size := (variableOf_value split nodup).1
  have here : (statements facts)[(statements before).length]? =
      some (.leads owner iri p value) := by
    rw [split, statements_append, List.getElem?_append_right (Nat.le_refl _), Nat.sub_self]
    rfl
  obtain ⟨x, told⟩ := sayings_of_statement said here
  obtain ⟨_, _, saying⟩ := sayings_at said told
  cases saying with
  | leads =>
    refine ⟨variableOf facts owner, ?_, owner, iri, p, value, _, told⟩
    rw [size]
    subst split
    exact variableOf_lt (written.placed .leads)

end

/-! ### Numbers of variables -/

theorem isEdge_edge (p : Property) (name : String) (owner value : Nat) :
    (edge p name owner value).isEdge = true := by
  rw [Triple.isEdge, edge_predicate]

/-- A fact comes to a place where documents begin, or as the value of a property. -/
theorem Written.counted (h : Written known t facts ts t') :
    (places facts).length = (facts.filter (!·.isStatement)).length + ts.countP Triple.isEdge := by
  induction h with
  | done => rfl
  | entry _ ih =>
    rw [List.filter_cons_of_pos (by rfl), List.length_cons, Nat.add_right_comm, ← ih]
    rfl
  | isA _ _ _ _ ih =>
    rw [List.filter_cons_of_neg (by simp [Fact.isStatement]),
      List.countP_cons_of_neg (by simp [Triple.isEdge, classTriple]), ← ih]
    rfl
  | leads _ _ _ ih =>
    rw [List.filter_cons_of_neg (by simp [Fact.isStatement]),
      List.countP_cons_of_pos (isEdge_edge ..), ← Nat.add_assoc, ← ih]
    rfl

/-! ### Shared variables -/

theorem value_inj {a b k l : Nat} {iri iri' : String}
    (same : u.value a iri k = v.value b iri' l) : u = v := by
  obtain ⟨group, path⟩ := Place.mk.inj same
  exact Place.mk.injEq .. ▸ ⟨group, (List.append_inj' path rfl).1⟩

/-- A fact mentions the place that it describes and at most one that is a step further. -/
theorem Fact.Grounded.mentions (h : f.Grounded) (describes : f.Describes u iri) :
    iri ∉ u.classes ∧ ∀ v ∈ f.mentions, v = u ∨ ∃ number k, v = u.value number iri k := by
  cases describes with
  | isA =>
    cases h with
    | isA fresh => exact ⟨fresh, fun v member => .inl (List.mem_singleton.mp member)⟩
  | leads =>
    cases h with
    | leads fresh =>
      refine ⟨fresh, fun v member => ?_⟩
      rcases List.mem_cons.mp member with rfl | last
      · exact .inl rfl
      · exact .inr ⟨_, _, List.mem_singleton.mp last⟩

/-- Two facts that mention the same place are about the same group, and about the same place if
they are about instances of the same class: no class is a class on the way to it. -/
theorem same_place {g : Fact} {iri' : String} {w : Place} (here : f.Grounded) (there : g.Grounded)
    (describes : f.Describes u iri) (describes' : g.Describes v iri') (inside : w ∈ f.mentions)
    (inside' : w ∈ g.mentions) : u.group = v.group ∧ (iri = iri' → u = v) := by
  obtain ⟨fresh, near⟩ := here.mentions describes
  obtain ⟨fresh', near'⟩ := there.mentions describes'
  have last (place : Place) (number k : Nat) (iri : String) :
      iri ∈ (place.value number iri k).classes := by
    rw [Place.classes_value]
    exact List.mem_append_right _ List.mem_cons_self
  rcases near w inside with rfl | ⟨_, _, rfl⟩ <;> rcases near' _ inside' with same | ⟨_, _, same⟩
  · exact ⟨congrArg _ same, fun _ => same⟩
  -- Where the one is the value of a property of the other, its class is another one.
  · subst same
    exact ⟨rfl, fun same => absurd (same ▸ last ..) fresh⟩
  · subst same
    exact ⟨rfl, fun same => absurd (same ▸ last ..) fresh'⟩
  · have same := value_inj same
    exact ⟨congrArg _ same, fun _ => same⟩

/-! ### Queries of models -/

section

variable (expansion : Expansion m facts) (written : Written [] t facts q.template t')

include written in
theorem mentioned_places (member : f ∈ facts) : ∀ v ∈ f.mentions, v ∈ places facts := by
  rw [← List.append_nil facts] at written
  exact written.mentioned member

include expansion written in
theorem template_tells : List.Forall₂ (Says (variableOf facts)) (statements facts) q.template :=
  written.tells (nodup_places expansion)

include expansion written in
theorem vars_lt (member : x ∈ q.template) (inside : n ∈ x.vars) : n < (places facts).length := by
  obtain ⟨f, stated, saying⟩ := forall₂_mem_right (template_tells expansion written) member
  obtain ⟨v, among, rfl⟩ := saying.mem_vars.mp inside
  exact List.idxOf_lt_length_of_mem
    (mentioned_places written (List.mem_of_mem_filter stated) v among)

include expansion written in
theorem saying_tells (told : (f, x) ∈ sayings facts q) : f ∈ facts ∧ Says (variableOf facts) f x :=
  ⟨List.mem_of_mem_filter (List.of_mem_zip told).1,
    (List.forall₂_iff_zip.mp (template_tells expansion written)).2 told⟩

include expansion written in
/-- A variable that two triples share is that of a place that both facts mention. -/
theorem shared_mention {g : Fact} {y : Triple} (here : (f, x) ∈ sayings facts q)
    (there : (g, y) ∈ sayings facts q) (first : n ∈ x.vars) (second : n ∈ y.vars) :
    f.Grounded ∧ g.Grounded ∧ ∃ w, w ∈ f.mentions ∧ w ∈ g.mentions := by
  obtain ⟨member, saying⟩ := saying_tells expansion written here
  obtain ⟨member', saying'⟩ := saying_tells expansion written there
  obtain ⟨v, among, rfl⟩ := saying.mem_vars.mp first
  obtain ⟨w, among', same⟩ := saying'.mem_vars.mp second
  obtain rfl := variableOf_inj same (mentioned_places written member v among)
  have grounded := GroupFacts.grounded expansion
  exact ⟨grounded f member, grounded g member', v, among, among'⟩

include expansion written in
theorem introduced_of_expansion (bound : n < (places facts).length)
    (unrooted : ∀ k < m.roots.length, n ≠ variableOf facts (.root k)) :
    ∃ i u, Introduces facts q i u n ∧ u < n ∧ (∀ j w, Introduces facts q j w n → j = i) ∧
      ∀ j t, q.template[j]? = some t → n ∈ t.vars → i ≤ j := by
  have nodup := nodup_places expansion
  obtain ⟨place, known, rfl⟩ : ∃ place ∈ places facts, variableOf facts place = n :=
    ⟨_, List.getElem_mem bound, nodup.idxOf_getElem n bound⟩
  obtain ⟨f, member, opens⟩ := List.mem_filterMap.mp known
  cases f with
  | entry =>
    have among : Fact.entry _ ∈ facts.filter (!·.isStatement) := List.mem_filter.mpr ⟨member, rfl⟩
    rw [GroupFacts.entries expansion] at among
    obtain ⟨k, small, same⟩ := List.mem_map.mp among
    cases same
    obtain rfl := Option.some.inj opens
    exact absurd rfl (unrooted k (by simpa using small))
  | isA => cases opens
  | leads owner iri p value =>
    obtain rfl := Option.some.inj opens
    obtain ⟨before, after, split⟩ := List.append_of_mem member
    have said := template_tells expansion written
    obtain ⟨u, smaller, introduces⟩ := introduced_at split written nodup said
    exact ⟨_, u, introduces, smaller, fun _ _ => introduced_once split written nodup said,
      fun _ _ => first_mention split written nodup said⟩

end

/-- The variables of a query form trees. -/
theorem variables_form_trees (h : ofModel m = .ok q) :
    ∃ facts, Expansion m facts ∧ Forest m q facts := by
  obtain ⟨facts, table, expansion, written, _, count, _⟩ := ofModel_writes h
  refine ⟨facts, expansion, ?_⟩
  constructor
  case said => exact template_tells expansion written
  case bounded => exact fun x member n inside => count ▸ vars_lt expansion written member inside
  case counted =>
    rw [count, written.counted, GroupFacts.entries expansion, List.length_map, List.length_range']
  case introduced =>
    intro n bound
    exact introduced_of_expansion expansion written (count ▸ bound)
  case apart =>
    intro f member g _ u among v _ same
    exact variableOf_inj same (mentioned_places written member u among)
  case classes =>
    intro f x g y here there u v iri describes describes' apart n first second
    obtain ⟨grounded, grounded', w, inside, inside'⟩ :=
      shared_mention expansion written here there first second
    exact apart ((same_place grounded grounded' describes describes' inside inside').2 rfl)
  case groups =>
    intro f x g y here there u v iri iri' describes describes' apart n first second
    obtain ⟨grounded, grounded', w, inside, inside'⟩ :=
      shared_mention expansion written here there first second
    exact apart (same_place grounded grounded' describes describes' inside inside').1

theorem variables_form_trees_gallery : ofModel gallery = .ok galleryQuery ∧
    ∃ facts, Expansion gallery facts ∧ Forest gallery galleryQuery facts :=
  ⟨ofModel_gallery, variables_form_trees ofModel_gallery⟩

end RdfXmlMapping.Query
