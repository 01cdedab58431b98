import RdfXmlMapping.Proofs.Query.Names
import RdfXmlMapping.Proofs.Query.Trees
import RdfXmlMapping.Proofs.Text.Lines

/-!
What the triples of a query are read as. By the prefixes of the query each stands for the IRIs of
the model that its fact names, and the prefixes are numbered in the order in which the triples use
them (`triples_read_back`).
-/

namespace RdfXmlMapping.Query

/-- The prefix and the local name of an IRI that is not written in full. -/
def nameParts? (text : String) : Option (String × String) :=
  match text.toList with
  | '<' :: _ => none
  | cs =>
    match cs.span (· ≠ ':') with
    | (own, _ :: last) => some (.ofList own, .ofList last)
    | (_, []) => none

/-- The IRI that is written between angle brackets, or by a prefix for its namespace. -/
def read? (prefixes : List (String × String)) (text : String) : Option String :=
  match text.toList with
  | '<' :: cs => if cs.getLast? = some '>' then some (.ofList cs.dropLast) else none
  | _ => do
    let (own, last) ← nameParts? text
    return (← prefixes.lookup own) ++ last

/-- The triple is read as the fact: it states the class of a resource by its meaning, or a property
by its predicate. -/
inductive Reads (prefixes : List (String × String)) : Fact → Triple → Prop
  | isA {place : Place} {iri meaning a b : String} {n : Nat} :
      read? prefixes a = some Vocabulary.rdfType → read? prefixes b = some meaning →
      Reads prefixes (.isA place iri meaning) (classTriple n a b)
  | leads {owner value : Place} {iri name : String} {p : Property} {u n : Nat} :
      read? prefixes name = some p.predicate →
      Reads prefixes (.leads owner iri p value) (edge p name u n)

/-- The IRIs of a term as they are written. -/
def Term.texts : Term → List String
  | var _ => []
  | iri text | type text => [text]

def Triple.texts (t : Triple) : List String :=
  t.subject.texts ++ t.predicate.texts ++ t.object.texts

/-- The prefixes of the IRIs in the order in which the triples use them. -/
def usedPrefixes (ts : List Triple) : List String :=
  (ts.flatMap Triple.texts).filterMap fun text => (nameParts? text).map (·.1)

/-- The triples of the query are read as facts, by prefixes that are numbered in the order of their
first use. -/
structure Legend (q : Query) (facts : List Fact) : Prop where
  reads : List.Forall₂ (Reads q.prefixes) (statements facts) q.template
  numbered : q.prefixes.map (·.1) = (List.range q.prefixes.length).map fun k => "ns" ++ toString k
  distinct : (q.prefixes.map (·.2)).Nodup
  used : q.prefixes.map (·.1) = (usedPrefixes q.template).eraseDups

variable {t t' : PrefixTable} {iri uri own last text : String} {used : List String}
  {entries : List (String × String)} {facts : List Fact} {ts : List Triple} {known : List Place}

/-! ### Reading -/

theorem nameParts?_numbered (k : Nat) (last : String) :
    nameParts? ("ns" ++ toString k ++ ":" ++ last) = some ("ns" ++ toString k, last) := by
  have chars : ("ns" ++ toString k ++ ":" ++ last).toList =
      ('n' :: 's' :: (toString k).toList) ++ ':' :: last.toList := by simp
  have cut : (('n' :: 's' :: (toString k).toList) ++ ':' :: last.toList).span (· ≠ ':') =
      ('n' :: 's' :: (toString k).toList, ':' :: last.toList) := by
    refine Text.span_append (fun c member => decide_eq_true ?_) (by simp)
    rintro rfl
    rcases List.mem_cons.mp member with same | member
    · cases same
    rcases List.mem_cons.mp member with same | member
    · cases same
    · cases toString_digits k ':' member
  have own : String.ofList ('n' :: 's' :: (toString k).toList) = "ns" ++ toString k := by
    rw [← String.toList_inj, String.toList_ofList, String.toList_append]
    rfl
  unfold nameParts?
  rw [chars]
  show (match (('n' :: 's' :: (toString k).toList) ++ ':' :: last.toList).span (· ≠ ':') with
    | (own, _ :: last) => some (String.ofList own, String.ofList last)
    | (_, []) => none) = _
  rw [cut]
  dsimp only
  rw [own, String.ofList_toList]

theorem nameParts?_full (iri : String) : nameParts? ("<" ++ iri ++ ">") = none := by
  have chars : ("<" ++ iri ++ ">").toList = '<' :: (iri.toList ++ ['>']) := by simp
  unfold nameParts?
  rw [chars]
  rfl

theorem read?_full (prefixes : List (String × String)) (iri : String) :
    read? prefixes ("<" ++ iri ++ ">") = some iri := by
  have chars : ("<" ++ iri ++ ">").toList = '<' :: (iri.toList ++ ['>']) := by simp
  unfold read?
  rw [chars]
  show (if (iri.toList ++ ['>']).getLast? = some '>' then
    some (String.ofList (iri.toList ++ ['>']).dropLast) else none) = some iri
  rw [if_pos (by simp), List.dropLast_concat, String.ofList_toList]

/-! ### Prefixes in the order of their use -/

/-- The prefixes are numbered without a gap, in the order in which they were used first. -/
structure Ordered (t : PrefixTable) (used : List String) : Prop where
  stem : t.stem = "ns"
  free : t.reserved = []
  next : t.next = t.entries.length
  names : t.entries.map (·.2) = (List.range t.entries.length).map t.numbered
  distinct : (t.entries.map (·.1)).Nodup
  used : t.entries.map (·.2) = used.eraseDups

theorem numbered_name (h : Ordered t used) :
    ∀ e ∈ t.entries, ∃ k : Nat, e.2 = "ns" ++ toString k := by
  intro e present
  have named : e.2 ∈ t.entries.map (·.2) := List.mem_map_of_mem present
  rw [h.names] at named
  obtain ⟨k, _, same⟩ := List.mem_map.mp named
  exact ⟨k, by rw [← same, PrefixTable.numbered, h.stem]⟩

/-- A namespace that is new gets the next number. -/
theorem ordered_snoc (h : Ordered t used) (unknown : uri ∉ t.entries.map (·.1)) :
    let own := t.numbered t.entries.length
    Ordered { t with entries := t.entries ++ [(uri, own)], next := t.entries.length + 1 }
      (used ++ [own]) := by
  intro own
  have new : own ∉ used := by
    rw [← List.mem_eraseDups, ← h.used, h.names]
    intro old
    obtain ⟨k, small, same⟩ := List.mem_map.mp old
    exact absurd (t.numbered_injective same ▸ List.mem_range.mp small) (Nat.lt_irrefl _)
  refine ⟨h.stem, h.free, ?_, ?_, ?_, ?_⟩
  · simp
  · rw [List.map_append, h.names, List.length_append, List.length_singleton, List.range_succ,
      List.map_append]
    rfl
  · rw [List.map_append]
    exact List.Nodup.append h.distinct (List.nodup_singleton _)
      (List.disjoint_singleton.mpr unknown)
  · rw [List.map_append, h.used, eraseDups_new new]
    rfl

theorem prefixFor_ordered (h : Ordered t used) (made : t.prefixFor uri = (own, t')) :
    Ordered t' (used ++ [own]) := by
  unfold PrefixTable.prefixFor at made
  cases found : t.find? uri with
  | some name =>
    rw [found] at made
    obtain ⟨rfl, rfl⟩ := Prod.mk.inj made
    obtain ⟨e, first, same⟩ := Option.map_eq_some_iff.mp found
    have old : name ∈ used := by
      rw [← List.mem_eraseDups, ← h.used, ← same]
      exact List.mem_map_of_mem (List.mem_of_find?_eq_some first)
    exact { h with used := h.used.trans (eraseDups_seen old).symm }
  | none =>
    have next : fresh t.numbered t.reserved t.next = t.entries.length := by
      rw [h.free, h.next]
      rfl
    rw [found] at made
    dsimp only at made
    rw [next] at made
    obtain ⟨rfl, rfl⟩ := Prod.mk.inj made
    refine ordered_snoc h fun old => ?_
    obtain ⟨e, present, same⟩ := List.mem_map.mp old
    exact List.find?_eq_none.mp (Option.map_eq_none_iff.mp found) e present (beq_iff_eq.mpr same)

theorem write_ordered (h : Ordered t used) (written : t.write iri = (text, t')) :
    Ordered t' (used ++ ((nameParts? text).map (·.1)).toList) := by
  obtain ⟨rfl, rfl⟩ := Prod.mk.inj written
  unfold PrefixTable.qualify
  cases cut : Iri.split? iri with
  | none =>
    show Ordered t (used ++ ((nameParts? ("<" ++ iri ++ ">")).map (·.1)).toList)
    rw [nameParts?_full, Option.map_none, Option.toList_none, List.append_nil]
    exact h
  | some parts =>
    obtain ⟨uri, last⟩ := parts
    rcases made : t.prefixFor uri with ⟨own, u⟩
    have ordered := prefixFor_ordered h made
    obtain ⟨k, rfl⟩ := numbered_name ordered _ (PrefixTable.prefixFor_names made).2
    dsimp only
    rw [made]
    show Ordered u (used ++ ((nameParts? ("ns" ++ toString k ++ ":" ++ last)).map (·.1)).toList)
    rw [nameParts?_numbered]
    exact ordered

theorem usedPrefixes_cons (x : Triple) (ts : List Triple) : usedPrefixes (x :: ts) =
    x.texts.flatMap (fun text => ((nameParts? text).map (·.1)).toList) ++ usedPrefixes ts := by
  rw [usedPrefixes, List.flatMap_cons, List.filterMap_append, List.filterMap_eq_flatMap_toList]
  rfl

theorem texts_edge (p : Property) (name : String) (owner value : Nat) :
    (edge p name owner value).texts = [name] := by
  unfold edge
  split <;> rfl

theorem Written.ordered (h : Written known t facts ts t') (ordered : Ordered t used) :
    Ordered t' (used ++ usedPrefixes ts) := by
  induction h generalizing used with
  | done => exact (List.append_nil used).symm ▸ ordered
  | entry _ ih => exact ih ordered
  | isA _ first last _ ih =>
    have both := ih (write_ordered (write_ordered ordered first) last)
    rw [usedPrefixes_cons, classTriple]
    simpa [Triple.texts, Term.texts] using both
  | leads _ named _ ih =>
    have step := ih (write_ordered ordered named)
    rw [usedPrefixes_cons, texts_edge]
    simpa using step

/-! ### Readings by a table -/

/-- A text that stands for an IRI by the entries of the table is read as that IRI. -/
theorem read?_of_stands (h : Ordered t used) (stands : Stands t.entries iri text) :
    read? t.bindings text = some iri := by
  cases stands with
  | full => exact read?_full _ iri
  | @short uri name last present same _ =>
    obtain ⟨k, rfl⟩ : ∃ k : Nat, name = _ := numbered_name h _ present
    have distinct : (t.bindings.map (·.1)).Nodup := by
      rw [PrefixTable.map_fst_bindings, h.names]
      exact List.Nodup.map t.numbered_injective List.nodup_range
    have declared := PrefixTable.lookup_of_mem distinct (List.mem_map_of_mem present)
    have chars : ("ns" ++ toString k ++ ":" ++ last).toList =
        'n' :: ('s' :: (toString k).toList ++ ':' :: last.toList) := by simp
    unfold read?
    rw [nameParts?_numbered, chars, same]
    show (t.bindings.lookup ("ns" ++ toString k)).bind _ = _
    rw [declared]
    rfl

theorem reads_of_expresses (h : Ordered t used) {f : Fact} {x : Triple}
    (expresses : Expresses t.entries f x) : Reads t.bindings f x := by
  cases expresses with
  | isA type meaning => exact .isA (read?_of_stands h type) (read?_of_stands h meaning)
  | leads predicate => exact .leads (read?_of_stands h predicate)

/-- The triples of a query are read as the facts about the documents of the model. -/
theorem triples_read_back {m : Model} {q : Query} (h : ofModel m = .ok q) :
    ∃ facts, Expansion m facts ∧ Legend q facts := by
  obtain ⟨facts, table, expansion, written, prefixes, _, _⟩ := ofModel_writes h
  have ordered : Ordered table ([] ++ usedPrefixes q.template) :=
    written.ordered ⟨rfl, rfl, rfl, rfl, List.nodup_nil, rfl⟩
  refine ⟨facts, expansion, ?_⟩
  constructor <;> rw [prefixes]
  case reads => exact written.expresses.2.imp fun _ _ => reads_of_expresses ordered
  case numbered =>
    rw [PrefixTable.map_fst_bindings, ordered.names, PrefixTable.bindings, List.length_map]
    exact List.map_congr_left fun k _ => by rw [PrefixTable.numbered, ordered.stem]
  case distinct => exact PrefixTable.map_snd_bindings table ▸ ordered.distinct
  case used => exact (PrefixTable.map_fst_bindings table).trans ordered.used

theorem triples_read_back_gallery : ofModel gallery = .ok galleryQuery ∧
    ∃ facts, Expansion gallery facts ∧ Legend galleryQuery facts :=
  ⟨ofModel_gallery, triples_read_back ofModel_gallery⟩

end RdfXmlMapping.Query
