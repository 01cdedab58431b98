import RdfXmlMapping.Proofs.Model.Reference
import RdfXmlMapping.Proofs.PrefixTable
import RdfXmlMapping.Proofs.Query.Template
import RdfXmlMapping.Unicode.Ranges

/-!
The terms of a query. Each is a variable or stands for an IRI: in full, or by a prefix of the query
(`Written.expresses`).
-/

namespace RdfXmlMapping

/-- An IRI that can be written between angle brackets. -/
def Plain (iri : String) : Prop :=
  ∀ c ∈ iri.toList, c ≠ '<' ∧ c ≠ '>' ∧ Unicode.isBlank c = false

instance {iri : String} : Decidable (Plain iri) := List.decidableBAll _ _

/-- All IRIs of the model for classes and predicates can be written between angle brackets. -/
structure Model.PlainIris (m : Model) : Prop where
  meaning : ∀ c ∈ m.classes, ∀ iri ∈ c.meaning, Plain iri
  predicate : ∀ p, m.Declares p → Plain p.predicate

theorem plain_append {left right : String} : Plain (left ++ right) ↔ Plain left ∧ Plain right := by
  rw [Plain, String.toList_append, List.forall_mem_append]
  rfl

namespace Query

/-! ### IRIs as they are written -/

variable {t t' : PrefixTable} {iri uri text : String} {entries entries' : List (String × String)}

/-- A text that stands for an IRI where the entries give namespaces their prefixes. -/
inductive Stands (entries : List (String × String)) (iri : String) : String → Prop
  | short {uri name last : String} : (uri, name) ∈ entries → iri = uri ++ last →
      ':' ∉ last.toList → Stands entries iri (name ++ ":" ++ last)
  | full : Stands entries iri ("<" ++ iri ++ ">")

theorem Stands.mono (h : Stands entries iri text) (more : entries ⊆ entries') :
    Stands entries' iri text := by
  cases h with
  | short present same plain => exact .short (more present) same plain
  | full => exact .full

theorem write_stands (h : t.write iri = (text, t')) : t.Grows t' ∧ Stands t'.entries iri text := by
  obtain ⟨rfl, rfl⟩ := Prod.mk.inj h
  rcases named : t.qualify iri with ⟨_ | name, u⟩
  · obtain rfl := PrefixTable.qualify_none named
    exact ⟨.refl _, .full⟩
  · obtain ⟨more, uri, own, last, present, rfl, rfl, part⟩ := PrefixTable.qualify_names named
    exact ⟨more, .short present rfl (not_mem_of_isPart part (by decide))⟩

/-- The triple says the fact by texts that stand for its IRIs. -/
inductive Expresses (entries : List (String × String)) : Fact → Triple → Prop
  | isA {place : Place} {iri meaning a b : String} {n : Nat} :
      Stands entries Vocabulary.rdfType a → Stands entries meaning b →
      Expresses entries (.isA place iri meaning) (classTriple n a b)
  | leads {owner value : Place} {iri name : String} {p : Property} {u n : Nat} :
      Stands entries p.predicate name →
      Expresses entries (.leads owner iri p value) (edge p name u n)

theorem Expresses.mono {f : Fact} {x : Triple} (h : Expresses entries f x)
    (more : entries ⊆ entries') : Expresses entries' f x := by
  cases h with
  | isA type meaning => exact .isA (type.mono more) (meaning.mono more)
  | leads predicate => exact .leads (predicate.mono more)

theorem Written.expresses {known : List Place} {facts : List Fact} {ts : List Triple}
    (h : Written known t facts ts t') :
    t.Grows t' ∧ List.Forall₂ (Expresses t'.entries) (statements facts) ts := by
  induction h with
  | done => exact ⟨.refl _, .nil⟩
  | entry _ ih => exact ih
  | isA _ first last _ ih =>
    obtain ⟨grows, type⟩ := write_stands first
    obtain ⟨grows', meaning⟩ := write_stands last
    obtain ⟨more, rest⟩ := ih
    exact ⟨grows.trans (grows'.trans more), .cons
      (.isA (type.mono (grows'.trans more).entries) (meaning.mono more.entries)) rest⟩
  | leads _ named _ ih =>
    obtain ⟨grows, predicate⟩ := write_stands named
    obtain ⟨more, rest⟩ := ih
    exact ⟨grows.trans more, .cons (.leads (predicate.mono more.entries)) rest⟩

/-! ### Plain IRIs -/

theorem plain_rdfType : Plain Vocabulary.rdfType := by decide

def Fact.HasPlainIris : Fact → Prop
  | entry _ => True
  | isA _ _ meaning => Plain meaning
  | leads _ _ p _ => Plain p.predicate

/-- The classes and properties of the topic are those of the model. -/
def Topic.Known (m : Model) : Topic → Prop
  | cls _ c => m.Knows c
  | properties _ _ _ ps => ∀ p ∈ ps, m.Declares p
  | candidates _ cs => ∀ c ∈ cs, m.Knows c

variable {m : Model} {place : Place} {topic : Topic} {facts : List Fact} {k : Nat}
  {groups : List (List String)}

theorem targets_knows {p : Property} {shape : Shape} (h : m.shapeOf p = .ok shape) :
    ∀ c ∈ shape.targets, m.Knows c := by
  have leads := Model.shapeOf_leads h
  intro c member
  cases shape with
  | primitive _ => cases member
  | single target => exact List.mem_singleton.mp member ▸ leads.1
  | choice plan => exact (leads.1 c member).1

theorem FactsOf.plain (h : FactsOf m place topic facts) (plain : m.PlainIris)
    (known : topic.Known m) : ∀ f ∈ facts, f.HasPlainIris := by
  induction h with
  | noProperty | noCandidate => exact fun f member => by cases member
  | @cls _ _ c _ _ _ inherited _ ih =>
    have present := Model.knows_mem known
    intro f member
    rcases List.mem_append.mp member with stated | member
    · obtain ⟨meaning, read, rfl⟩ := List.mem_map.mp stated
      exact plain.meaning c present meaning (Option.mem_toList.mp read)
    · exact ih (Model.effectiveProperties_declares present inherited) f member
  | property read _ _ below rest =>
    obtain ⟨first, others⟩ := List.forall_mem_cons.mp known
    intro f member
    rcases List.mem_append.mp member with here | later
    · rcases List.mem_cons.mp here with rfl | inner
      · exact plain.predicate _ first
      · exact below (targets_knows read) f inner
    · exact rest others f later
  | candidate _ _ first rest =>
    obtain ⟨one, others⟩ := List.forall_mem_cons.mp known
    exact List.forall_mem_append.mpr ⟨first one, rest others⟩

theorem GroupFacts.plain (h : GroupFacts m k groups facts) (plain : m.PlainIris) :
    ∀ f ∈ facts, f.HasPlainIris := by
  induction h with
  | noGroup => exact fun f member => by cases member
  | group found described _ rest =>
    have known : ∀ c ∈ _, m.Knows c := fun c member => by
      obtain ⟨_, _, read⟩ := forall₂_mem_right found member
      exact (Model.find?_knows read).1
    exact List.forall_mem_append.mpr
      ⟨List.forall_mem_cons.mpr ⟨trivial, described.plain plain known⟩, rest⟩

theorem write_plain (h : t.write iri = (text, t')) (keys : ∀ e ∈ t.entries, Plain e.1)
    (plain : Plain iri) : ∀ e ∈ t'.entries, Plain e.1 := by
  obtain ⟨rfl, rfl⟩ := Prod.mk.inj h
  intro e member
  rcases PrefixTable.mem_qualify member with old | ⟨last, rfl⟩
  · exact keys e old
  · exact (plain_append.mp plain).1

theorem Written.plain {known : List Place} {ts : List Triple} (h : Written known t facts ts t')
    (keys : ∀ e ∈ t.entries, Plain e.1) (plain : ∀ f ∈ facts, f.HasPlainIris) :
    ∀ e ∈ t'.entries, Plain e.1 := by
  induction h with
  | done => exact keys
  | entry _ ih => exact ih keys (List.forall_mem_cons.mp plain).2
  | isA _ first last _ ih =>
    obtain ⟨here, rest⟩ := List.forall_mem_cons.mp plain
    exact ih (write_plain last (write_plain first keys plain_rdfType) here) rest
  | leads _ named _ ih =>
    obtain ⟨here, rest⟩ := List.forall_mem_cons.mp plain
    exact ih (write_plain named keys here) rest

/-! ### Terms -/

/-- What a term means where the entries give namespaces their prefixes: a variable, or an IRI. -/
def Term.Means (entries : List (String × String)) (meaning : String) : Term → Prop
  | .var n => meaning = "?v" ++ toString n
  | .iri text => Plain meaning ∧ Stands entries meaning text
  | .type text => meaning = Vocabulary.rdfType ∧ Stands entries meaning text

/-- The terms of the triple have meanings. -/
structure Triple.Means (entries : List (String × String)) (s p o : String) (t : Triple) : Prop where
  subject : t.subject.Means entries s
  predicate : t.predicate.Means entries p
  object : t.object.Means entries o

theorem Expresses.means {f : Fact} {x : Triple} (h : Expresses entries f x)
    (plain : f.HasPlainIris) : ∃ a b c, x.Means entries a b c := by
  cases h with
  | isA type meaning => exact ⟨_, _, _, rfl, ⟨rfl, type⟩, ⟨plain, meaning⟩⟩
  | @leads _ _ _ _ p _ _ predicate =>
    unfold edge
    cases p.isReverse <;> exact ⟨_, _, _, rfl, ⟨plain, predicate⟩, rfl⟩

/-- A query as it is made of a model: the template lists the triples of the pattern, and all their
terms have a meaning by the prefixes of the query, no two of which are the same. -/
structure Meaningful (q : RdfXmlMapping.Query) (entries : List (String × String)) : Prop where
  prefixes : q.prefixes = entries.map fun (uri, name) => (name, uri)
  template : q.template = groupTriples q.pattern
  means : ∀ t ∈ q.template, ∃ a b c, t.Means entries a b c
  named : ∀ e ∈ entries, ∃ n : Nat, e.2 = "ns" ++ toString n
  distinct : (entries.map (·.2)).Nodup
  plain : ∀ e ∈ entries, Plain e.1

theorem ofModel_meaningful (plain : m.PlainIris) {q : RdfXmlMapping.Query} (h : ofModel m = .ok q) :
    ∃ entries, Meaningful q entries := by
  obtain ⟨facts, table, expansion, written, prefixes, _, template⟩ := ofModel_writes h
  obtain ⟨grows, expressed⟩ := written.expresses
  have sound := grows.sound (PrefixTable.sound_empty "ns" [])
  have plain := GroupFacts.plain expansion plain
  refine ⟨table.entries, prefixes, template, fun t member => ?_, fun e member => ?_, sound.distinct,
    written.plain (fun e none => by cases none) plain⟩
  · obtain ⟨f, stated, expresses⟩ := forall₂_mem_right expressed member
    exact expresses.means (plain f (List.mem_of_mem_filter stated))
  · obtain ⟨n, _, same⟩ := sound.named e member
    exact ⟨n, by rw [same, PrefixTable.numbered, grows.stem]⟩

end Query

end RdfXmlMapping
