import RdfXmlMapping.Proofs.Schema.Naming
import RdfXmlMapping.Proofs.Schema.Particles

/-!
The references that a schema document makes. All content is written with names that are good, and no
later step spoils them.
-/

namespace RdfXmlMapping.Schema

open Xml (Attributes Element QName)

/-- The attributes whose values name types, groups and attributes. -/
def referenceKeys : List String := ["type", "base", "ref", "memberTypes"]

def referring (attributes : Attributes) : Attributes :=
  attributes.filter fun a => referenceKeys.contains a.1

theorem referring_nil : referring [] = [] := rfl

mutual

/-- The references that an element makes with all it holds. -/
def references : Element → Attributes
  | .node _ attributes children => referring attributes ++ referencesIn children
  | .leaf _ attributes | .text _ attributes _ => referring attributes

def referencesIn : List Element → Attributes
  | [] => []
  | e :: es => references e ++ referencesIn es

end

theorem referencesIn_append (es fs : List Element) :
    referencesIn (es ++ fs) = referencesIn es ++ referencesIn fs := by
  induction es with
  | nil => rfl
  | cons e es ih => simp [referencesIn, ih]

theorem mem_referencesIn {es : List Element} {r : String × String} :
    r ∈ referencesIn es ↔ ∃ e ∈ es, r ∈ references e := by
  induction es with
  | nil => simp [referencesIn]
  | cons e es ih => simp [referencesIn, ih]

theorem particles_eq_map (ps : List Particle) : particles ps = ps.map Particle.toXml := by
  induction ps with
  | nil => rfl
  | cons p ps ih => rw [particles, ih, List.map_cons]

/-- A reference that is good in a state. -/
inductive Written (x : Plan) (s : Progress) : String × String → Prop
  | type {q : QName} : TypeName x s q → Written x s ("type", q.text)
  | base {q : QName} : TypeName x s q → Written x s ("base", q.text)
  | group {q : QName} : GroupName x s q → Written x s ("ref", q.text)
  | members {qs : List QName} : (∀ q ∈ qs, IsSimple q) →
      Written x s ("memberTypes", " ".intercalate (qs.map QName.text))
  | language : Written x s ("ref", "xml:lang")

def Closed (x : Plan) (s : Progress) (es : List Element) : Prop :=
  ∀ r ∈ referencesIn es, Written x s r

variable {x : Plan} {s t : Progress} {es fs : List Element}

theorem Written.mono {r : String × String} (h : Written x s r) (grows : Grows s t) :
    Written x t r := by
  cases h with
  | type good => exact .type (good.mono grows)
  | base good => exact .base (good.mono grows)
  | group good => exact .group (good.mono grows)
  | members good => exact .members good
  | language => exact .language

theorem Closed.mono (h : Closed x s es) (grows : Grows s t) : Closed x t es :=
  fun r member => (h r member).mono grows

theorem closed_iff : Closed x s es ↔ ∀ e ∈ es, Closed x s [e] := by
  simp only [Closed, mem_referencesIn, List.mem_singleton]
  constructor
  · rintro h e member r ⟨_, rfl, inside⟩
    exact h r ⟨_, member, inside⟩
  · rintro h r ⟨e, member, inside⟩
    exact h e member r ⟨e, rfl, inside⟩

theorem closed_nil : Closed x s [] := fun _ member => by cases member

theorem closed_append : Closed x s (es ++ fs) ↔ Closed x s es ∧ Closed x s fs := by
  simp only [Closed, referencesIn_append, List.mem_append, or_imp, forall_and]

theorem closed_cons {e : Element} : Closed x s (e :: es) ↔ Closed x s [e] ∧ Closed x s es :=
  @closed_append x s [e] es

theorem closed_node {name : String} {attributes : Attributes}
    (own : ∀ r ∈ referring attributes, Written x s r) (inner : Closed x s es) :
    Closed x s [.node name attributes es] := by
  intro r member
  rcases List.mem_append.mp (by simpa [referencesIn, references] using member) with h | h
  · exact own r h
  · exact inner r h

theorem closed_leaf {name : String} {attributes : Attributes}
    (own : ∀ r ∈ referring attributes, Written x s r) : Closed x s [.leaf name attributes] := by
  intro r member
  exact own r (by simpa [referencesIn, references] using member)

theorem referring_occurs (o : Occurs) : referring o.attributes = [] := by
  rw [Occurs.attributes, referring]
  split <;> split <;> (try split) <;> simp [referenceKeys]

theorem referring_append (a b : Attributes) : referring (a ++ b) = referring a ++ referring b :=
  List.filter_append ..

theorem closed_documentation (title : Labels) : Closed x s (documentation title) := by
  unfold documentation
  split
  · exact closed_nil
  · refine closed_node (fun r member => by simp [referring] at member) (closed_iff.mpr ?_)
    intro e member r inside
    obtain ⟨entry, _, rfl⟩ := List.mem_map.mp member
    simp [referencesIn, references, referring, referenceKeys] at inside

/-! ### Particles -/

theorem closed_identity : Closed x s [identityParticle] := by
  refine closed_leaf fun r member => ?_
  obtain rfl : r = ("type", "xs:anyURI") := by simpa [referring, referenceKeys] using member
  exact .type (q := builtin "anyURI") (.standard _)

theorem closed_group {q : QName} (good : GroupName x s q) : Closed x s [groupReference q] := by
  refine closed_leaf fun r member => ?_
  obtain rfl : r = ("ref", q.text) := by simpa [referring, referenceKeys] using member
  exact .group good

theorem closed_anonymousType {e : Element} (inner : Closed x s [e]) :
    Closed x s [anonymousType e] :=
  closed_node (fun r member => by simp [referring] at member) inner

variable {name : String} {occurs : Occurs}

theorem referring_named (name : String) (occurs : Occurs) :
    referring (("name", name) :: occurs.attributes) = [] := by
  have named : referring [("name", name)] = [] := by simp [referring, referenceKeys]
  rw [← List.singleton_append, referring_append, named, referring_occurs]
  rfl

theorem closed_named (inner : Closed x s es) :
    Closed x s [.node "xs:element" (("name", name) :: occurs.attributes) es] := by
  refine closed_node (fun r member => ?_) inner
  rw [referring_named] at member
  cases member

theorem closed_element {q : QName} (good : TypeName x s q) :
    Closed x s (particles [.element name q occurs]) := by
  refine closed_leaf fun r member => ?_
  rw [referring_append, referring_occurs] at member
  obtain rfl : r = ("type", q.text) := by simpa [referring, referenceKeys] using member
  exact .type good

theorem closed_union {members : List QName} (good : ∀ q ∈ members, IsSimple q) :
    Closed x s (particles [.union name occurs members]) := by
  refine closed_named (closed_node (fun r member => by simp [referring] at member) ?_)
  refine closed_leaf fun r member => ?_
  obtain rfl : r = ("memberTypes", " ".intercalate (members.map QName.text)) := by
    simpa [referring, referenceKeys] using member
  exact .members good

theorem closed_grouped {q : QName} (good : GroupName x s q) :
    Closed x s (particles [.grouped name occurs q]) :=
  closed_named (closed_anonymousType (closed_group good))

theorem closed_sequence {attributes : Attributes} (none : referring attributes = [])
    (inner : Closed x s es) : Closed x s [.node "xs:sequence" attributes es] :=
  closed_node (fun r member => by rw [none] at member; cases member) inner

theorem closed_nested {content : List Particle} (inner : Closed x s (particles content)) :
    Closed x s (particles [.nested name occurs (.identity :: content)]) := by
  refine closed_named (closed_anonymousType (closed_sequence rfl ?_))
  exact closed_cons.mpr ⟨closed_identity, inner⟩

theorem plainParticle_step {ps : List Primitive} {particle : Particle}
    (h : x.plainParticle name occurs ps s = .ok (particle, t)) :
    Step x s t ∧ Closed x t (particles [particle]) := by
  rw [Plan.plainParticle.eq_def] at h
  split at h
  · obtain ⟨type, _, made, h⟩ := bind_ok h
    cases pure_ok h
    obtain ⟨step, good⟩ := plainType_step made
    exact ⟨step, closed_element good⟩
  next several _ =>
    cases pure_ok h
    refine ⟨.refl x _, closed_union fun q member => ?_⟩
    obtain ⟨p, _, rfl⟩ := List.mem_map.mp (List.mem_eraseDups.mp member)
    exact memberType_simple p

/-! ### Content -/

theorem closed_flatten {parts : List (List Particle)}
    (h : ∀ part ∈ parts, Closed x s (particles part)) : Closed x s (particles parts.flatten) := by
  rw [particles_eq_map, closed_iff]
  intro e member
  obtain ⟨particle, inside, rfl⟩ := List.mem_map.mp member
  obtain ⟨part, present, among⟩ := List.mem_flatten.mp inside
  have whole := h part present
  rw [particles_eq_map, closed_iff] at whole
  exact whole _ (List.mem_map_of_mem among)

/-- The content of properties makes good references only. -/
theorem particles_step (x : Plan) (path : List String) : ∀ chain ps s content t,
    (∀ p ∈ ps, x.model.Declares p) → x.particles path chain ps s = .ok (content, t) →
      Step x s t ∧ Closed x t (particles content) := by
  intro chain
  induction path, chain using content_induction x.model with
  | step path chain nested deeper =>
    intro ps s content t declared h
    obtain ⟨parts, runs, rfl⟩ := particles_ok h
    -- The induction gives its hypotheses only where `member` may enter.
    suffices each : ∀ p ∈ ps, ∀ part s t, x.member path chain p s = .ok (part, t) →
        Step x s t ∧ Closed x t (particles part) by
      obtain ⟨steps, closed⟩ := runs_step (P := fun s part => Closed x s (particles part))
        (fun _ _ _ grows good => good.mono grows) runs each
      exact ⟨steps, closed_flatten closed⟩
    intro p member part s t run
    cases member_ok run with
    | @spliced d ps content _ _ _ target way own run =>
      obtain ⟨⟨known, _⟩, _⟩ := Model.spliceTarget_ok target
      have declared := Model.effectiveProperties_declares (Model.knows_mem known) own
      obtain ⟨step, good⟩ := deeper d.iri way ps _ _ _ declared run
      refine ⟨step, ?_⟩
      split
      · exact good
      · exact closed_sequence (referring_occurs _) good
    | plain _ _ run => exact plainParticle_step run
    | typed _ read run =>
      obtain ⟨known, _⟩ := Model.shapeOf_leads read
      obtain ⟨step, good⟩ := typeOf_step known run
      exact ⟨step, closed_element (.ofClass good)⟩
    | grouped _ read resolved run =>
      obtain ⟨known, _⟩ := Model.shapeOf_leads read
      obtain ⟨step, good⟩ := requestGroup_step ⟨known, Import.Outlook.resolve_none resolved⟩ run
      exact ⟨step, closed_grouped good⟩
    | @nested d content _ _ _ read way run =>
      obtain ⟨known, _⟩ := Model.shapeOf_leads read
      obtain ⟨ps, own, run⟩ := members_ok run
      have declared := Model.effectiveProperties_declares (Model.knows_mem known) own
      obtain ⟨step, good⟩ := nested d.iri way ps _ _ _ declared run
      exact ⟨step, closed_nested good⟩
    | choice _ read run =>
      obtain ⟨step, good⟩ := choiceType_step (declared p member) read run
      exact ⟨step, closed_element good⟩

theorem particles_singleton {path chain : List String} {p : Property} {content : List Particle}
    (h : x.member path chain p s = .ok (content, t)) :
    x.particles path chain [p] s = .ok (content, t) := by
  have one : [p].mapM (x.member path chain) s = .ok ([content], t) := by
    rw [List.mapM_cons, bind_of_ok h]
    rfl
  rw [particles_eq, bind_of_ok one, List.flatten_singleton]
  rfl

theorem member_step {path chain : List String} {p : Property} {content : List Particle}
    (declared : x.model.Declares p) (h : x.member path chain p s = .ok (content, t)) :
    Step x s t :=
  (particles_step x path chain [p] s content t
    (fun _ member => List.mem_singleton.mp member ▸ declared) (particles_singleton h)).1

theorem content_step {c : Class} {content : List Particle} (known : x.model.Knows c)
    (h : x.content c s = .ok (content, t)) : Step x s t ∧ Closed x t (particles content) := by
  obtain ⟨inner, run, rfl⟩ := content_ok h
  obtain ⟨ps, own, run⟩ := members_ok run
  have declared := Model.effectiveProperties_declares (Model.knows_mem known) own
  obtain ⟨step, good⟩ := particles_step x _ _ _ _ _ _ declared run
  exact ⟨step, closed_cons.mpr ⟨closed_identity, good⟩⟩

end RdfXmlMapping.Schema
