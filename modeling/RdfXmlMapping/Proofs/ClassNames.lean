import Mathlib.Data.List.Pairwise
import RdfXmlMapping.Model.Build
import RdfXmlMapping.Proofs.Model.Reference
import RdfXmlMapping.Proofs.NCName

/-!
The names of the classes of a model. Two classes of the model's own specification never share one;
a class of another specification has the name that its own schema gives it. Names are given in the
order of the classes and then as they are reserved, each the first free one of its base, and none
changes (`names_account`).
-/

namespace RdfXmlMapping

/-- A class that belongs to the model's own specification. -/
def Model.Owns (m : Model) (c : Class) : Prop := m.Knows c ∧ m.isForeign c = false

namespace ClassNames

variable {m : Model} {t : ClassNames} {c d : Class} {base : String}

theorem reserve_free : (t.reserve base).1 ∉ t.taken := fresh_free (choice_injective base) t.taken 0

theorem reserve_choice : ∃ n, (t.reserve base).1 = choice base n := ⟨_, rfl⟩

theorem get_congr {u : ClassNames} (same : u.names = t.names) (c : Class) : u.get c = t.get c := by
  rw [get, get, same]

/-- Two names that do not belong to different classes of the model's own specification, unless they
differ. -/
def Apart (m : Model) (e f : String × String) : Prop :=
  ∀ c d, m.Owns c → m.Owns d → c.iri = e.1 → d.iri = f.1 → e.2 ≠ f.2

instance : Std.Symm (Apart m) :=
  ⟨fun _ _ h c d left right at' at'' => (h d c right left at'' at').symm⟩

/-- The names given to the classes seen so far. -/
structure Fits (m : Model) (seen : List Class) (t : ClassNames) : Prop where
  named : ∀ iri, (∃ e ∈ t.names, e.1 = iri) ↔ ∃ c ∈ seen, c.iri = iri
  each : ∀ e ∈ t.names, ∃ c, m.Knows c ∧ c.iri = e.1 ∧
    (m.isForeign c → e.2 = toNCName c.label) ∧
    (m.isForeign c = false → e.2 ∈ t.taken ∧ e.2 ≠ languageTextType)
  chosen : ∀ e ∈ t.names, ∃ c n, m.Knows c ∧ c.iri = e.1 ∧ e.2 = choice (toNCName c.label) n
  distinct : t.names.Pairwise (Apart m)
  reserved : languageTextType ∈ t.taken

theorem knows_of_new {seen rest : List Class} (whole : m.classes = seen ++ c :: rest)
    (new : ¬ ∃ d ∈ seen, d.iri = c.iri) : m.Knows c := by
  have skipped : seen.find? (·.iri == c.iri) = none := find?_key_none new
  rw [Model.Knows, Model.find?, whole, List.find?_append, skipped]
  simp

/-- A name is given to one more class: that of its own schema, or one that was free. -/
theorem Fits.give {seen : List Class} (h : Fits m seen t) (known : m.Knows c) {name : String}
    {taken : List String} (old : t.taken ⊆ taken) {n : Nat}
    (chosen : name = choice (toNCName c.label) n)
    (foreign : m.isForeign c → name = toNCName c.label)
    (own : m.isForeign c = false → name ∈ taken ∧ name ∉ t.taken) :
    Fits m (seen ++ [c]) { names := t.names ++ [(c.iri, name)], taken } where
  named := by
    intro iri
    have before := h.named iri
    simp only [List.mem_append, List.mem_singleton, or_and_right, exists_or, exists_eq_left, before]
  each := by
    intro e member
    rcases List.mem_append.mp member with among | last
    · obtain ⟨d, found, same, imported, kept⟩ := h.each e among
      exact ⟨d, found, same, imported, fun owned => ⟨old (kept owned).1, (kept owned).2⟩⟩
    · obtain rfl := List.mem_singleton.mp last
      refine ⟨c, known, rfl, foreign, fun owned => ⟨(own owned).1, ?_⟩⟩
      rintro rfl
      exact (own owned).2 h.reserved
  chosen := by
    intro e member
    rcases List.mem_append.mp member with among | last
    · exact h.chosen e among
    · obtain rfl := List.mem_singleton.mp last
      exact ⟨c, n, known, rfl, chosen⟩
  distinct := by
    refine List.pairwise_append.mpr ⟨h.distinct, List.pairwise_singleton .., ?_⟩
    intro e member f last d d' owned owned' first second same
    obtain rfl := List.mem_singleton.mp last
    -- The older name is taken, and the new one was free.
    obtain ⟨d'', found, at', _, kept⟩ := h.each e member
    obtain rfl := Model.knows_eq found owned.1 (at'.trans first.symm)
    obtain rfl := Model.knows_eq owned'.1 known second
    have present := (kept owned.2).1
    rw [same] at present
    exact (own owned'.2).2 present
  reserved := old h.reserved

theorem fits_add {seen rest : List Class} (whole : m.classes = seen ++ c :: rest)
    (h : Fits m seen t) : Fits m (seen ++ [c]) (add m t c) := by
  have any_iff : t.names.any (·.1 == c.iri) = true ↔ ∃ d ∈ seen, d.iri = c.iri := by
    rw [← h.named c.iri, List.any_eq_true]
    simp only [beq_iff_eq]
  unfold add
  split
  next old =>
    obtain ⟨d, member, same⟩ := any_iff.mp old
    refine { h with named := fun iri => ?_ }
    rw [h.named]
    simp only [List.mem_append, List.mem_singleton, or_and_right, exists_or, exists_eq_left]
    exact ⟨.inl, fun either => either.elim id fun last => ⟨d, member, same.trans last⟩⟩
  next new =>
    have known : m.Knows c := knows_of_new whole (mt any_iff.mpr new)
    split
    next foreign =>
      exact h.give known (List.Subset.refl _) (n := 0) rfl (fun _ => rfl)
        fun own => absurd foreign (Bool.eq_false_iff.mp own)
    next own =>
      exact h.give known (List.subset_cons_self _ _) rfl (fun foreign => absurd foreign own)
        fun _ => ⟨List.mem_cons_self, reserve_free⟩

theorem ofModel_fits (m : Model) : Fits m m.classes (ofModel m) := by
  have step : ∀ rest seen : List Class, m.classes = seen ++ rest → ∀ t, Fits m seen t →
      Fits m m.classes (rest.foldl (add m) t) := by
    intro rest
    induction rest with
    | nil =>
      intro seen whole t h
      rw [List.append_nil] at whole
      exact whole ▸ h
    | cons c rest ih =>
      intro seen whole t h
      exact ih (seen ++ [c]) (by simpa using whole) _ (fits_add whole h)
  exact step m.classes [] rfl _ ⟨by simp, by simp, by simp, .nil, List.mem_cons_self⟩

theorem get_entry (known : m.Knows c) :
    ∃ e ∈ (ofModel m).names, e.1 = c.iri ∧ (ofModel m).get c = e.2 := by
  obtain ⟨e, member, same, found⟩ :=
    find?_key Prod.fst (((ofModel_fits m).named c.iri).mpr ⟨c, Model.knows_mem known, rfl⟩)
  refine ⟨e, member, same, ?_⟩
  rw [get, found]
  rfl

theorem get_foreign (known : m.Knows c) (foreign : m.isForeign c) :
    (ofModel m).get c = toNCName c.label := by
  obtain ⟨e, member, same, read⟩ := get_entry known
  obtain ⟨d, found, at', named, _⟩ := (ofModel_fits m).each e member
  obtain rfl := Model.knows_eq found known (at'.trans same)
  exact read.trans (named foreign)

theorem get_choice (known : m.Knows c) : ∃ n, (ofModel m).get c = choice (toNCName c.label) n := by
  obtain ⟨e, member, same, read⟩ := get_entry known
  obtain ⟨d, n, found, at', named⟩ := (ofModel_fits m).chosen e member
  obtain rfl := Model.knows_eq found known (at'.trans same)
  exact ⟨n, read.trans named⟩

theorem get_own (owned : m.Owns c) :
    (ofModel m).get c ∈ (ofModel m).taken ∧ (ofModel m).get c ≠ languageTextType := by
  obtain ⟨e, member, same, read⟩ := get_entry owned.1
  obtain ⟨d, found, at', _, kept⟩ := (ofModel_fits m).each e member
  obtain rfl := Model.knows_eq found owned.1 (at'.trans same)
  exact read ▸ kept owned.2

theorem get_injective (left : m.Owns c) (right : m.Owns d)
    (same : (ofModel m).get c = (ofModel m).get d) : c = d := by
  obtain ⟨e, first, at', read⟩ := get_entry left.1
  obtain ⟨f, second, at'', read'⟩ := get_entry right.1
  by_contra different
  have apart : e ≠ f := by
    rintro rfl
    exact different (Model.knows_eq left.1 right.1 (at'.symm.trans at''))
  have other := (ofModel_fits m).distinct.forall first second apart
  exact other c d left right at'.symm at''.symm (read.symm.trans (same.trans read'))

/-! ### Characters -/

theorem choice_part (part : ∀ c ∈ base.toList, NCName.isPart c) (n : Nat) :
    ∀ c ∈ (choice base n).toList, NCName.isPart c := by
  cases n with
  | zero => exact part
  | succ n =>
    intro c member
    rw [choice, String.toList_append] at member
    rcases List.mem_append.mp member with first | digit
    · exact part c first
    · exact NCName.isPart_of_isDigit (toString_digits _ c digit)

theorem get_part (known : m.Knows c) : ∀ ch ∈ ((ofModel m).get c).toList, NCName.isPart ch := by
  obtain ⟨n, read⟩ := get_choice known
  exact read ▸ choice_part (toNCName_part c.label) n

/-! ### The order of names -/

/-- The name that is the first free one of its base: the base itself, or the base with the smallest
number from 2 on that makes it free. -/
inductive FirstFree (taken : List String) (base : String) : String → Prop
  | itself : base ∉ taken → FirstFree taken base base
  | suffixed {n : Nat} : base ∈ taken → 2 ≤ n → base ++ toString n ∉ taken →
      (∀ k, 2 ≤ k → k < n → base ++ toString k ∈ taken) →
      FirstFree taken base (base ++ toString n)

/-- Names given one after the other, each taken from then on: what was taken before, the bases with
their names, and what is taken after. -/
inductive Given : List String → List String → List String → List String → Prop
  | nil {taken : List String} : Given taken [] [] taken
  | cons {taken bases names after : List String} {base name : String} : FirstFree taken base name →
      Given (name :: taken) bases names after → Given taken (base :: bases) (name :: names) after

/-- The names reserved for bases one after the other. -/
def reserveAll (t : ClassNames) : List String → List String × ClassNames
  | [] => ([], t)
  | base :: bases =>
    let (name, t) := t.reserve base
    let (names, t) := t.reserveAll bases
    (name :: names, t)

def ownClasses (m : Model) : List Class := m.classes.filter fun c => !m.isForeign c

variable {u : ClassNames} {cs : List Class} {name : String}
  {taken between after bases given bases' given' : List String}

/-! #### Names one after the other -/

theorem given_append (h : Given taken bases given between)
    (h' : Given between bases' given' after) :
    Given taken (bases ++ bases') (given ++ given') after := by
  induction h with
  | nil => exact h'
  | cons first _ ih => exact .cons first (ih h')

theorem FirstFree.notMem (h : FirstFree taken base name) : name ∉ taken := by
  cases h with
  | itself free => exact free
  | suffixed _ _ free _ => exact free

theorem given_distinct (h : Given taken bases given after) :
    given.Nodup ∧ ∀ name ∈ given, name ∉ taken := by
  induction h with
  | nil => exact ⟨List.nodup_nil, fun _ member => by cases member⟩
  | @cons taken bases given after base name first _ ih =>
    obtain ⟨distinct, fresh⟩ := ih
    refine ⟨List.nodup_cons.mpr ⟨fun again => fresh name again List.mem_cons_self, distinct⟩, ?_⟩
    intro other member
    rcases List.mem_cons.mp member with rfl | later
    · exact first.notMem
    · exact mt (List.mem_cons_of_mem name) (fresh other later)

/-! #### Reservations -/

theorem stops_firstFree {n : Nat} (h : Stops (choice base) taken 0 n) :
    FirstFree taken base (choice base n) := by
  obtain ⟨-, free, passed⟩ := h.least
  cases n with
  | zero => exact .itself free
  | succ n =>
    refine .suffixed (passed 0 (Nat.le_refl 0) (by omega)) (by omega) free fun k low high => ?_
    obtain ⟨j, rfl⟩ := Nat.exists_eq_add_of_le' low
    exact passed (j + 1) (by omega) (by omega)

theorem reserve_stops (t : ClassNames) (base : String) :
    ∃ n, Stops (choice base) t.taken 0 n ∧ (t.reserve base).1 = choice base n :=
  ⟨_, fresh_stops (choice_injective base) t.taken 0, rfl⟩

theorem reserve_firstFree (t : ClassNames) (base : String) :
    FirstFree t.taken base (t.reserve base).1 := by
  obtain ⟨n, stops, same⟩ := reserve_stops t base
  exact same ▸ stops_firstFree stops

theorem reserveAll_given (t : ClassNames) (bases : List String) :
    Given t.taken bases (t.reserveAll bases).1 (t.reserveAll bases).2.taken := by
  induction bases generalizing t with
  | nil => exact .nil
  | cons base bases ih => exact .cons (reserve_firstFree t base) (ih (t.reserve base).2)

theorem reserveAll_names (t : ClassNames) (bases : List String) :
    (t.reserveAll bases).2.names = t.names := by
  induction bases generalizing t with
  | nil => rfl
  | cons base bases ih => exact ih (t.reserve base).2

/-! #### The names of classes -/

theorem add_extends (m : Model) (t : ClassNames) (c : Class) : t.names <+: (add m t c).names := by
  unfold add
  split
  · exact List.prefix_refl _
  · split
    · exact List.prefix_append _ _
    · exact List.prefix_append _ _

theorem foldl_add_extends (m : Model) (t : ClassNames) (cs : List Class) :
    t.names <+: (cs.foldl (add m) t).names := foldl_prefix (add_extends m) t cs

/-- A class that has a name keeps it when names are added. -/
theorem get_extends (more : t.names <+: u.names) (named : c.iri ∈ t.names.map (·.1)) :
    u.get c = t.get c := by
  obtain ⟨_, _, _, found⟩ := find?_key Prod.fst (List.mem_map.mp named)
  obtain ⟨rest, whole⟩ := more
  rw [get, get, ← whole, List.find?_append, found]
  rfl

/-- A class without a name is given one behind all others: its label if it is foreign, and else the
first free name. -/
inductive Added (m : Model) (t : ClassNames) (c : Class) : String → ClassNames → Prop
  | foreign : m.isForeign c → Added m t c (toNCName c.label)
      { t with names := t.names ++ [(c.iri, toNCName c.label)] }
  | own {name : String} : m.isForeign c = false → FirstFree t.taken (toNCName c.label) name →
      Added m t c name { names := t.names ++ [(c.iri, name)], taken := name :: t.taken }

theorem add_added (m : Model) (new : c.iri ∉ t.names.map (·.1)) :
    ∃ name, Added m t c name (add m t c) := by
  unfold add
  split
  next known =>
    obtain ⟨e, member, same⟩ := List.any_eq_true.mp known
    exact absurd (List.mem_map.mpr ⟨e, member, beq_iff_eq.mp same⟩) new
  next =>
    split
    next foreign => exact ⟨_, .foreign foreign⟩
    next own => exact ⟨_, .own (Bool.eq_false_iff.mpr own) (reserve_firstFree t _)⟩

theorem Added.names (h : Added m t c name u) : u.names = t.names ++ [(c.iri, name)] := by
  cases h <;> rfl

theorem Added.get (h : Added m t c name u) (new : c.iri ∉ t.names.map (·.1)) : u.get c = name := by
  have absent : t.names.find? (·.1 == c.iri) = none := find?_key_none (mt List.mem_map.mpr new)
  simp [ClassNames.get, h.names, List.find?_append, absent]

/-- The classes of the model's own specification have their names one after the other. -/
theorem foldl_add_given (m : Model) (distinct : (cs.map (·.iri)).Nodup)
    (new : ∀ c ∈ cs, c.iri ∉ t.names.map (·.1)) :
    Given t.taken ((cs.filter fun c => !m.isForeign c).map fun c => toNCName c.label)
      ((cs.filter fun c => !m.isForeign c).map (cs.foldl (add m) t).get)
      (cs.foldl (add m) t).taken := by
  induction cs generalizing t with
  | nil => exact .nil
  | cons c cs ih =>
    obtain ⟨others, distinct⟩ := List.nodup_cons.mp distinct
    have unnamed := new c List.mem_cons_self
    obtain ⟨name, added⟩ := add_added m unnamed
    have rest := ih (t := add m t c) distinct fun d member known => by
      rw [added.names, List.map_append] at known
      rcases List.mem_append.mp known with old | last
      · exact new d (List.mem_cons_of_mem c member) old
      · exact others (List.mem_singleton.mp last ▸ List.mem_map_of_mem member)
    have kept : (cs.foldl (add m) (add m t c)).get c = name :=
      (get_extends (foldl_add_extends m _ cs) (by simp [added.names])).trans (added.get unnamed)
    rw [List.foldl_cons]
    generalize add m t c = u at *
    cases added with
    | foreign foreign => simpa [foreign] using rest
    | own own first =>
      rw [List.filter_cons_of_pos (by simp [own]), List.map_cons, List.map_cons, kept]
      exact .cons first rest

theorem ofModel_named (known : c ∈ m.classes) : c.iri ∈ (ofModel m).names.map (·.1) := by
  obtain ⟨e, member, same⟩ := ((ofModel_fits m).named c.iri).mpr ⟨c, known, rfl⟩
  exact List.mem_map.mpr ⟨e, member, same⟩

/-- Classes at the end of a model change the name of no class before them. -/
theorem ofModel_append (m : Model) (more : List Class) (known : c ∈ m.classes) :
    (ofModel { m with classes := m.classes ++ more }).get c = (ofModel m).get c := by
  have whole : ofModel { m with classes := m.classes ++ more } =
      more.foldl (add m) (ofModel m) := List.foldl_append
  rw [whole]
  exact get_extends (foldl_add_extends m _ more) (ofModel_named known)

/-- The names of the model's own classes and all names reserved after them are given one after the
other, so they are pairwise distinct and none is reserved for the schema itself. Every search for a
name ends. Neither a reservation nor a class at the end of the model changes the name of a class. -/
theorem names_account (distinct : (m.classes.map (·.iri)).Nodup) (bases : List String) :
    let served := (ofModel m).reserveAll bases
    let names := (ownClasses m).map served.2.get ++ served.1
    Given [languageTextType, identityElement]
        ((ownClasses m).map (fun c => toNCName c.label) ++ bases) names served.2.taken ∧
      names.Nodup ∧ languageTextType ∉ names ∧ identityElement ∉ names ∧
      (∀ (t : ClassNames) base,
        ∃ n, Stops (choice base) t.taken 0 n ∧ (t.reserve base).1 = choice base n) ∧
      (∀ c, served.2.get c = (ofModel m).get c) ∧
      ∀ more, ∀ c ∈ m.classes,
        (ofModel { m with classes := m.classes ++ more }).get c = (ofModel m).get c := by
  intro served names
  have kept : ∀ c, served.2.get c = (ofModel m).get c :=
    get_congr (reserveAll_names (ofModel m) bases)
  have classes := foldl_add_given (t := {}) m distinct fun _ _ known => by cases known
  have same : (ownClasses m).map served.2.get = (ownClasses m).map (ofModel m).get :=
    List.map_congr_left fun c _ => kept c
  have given : Given [languageTextType, identityElement]
      ((ownClasses m).map (fun c => toNCName c.label) ++ bases) names served.2.taken := by
    rw [show names = (ownClasses m).map (ofModel m).get ++ served.1 from same ▸ rfl]
    exact given_append classes (reserveAll_given _ bases)
  obtain ⟨apart, fresh⟩ := given_distinct given
  exact ⟨given, apart, fun member => fresh _ member List.mem_cons_self,
    fun member => fresh _ member (by simp), reserve_stops, kept,
    fun more _ known => ofModel_append m more known⟩

/-- Things of two vocabularies, a label that is the second name of another, and a foreign class. -/
def things : Model :=
  (Model.make "things" "own").declaring (Class.make "a" "Thing")
    |>.declaring (Class.make "b" "Thing2") |>.declaring (Class.make "c" "Thing")
    |>.declaring ((Class.make "d" "Thing").ownedBy "other" "things")
    |>.declaring (Class.make "e" "langString")

theorem names_account_things : (things.classes.map (·.iri)).Nodup ∧
    ((ownClasses things).map (ofModel things).get ++
      ((ofModel things).reserveAll ["Thing", "iri"]).1) =
        ["Thing", "Thing2", "Thing3", "langString2", "Thing4", "iri2"] ∧
    (ofModel { things with classes := things.classes ++ [Class.make "f" "Thing"] }).get
      (Class.make "c" "Thing") = "Thing3" := by
  have distinct : (things.classes.map (·.iri)).Nodup := by decide
  obtain ⟨_, _, _, _, _, _, stable⟩ := names_account distinct ["Thing", "iri"]
  refine ⟨distinct, by decide +kernel, ?_⟩
  rw [stable [Class.make "f" "Thing"] (Class.make "c" "Thing") (by decide +kernel)]
  decide +kernel

end ClassNames

end RdfXmlMapping
