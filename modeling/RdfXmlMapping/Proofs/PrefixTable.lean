import RdfXmlMapping.Proofs.FirstOccurrences
import RdfXmlMapping.Proofs.NCName

/-!
Tables of prefixes. Every prefix that a table hands out is the stem with a number of its own and is
none of those reserved, and a name keeps standing for its IRI however the table grows
(`qualify_names`). The namespaces stand in the order in which they were asked for, and what has been
handed out stays good for ever (`requests_account`).
-/

namespace RdfXmlMapping.PrefixTable

variable {t u v : PrefixTable} {iri uri name own : String}

/-- What holds of every table that prefixes have been asked from. -/
structure Sound (t : PrefixTable) : Prop where
  named : ∀ e ∈ t.entries, ∃ n < t.next, e.2 = t.numbered n
  free : ∀ e ∈ t.entries, e.2 ∉ t.reserved
  distinct : (t.entries.map (·.2)).Nodup

/-- A table after more prefixes have been asked from it. -/
structure Grows (t u : PrefixTable) : Prop where
  stem : u.stem = t.stem
  reserved : u.reserved = t.reserved
  entries : t.entries ⊆ u.entries
  sound : Sound t → Sound u

theorem Grows.refl (t : PrefixTable) : Grows t t := ⟨rfl, rfl, List.Subset.refl _, id⟩

theorem Grows.trans (h : Grows t u) (h' : Grows u v) : Grows t v where
  stem := h'.stem.trans h.stem
  reserved := h'.reserved.trans h.reserved
  entries := List.Subset.trans h.entries h'.entries
  sound := h'.sound ∘ h.sound

theorem sound_empty (stem : String) (reserved : List String) : Sound { stem, reserved } where
  named := fun _ member => by cases member
  free := fun _ member => by cases member
  distinct := List.nodup_nil

theorem map_fst_bindings (t : PrefixTable) : t.bindings.map (·.1) = t.entries.map (·.2) := by
  rw [bindings, List.map_map]
  rfl

theorem map_snd_bindings (t : PrefixTable) : t.bindings.map (·.2) = t.entries.map (·.1) := by
  rw [bindings, List.map_map]
  rfl

theorem lookup_of_mem {prefixes : List (String × String)} (distinct : (prefixes.map (·.1)).Nodup)
    (member : (own, uri) ∈ prefixes) : prefixes.lookup own = some uri := by
  obtain ⟨before, after, rfl⟩ := List.append_of_mem member
  refine List.lookup_eq_some_iff.mpr ⟨before, after, rfl, fun e earlier => ?_⟩
  rw [List.map_append] at distinct
  have apart : e.1 ≠ own := fun same =>
    List.disjoint_of_nodup_append distinct (List.mem_map_of_mem earlier) (same ▸ List.mem_cons_self)
  simpa using apart.symm

theorem numbered_injective (t : PrefixTable) : Function.Injective t.numbered := by
  intro m n same
  exact toString_injective ((String.append_right_inj _).mp same)

/-- An entry under a new number keeps a table sound. -/
theorem sound_snoc (sound : Sound t) {n : Nat} (later : t.next ≤ n)
    (free : t.numbered n ∉ t.reserved) :
    Sound { t with entries := t.entries ++ [(uri, t.numbered n)], next := n + 1 } where
  named := by
    intro e member
    rcases List.mem_append.mp member with old | new
    · obtain ⟨k, small, same⟩ := sound.named e old
      exact ⟨k, Nat.lt_succ_of_lt (Nat.lt_of_lt_of_le small later), same⟩
    · obtain rfl := List.mem_singleton.mp new
      exact ⟨n, Nat.lt_succ_self n, rfl⟩
  free := by
    intro e member
    rcases List.mem_append.mp member with old | new
    · exact sound.free e old
    · obtain rfl := List.mem_singleton.mp new
      exact free
  distinct := by
    rw [List.map_append]
    refine List.Nodup.append sound.distinct (List.nodup_singleton _) ?_
    intro name old new
    obtain ⟨e, present, rfl⟩ := List.mem_map.mp old
    obtain ⟨k, small, same⟩ := sound.named e present
    have equal : k = n := t.numbered_injective (same.symm.trans (List.mem_singleton.mp new))
    exact absurd (equal ▸ small) (Nat.not_lt.mpr later)

/-- What a request for the prefix of a namespace does: the prefix and the table after it. -/
inductive Assigned (t : PrefixTable) (uri : String) : String → PrefixTable → Prop
  | known {own : String} : (uri, own) ∈ t.entries → Assigned t uri own t
  | new {n : Nat} : uri ∉ t.entries.map (·.1) → Stops t.numbered t.reserved t.next n →
      Assigned t uri (t.numbered n)
        { t with entries := t.entries ++ [(uri, t.numbered n)], next := n + 1 }

theorem prefixFor_assigned (t : PrefixTable) (uri : String) :
    Assigned t uri (t.prefixFor uri).1 (t.prefixFor uri).2 := by
  unfold prefixFor
  cases found : t.find? uri with
  | some own =>
    obtain ⟨⟨key, own'⟩, first, rfl⟩ := Option.map_eq_some_iff.mp found
    obtain rfl : key = uri := beq_iff_eq.mp (List.find?_some first :)
    exact .known (List.mem_of_find?_eq_some first)
  | none =>
    refine .new (fun old => ?_) (fresh_stops t.numbered_injective t.reserved t.next)
    obtain ⟨e, member, same⟩ := List.mem_map.mp old
    exact List.find?_eq_none.mp (Option.map_eq_none_iff.mp found) e member (beq_iff_eq.mpr same)

/-- The namespace has its prefix from now on. -/
theorem prefixFor_names (h : t.prefixFor uri = (own, u)) : Grows t u ∧ (uri, own) ∈ u.entries := by
  have assigned := prefixFor_assigned t uri
  rw [h] at assigned
  dsimp only at assigned
  cases assigned with
  | known present => exact ⟨.refl t, present⟩
  | new _ stops =>
    obtain ⟨later, free, _⟩ := stops.least
    refine ⟨⟨rfl, rfl, List.subset_append_left _ _, fun sound => ?_⟩, by simp⟩
    exact sound_snoc sound later free

/-- A name stands for an IRI where the table gives namespaces their prefixes. -/
def Names (t : PrefixTable) (iri name : String) : Prop :=
  ∃ uri own last, (uri, own) ∈ t.entries ∧ name = own ++ ":" ++ last ∧ iri = uri ++ last ∧
    ∀ c ∈ last.toList, NCName.isPart c

theorem Names.mono (h : Names t iri name) (more : Grows t u) : Names u iri name := by
  obtain ⟨uri, own, last, present, parts⟩ := h
  exact ⟨uri, own, last, more.entries present, parts⟩

theorem qualify_none (h : t.qualify iri = (none, u)) : u = t := by
  unfold qualify at h
  split at h
  · exact (Prod.mk.inj h).2.symm
  · cases (Prod.mk.inj h).1

/-- The namespaces of a table are beginnings of the IRIs that have been asked for. -/
theorem mem_qualify {e : String × String} (member : e ∈ (t.qualify iri).2.entries) :
    e ∈ t.entries ∨ ∃ last, iri = e.1 ++ last := by
  unfold qualify at member
  split at member
  · exact .inl member
  next uri last cut =>
    have assigned := prefixFor_assigned t uri
    dsimp only at member
    generalize t.prefixFor uri = made at *
    obtain ⟨own, u⟩ := made
    cases assigned with
    | known _ => exact .inl member
    | new _ _ =>
      refine (List.mem_append.mp member).imp_right fun last => ?_
      obtain rfl := List.mem_singleton.mp last
      exact ⟨_, (Iri.split?_append cut).1⟩

theorem qualify_some (h : t.qualify iri = (some name, u)) : ∃ uri own last,
    Iri.split? iri = some (uri, last) ∧ Grows t u ∧ (uri, own) ∈ u.entries ∧
      name = own ++ ":" ++ last := by
  unfold qualify at h
  cases cut : Iri.split? iri with
  | none =>
    rw [cut] at h
    cases h
  | some parts =>
    obtain ⟨uri, last⟩ := parts
    rw [cut] at h
    obtain ⟨named, rfl⟩ := Prod.mk.inj h
    obtain ⟨more, present⟩ := @prefixFor_names t _ uri _ rfl
    exact ⟨uri, _, last, rfl, more, present, (Option.some.inj named).symm⟩

theorem qualify_names (h : t.qualify iri = (some name, u)) : Grows t u ∧ Names u iri name := by
  obtain ⟨uri, own, last, cut, more, present, rfl⟩ := qualify_some h
  obtain ⟨same, part⟩ := Iri.split?_append cut
  exact ⟨more, uri, own, last, present, rfl, same, part⟩

/-! ### Requests -/

/-- What is asked of a table: the prefix of a namespace, or an IRI as prefix and local name. -/
inductive Request where
  | prefixFor (uri : String)
  | qualify (iri : String)
  deriving DecidableEq, Repr

/-- The namespace whose prefix is needed, if one is. -/
def Request.uri? : Request → Option String
  | prefixFor uri => some uri
  | qualify iri => (Iri.split? iri).map (·.1)

def serve (t : PrefixTable) : Request → PrefixTable
  | .prefixFor uri => (t.prefixFor uri).2
  | .qualify iri => (t.qualify iri).2

/-- The table after requests one after the other. -/
def serveAll (t : PrefixTable) (rs : List Request) : PrefixTable := rs.foldl serve t

/-- The IRI that a prefix and a local name stand for. -/
def expand? (t : PrefixTable) (own last : String) : Option String :=
  (t.bindings.lookup own).map (· ++ last)

/-- What a table is after some namespaces have been asked for, one after the other. -/
structure Account (stem : String) (reserved asked : List String) (t : PrefixTable) : Prop where
  uris : t.bindings.map (·.2) = asked.eraseDups
  /-- The prefixes are the first of all numbered ones that are not reserved. -/
  prefixes : t.bindings.map (·.1) =
    ((List.range t.next).map fun n => stem ++ toString n).filter fun own => own ∉ reserved
  stem : t.stem = stem
  reserved : t.reserved = reserved

/-- What the answers of a table are, and what they are still good for after further requests. -/
structure Answers (t : PrefixTable) : Prop where
  unreserved : ∀ uri, (t.prefixFor uri).1 ∉ t.reserved
  given : ∀ uri, ((t.prefixFor uri).1, uri) ∈ (t.prefixFor uri).2.bindings
  kept : ∀ own uri, (own, uri) ∈ t.bindings → ∀ rs,
    (t.serveAll rs).prefixFor uri = (own, t.serveAll rs)
  refused : ∀ iri, (t.qualify iri).1 = none → (t.qualify iri).2 = t
  qualified : ∀ iri name, (t.qualify iri).1 = some name →
    ∃ own last, name = own ++ ":" ++ last ∧ ':' ∉ last.toList
  /-- A colon in the stem stands before the one that ends the prefix. -/
  expands : ∀ iri own last, (t.qualify iri).1 = some (own ++ ":" ++ last) →
    ':' ∉ t.stem.toList ∨ ':' ∉ last.toList →
      ∀ rs, ((t.qualify iri).2.serveAll rs).expand? own last = some iri

variable {stem last own' last' : String} {reserved asked : List String}

/-! #### Numbers -/

theorem range_stops {name : Nat → String} {taken : List String} {start stop : Nat}
    (h : Stops name taken start stop) :
    (((List.range (stop + 1)).map name).filter fun own => own ∉ taken) =
      (((List.range start).map name).filter fun own => own ∉ taken) ++ [name stop] := by
  induction h with
  | here free => rw [List.range_succ, List.map_append, List.filter_append]; simp [free]
  | later used _ ih => rw [ih, List.range_succ, List.map_append, List.filter_append]; simp [used]

/-! #### One request -/

theorem serve_eq (t : PrefixTable) (r : Request) :
    t.serve r = r.uri?.elim t fun uri => (t.prefixFor uri).2 := by
  cases r with
  | prefixFor uri => rfl
  | qualify iri =>
    rw [serve, qualify, Request.uri?]
    cases Iri.split? iri <;> rfl

/-! #### All requests -/

theorem account_empty (stem : String) (reserved : List String) :
    Account stem reserved [] { stem, reserved } := ⟨rfl, rfl, rfl, rfl⟩

theorem account_assigned (h : Account stem reserved asked t) (assigned : Assigned t uri own u) :
    Account stem reserved (asked ++ [uri]) u := by
  obtain ⟨uris, prefixes, rfl, rfl⟩ := h
  rw [map_snd_bindings] at uris
  rw [map_fst_bindings] at prefixes
  have among : uri ∈ t.entries.map (·.1) ↔ uri ∈ asked := by rw [uris, List.mem_eraseDups]
  cases assigned with
  | known present =>
    have old : uri ∈ asked := among.mp (List.mem_map_of_mem present)
    refine ⟨?_, ?_, rfl, rfl⟩
    · rw [map_snd_bindings, uris, eraseDups_seen old]
    · rw [map_fst_bindings, prefixes]
  | new unknown stops =>
    refine ⟨?_, ?_, rfl, rfl⟩
    · rw [map_snd_bindings, List.map_append, uris, eraseDups_new (mt among.mpr unknown)]
      rfl
    · rw [map_fst_bindings, List.map_append, prefixes]
      exact (range_stops stops).symm

theorem account_serve (h : Account stem reserved asked t) (r : Request) :
    Account stem reserved (asked ++ r.uri?.toList) (t.serve r) := by
  rw [serve_eq]
  cases r.uri? with
  | none => rwa [Option.toList_none, List.append_nil]
  | some uri => exact account_assigned h (prefixFor_assigned t uri)

theorem account_serveAll (h : Account stem reserved asked t) (rs : List Request) :
    Account stem reserved (asked ++ rs.filterMap Request.uri?) (t.serveAll rs) := by
  induction rs generalizing asked t with
  | nil => rwa [List.filterMap_nil, List.append_nil]
  | cons r rs ih =>
    have whole : (r :: rs).filterMap Request.uri? = r.uri?.toList ++ rs.filterMap Request.uri? := by
      cases needed : r.uri? <;> simp [needed]
    rw [whole, ← List.append_assoc]
    exact ih (account_serve h r)

/-! #### Answers -/

theorem Account.unreserved (h : Account stem reserved asked t) :
    ∀ own ∈ t.bindings.map (·.1), own ∉ reserved := by
  intro own member
  rw [h.prefixes] at member
  exact of_decide_eq_true (List.mem_filter.mp member).2

theorem Account.prefixes_nodup (h : Account stem reserved asked t) :
    (t.bindings.map (·.1)).Nodup := by
  rw [h.prefixes]
  refine List.Nodup.filter _ (List.Nodup.map ?_ List.nodup_range)
  exact fun m n same => toString_injective ((String.append_right_inj _).mp same)

theorem Account.uris_nodup (h : Account stem reserved asked t) : (t.bindings.map (·.2)).Nodup := by
  rw [h.uris]
  exact eraseDups_nodup asked

theorem assigned_given (h : Assigned t uri own u) : (own, uri) ∈ u.bindings := by
  cases h with
  | known present => exact List.mem_map_of_mem present
  | new _ _ => exact List.mem_map_of_mem (List.mem_append_right _ List.mem_cons_self)

theorem assigned_extends (h : Assigned t uri own u) : t.bindings <+: u.bindings := by
  cases h with
  | known _ => exact List.prefix_refl _
  | new _ _ => exact (List.prefix_append _ _).map _

theorem serveAll_extends (t : PrefixTable) (rs : List Request) :
    t.bindings <+: (t.serveAll rs).bindings := by
  refine foldl_prefix (fun t r => ?_) t rs
  rw [serve_eq]
  cases r.uri? with
  | none => exact List.prefix_refl _
  | some uri => exact assigned_extends (prefixFor_assigned t uri)

/-- A namespace that has a prefix is answered with it, and the table stays as it is. -/
theorem Account.assigned_known (h : Account stem reserved asked t)
    (present : (own, uri) ∈ t.bindings)
    (assigned : Assigned t uri own' u) : own' = own ∧ u = t := by
  cases assigned with
  | known present' =>
    have same := List.inj_on_of_nodup_map h.uris_nodup (List.mem_map_of_mem present') present rfl
    exact ⟨(Prod.mk.inj same).1, rfl⟩
  | new unknown _ =>
    exact absurd (map_snd_bindings t ▸ List.mem_map_of_mem (f := (·.2)) present) unknown

theorem Account.expand?_of_mem (h : Account stem reserved asked t)
    (present : (own, uri) ∈ t.bindings) (last : String) :
    t.expand? own last = some (uri ++ last) := by
  rw [expand?, lookup_of_mem h.prefixes_nodup present]
  rfl

/-! #### Names cut at the colon -/

theorem colon_notMem (same : own ++ ":" ++ last = own' ++ ":" ++ last') (free : ':' ∉ own'.toList)
    (free' : ':' ∉ last'.toList) : ':' ∉ last.toList := by
  have counted := congrArg (fun text => text.toList.count ':') same
  simp [List.count_append, List.count_eq_zero.mpr free, List.count_eq_zero.mpr free'] at counted
  exact List.count_eq_zero.mp (by omega)

/-- Nothing stands between two cuts at a colon if the first is the last colon of the text. -/
theorem cut_le {init rest rest' between : List Char} (longer : init ++ between = rest)
    (ends : ':' :: last.toList = between ++ ':' :: rest') (free : ':' ∉ last.toList) :
    init = rest ∧ last.toList = rest' := by
  cases between with
  | nil => exact ⟨List.append_nil init ▸ longer, (List.cons.inj ends).2⟩
  | cons c between =>
    rw [(List.cons.inj ends).2] at free
    exact absurd (List.mem_append_right _ List.mem_cons_self) free

/-- A text is cut in one way where a colon is the last. -/
theorem cut_last (same : own ++ ":" ++ last = own' ++ ":" ++ last') (free : ':' ∉ last.toList)
    (free' : ':' ∉ last'.toList) : own = own' ∧ last = last' := by
  have chars := congrArg String.toList same
  simp only [String.toList_append, List.append_assoc] at chars
  rcases List.append_eq_append_iff.mp chars with ⟨between, longer, ends⟩ | ⟨between, longer, ends⟩
  · obtain ⟨init, rest⟩ := cut_le longer.symm ends free
    exact ⟨String.toList_inj.mp init, String.toList_inj.mp rest⟩
  · obtain ⟨init, rest⟩ := cut_le longer.symm ends free'
    exact ⟨String.toList_inj.mp init.symm, String.toList_inj.mp rest.symm⟩

theorem Account.colon_notMem_own (h : Account stem reserved asked t) (clear : ':' ∉ stem.toList)
    (given : own ∈ t.bindings.map (·.1)) : ':' ∉ own.toList := by
  rw [h.prefixes] at given
  obtain ⟨n, -, rfl⟩ := List.mem_map.mp (List.mem_filter.mp given).1
  rw [String.toList_append, List.mem_append]
  rintro (inside | inside)
  · exact clear inside
  · exact absurd (toString_digits n _ inside) (by decide)

theorem Account.answers (h : Account stem reserved asked t) : Answers t where
  unreserved := by
    intro uri
    have grown := account_assigned h (prefixFor_assigned t uri)
    have given := assigned_given (prefixFor_assigned t uri)
    exact h.reserved ▸ grown.unreserved _ (List.mem_map_of_mem given)
  given := fun uri => assigned_given (prefixFor_assigned t uri)
  kept := by
    intro own uri present rs
    have known := (account_serveAll h rs).assigned_known ((serveAll_extends t rs).subset present)
      (prefixFor_assigned _ uri)
    exact Prod.ext known.1 known.2
  refused := fun iri none => qualify_none (Prod.ext none rfl)
  qualified := by
    intro iri name some
    obtain ⟨uri, own, last, cut, _, _, same⟩ :=
      qualify_some (u := (t.qualify iri).2) (Prod.ext some rfl)
    exact ⟨own, last, same, not_mem_of_isPart (Iri.split?_append cut).2 (by decide)⟩
  expands := by
    intro iri own last some clear rs
    obtain ⟨uri, own', last', cut, _, present, same⟩ :=
      qualify_some (u := (t.qualify iri).2) (Prod.ext some rfl)
    have grown := account_serve h (.qualify iri)
    have given : (own', uri) ∈ (t.qualify iri).2.bindings := List.mem_map_of_mem present
    have free' := not_mem_of_isPart (Iri.split?_append cut).2 (c := ':') (by decide)
    have free : ':' ∉ last.toList := clear.elim
      (fun clear => colon_notMem same
        (grown.colon_notMem_own (h.stem ▸ clear) (List.mem_map_of_mem given)) free') id
    obtain ⟨rfl, rfl⟩ := cut_last same free free'
    have still := (serveAll_extends (t.qualify iri).2 rs).subset given
    have expanded := (account_serveAll grown rs).expand?_of_mem still last
    exact expanded.trans (congrArg _ (Iri.split?_append cut).1.symm)

/-- Whatever is asked of a table: the namespaces stand in the order of their first request, each
with one prefix and each prefix for one namespace; the prefixes are the stem with the increasing
numbers whose name is not reserved; and the answers are kept and read back after any further
requests. -/
theorem requests_account (stem : String) (reserved : List String) (rs : List Request) :
    let t := serveAll { stem, reserved } rs
    Account stem reserved (rs.filterMap Request.uri?) t ∧
      (t.bindings.map (·.1)).Nodup ∧ (t.bindings.map (·.2)).Nodup ∧
      (∀ own ∈ t.bindings.map (·.1), own ∉ reserved) ∧
      Answers t ∧ ∀ later, t.bindings <+: (t.serveAll later).bindings := by
  have account := account_serveAll (account_empty stem reserved) rs
  exact ⟨account, account.prefixes_nodup, account.uris_nodup, account.unreserved, account.answers,
    serveAll_extends _⟩

/-- A reserved number is passed over, and a namespace asked for again keeps its prefix. -/
example : (serveAll { stem := "ns", reserved := ["ns1"] }
    [.prefixFor "https://a/", .qualify "https://b/x", .qualify "https://a/y"]).bindings =
      [("ns0", "https://a/"), ("ns2", "https://b/")] := by decide +kernel

end RdfXmlMapping.PrefixTable
