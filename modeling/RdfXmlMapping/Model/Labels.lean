/-! Texts by language. -/

namespace RdfXmlMapping

theorem labels_nil : ([] : List (String × String)).Pairwise (fun a b => a.1 < b.1) := .nil

/-- Display texts keyed by language, in the order of the keys and each key once. -/
structure Labels where
  entries : List (String × String) := []
  sorted : entries.Pairwise (fun a b => a.1 < b.1) := by exact labels_nil
  deriving DecidableEq, Repr

namespace Labels

/-- Puts a text in its place among others; it replaces a text of the same language. -/
def insertInto (language text : String) : List (String × String) → List (String × String)
  | [] => [(language, text)]
  | (l, t) :: rest =>
    if language < l then (language, text) :: (l, t) :: rest
    else if language = l then (language, text) :: rest
    else (l, t) :: insertInto language text rest

theorem mem_insertInto {language text : String} {entries : List (String × String)}
    {e : String × String} (h : e ∈ insertInto language text entries) :
    e = (language, text) ∨ e ∈ entries := by
  induction entries with
  | nil => simpa [insertInto] using h
  | cons head rest ih =>
    rw [insertInto] at h
    split at h
    · simpa using h
    · split at h
      · rcases List.mem_cons.mp h with h | h
        · exact .inl h
        · exact .inr (List.mem_cons_of_mem _ h)
      · rcases List.mem_cons.mp h with h | h
        · exact .inr (h ▸ List.mem_cons_self)
        · exact (ih h).imp id (List.mem_cons_of_mem _)

theorem sorted_insertInto (language text : String) {entries : List (String × String)}
    (h : entries.Pairwise (fun a b => a.1 < b.1)) :
    (insertInto language text entries).Pairwise (fun a b => a.1 < b.1) := by
  induction entries with
  | nil => simp [insertInto]
  | cons head rest ih =>
    obtain ⟨hHead, hRest⟩ := List.pairwise_cons.mp h
    rw [insertInto]
    split
    · next hlt =>
      refine List.pairwise_cons.mpr ⟨fun e he => ?_, h⟩
      rcases List.mem_cons.mp he with rfl | he
      · exact hlt
      · exact String.lt_trans hlt (hHead e he)
    · next hlt =>
      split
      · next heq => exact List.pairwise_cons.mpr ⟨fun e he => heq ▸ hHead e he, hRest⟩
      · next hne =>
        refine List.pairwise_cons.mpr ⟨fun e he => ?_, ih hRest⟩
        rcases mem_insertInto he with rfl | he
        · exact Std.lt_of_le_of_ne (String.not_lt.mp hlt) (Ne.symm hne)
        · exact hHead e he

def insert (labels : Labels) (language text : String) : Labels :=
  ⟨insertInto language text labels.entries, sorted_insertInto language text labels.sorted⟩

/-- Texts from a list in any order; of several texts for one language the last one counts. -/
def ofList (entries : List (String × String)) : Labels :=
  entries.foldl (fun labels e => labels.insert e.1 e.2) {}

end Labels

end RdfXmlMapping
