import RdfXmlMapping.Model.Json
import RdfXmlMapping.Proofs.Json.Reading

/-!
Models read back from their text. Every part of a model is read from the value that it is written
as, so that a model is what its text is read as (`Model.parse_render`).
-/

namespace RdfXmlMapping

namespace Json

variable {α : Type} {rest : List (Except Fault String × Doc)}

theorem itemsCounted_iff {vs : List Value} : ItemsCounted vs ↔ ∀ v ∈ vs, v.Counted := by
  induction vs with
  | nil => simp [ItemsCounted]
  | cons v vs ih => simp [ItemsCounted, ih]

theorem membersCounted_iff {ms : List (String × Value)} :
    MembersCounted ms ↔ ∀ m ∈ ms, m.2.Counted := by
  induction ms with
  | nil => simp [MembersCounted]
  | cons m ms ih => simp [MembersCounted, ih]

theorem bind_of {β : Type} {decoded : Decoded α} {a : α} {f : α → Decoded β}
    (read : decoded = .ok a) : decoded >>= f = f a := by
  rw [read]
  rfl

theorem decodeString_doc (s : String) : decodeString (Value.string s).doc = .ok s := rfl

theorem decodeBool_doc (b : Bool) : decodeBool (Value.bool b).doc = .ok b := rfl

/-- A list is read back if its items are. -/
theorem decodeList_doc {decode : Doc → Decoded α} {toJson : α → Value} {as : List α}
    (reads : ∀ a, decode (toJson a).doc = .ok a) :
    decodeList decode (Value.array (as.map toJson)).doc = .ok as := by
  have items : (docs (as.map toJson)).mapM decode = .ok as := by
    induction as with
    | nil => rfl
    | cons a as ih =>
      rw [List.map_cons, docs, List.mapM_cons, reads, ih]
      rfl
  rw [Value.doc, decodeList, items]
  rfl

/-- An object is read back if its values are. -/
theorem decodeMembers_doc {decode : Doc → Decoded α} {toJson : α → Value} {as : List (String × α)}
    (reads : ∀ a, decode (toJson a).doc = .ok a) :
    decodeMembers decode (Value.object (as.map fun a => (a.1, toJson a.2))).doc = .ok as := by
  have members : (memberDocs (as.map fun a => (a.1, toJson a.2))).mapM
      (fun m => do return (← sound m.1, ← decode m.2)) = .ok as := by
    induction as with
    | nil => rfl
    | cons a as ih =>
      rw [List.map_cons, memberDocs, List.mapM_cons, ih, reads]
      rfl
  exact bind_of members

/-- One step of reading: a member whose field is not there yet. -/
theorem readMembers_field {δ : Type} {fields : List (FieldReader δ)} {field : FieldReader δ}
    {key : String} {d : Doc} {draft next : δ} (named : fields.find? (·.name == key) = some field)
    (fresh : field.present draft = false) (read : field.read d draft = .ok next) :
    readMembers fields ((.ok key, d) :: rest) draft = readMembers fields rest next := by
  have kept : sound (.ok key : Except Fault String) = .ok key := rfl
  rw [readMembers, bind_of kept, named]
  simp only [fresh, read]
  rfl

/-- What a field is read as goes into the draft. -/
theorem fill_of {δ : Type} {decoded : Decoded α} {a : α} {fill : α → δ} (read : decoded = .ok a) :
    (do return fill (← decoded)) = (.ok (fill a) : Decoded δ) :=
  bind_of read

theorem readStruct_object {δ : Type} {title : String} {fields : List (FieldReader δ)}
    {members : List (Except Fault String × Doc)} {draft read : δ}
    (filled : readMembers fields members draft = .ok read) :
    readStruct title fields draft (.object members none) = .ok read :=
  fill_of filled

end Json

open Json

/-! ### Parts of a model -/

namespace Labels

/-- A text whose language comes last is put at the end. -/
theorem insertInto_last {language text : String} {entries : List (String × String)}
    (last : ∀ e ∈ entries, e.1 < language) :
    insertInto language text entries = entries ++ [(language, text)] := by
  induction entries with
  | nil => rfl
  | cons e entries ih =>
    have before : e.1 < language := last e List.mem_cons_self
    rw [insertInto, if_neg (String.lt_asymm before), if_neg (String.ne_of_lt before).symm,
      ih fun e member => last e (List.mem_cons_of_mem _ member)]
    rfl

theorem entries_foldl {entries : List (String × String)} {labels : Labels}
    (sorted : (labels.entries ++ entries).Pairwise (fun a b => a.1 < b.1)) :
    (entries.foldl (fun labels e => labels.insert e.1 e.2) labels).entries =
      labels.entries ++ entries := by
  induction entries generalizing labels with
  | nil => simp
  | cons e entries ih =>
    have last : (labels.insert e.1 e.2).entries = labels.entries ++ [e] :=
      insertInto_last fun a member =>
        (List.pairwise_append.mp sorted).2.2 a member e List.mem_cons_self
    have whole : labels.entries ++ e :: entries = (labels.insert e.1 e.2).entries ++ entries := by
      rw [last, List.append_assoc, List.singleton_append]
    rw [List.foldl_cons, ih (whole ▸ sorted), whole]

theorem ofList_entries (labels : Labels) : ofList labels.entries = labels := by
  have entries : (ofList labels.entries).entries = labels.entries :=
    @entries_foldl _ {} labels.sorted
  generalize ofList labels.entries = read at entries
  cases read
  cases labels
  cases entries
  rfl

theorem decode_toJson (labels : Labels) : Labels.decode labels.toJson.doc = .ok labels := by
  have members : decodeMembers decodeString labels.toJson.doc = .ok labels.entries :=
    decodeMembers_doc decodeString_doc
  rw [Labels.decode, members]
  exact congrArg Except.ok (ofList_entries labels)

end Labels

theorem decodeOption_optionJson (o : Option String) :
    decodeOption decodeString (optionJson o).doc = .ok o := by
  cases o <;> rfl

theorem decodeStrings_stringsJson (ss : List String) :
    decodeStrings (stringsJson ss).doc = .ok ss :=
  decodeList_doc decodeString_doc

theorem decodeUInt32_countJson (n : UInt32) : decodeUInt32 (countJson n).doc = .ok n := by
  have small : 0 ≤ (n.toNat : Int) ∧ (n.toNat : Int) < UInt32.size :=
    ⟨Int.natCast_nonneg _, Int.ofNat_lt.mpr n.toNat_lt_size⟩
  have back : UInt32.ofNat (n.toNat : Int).toNat = n := UInt32.ofNat_toNat
  rw [countJson, Value.doc, decodeUInt32]
  refine (pure_bind (m := Except ReadError) (Number.integer n.toNat) _).trans ?_
  dsimp only
  rw [if_pos small, back]
  rfl

theorem DataType.decode_toJson (t : DataType) (room : Nat) :
    DataType.decode room t.toJson.doc = .ok t := by
  cases t <;> rfl

theorem Property.readMembers_fields {p : Property} {title least most types : Doc}
    (titled : Labels.decode title = .ok p.title) (counted : decodeUInt32 least = .ok p.least)
    (bounded : decodeOption decodeUInt32 most = .ok p.most)
    (typed : decodeList (DataType.decode DataType.room) types = .ok p.types) :
    readMembers Property.fields [(.ok "psmIri", .string (.ok p.iri) none),
      (.ok "cimIri", .string (.ok p.predicate) none),
      (.ok "technicalLabel", .string (.ok p.label) none), (.ok "humanLabel", title),
      (.ok "cardinalityMin", least), (.ok "cardinalityMax", most),
      (.ok "isReverse", .bool p.isReverse), (.ok "dematerialize", .bool p.isSpliced),
      (.ok "dataTypes", types)] {} =
        .ok ⟨p.iri, p.predicate, p.label, p.title, p.least, some p.most, p.isReverse, p.isSpliced,
          p.types⟩ :=
  (readMembers_field rfl rfl (fill_of rfl)).trans <|
  (readMembers_field rfl rfl (fill_of rfl)).trans <|
  (readMembers_field rfl rfl (fill_of rfl)).trans <|
  (readMembers_field rfl rfl (fill_of titled)).trans <|
  (readMembers_field rfl rfl (fill_of counted)).trans <|
  (readMembers_field rfl rfl (fill_of bounded)).trans <|
  (readMembers_field rfl rfl (fill_of rfl)).trans <|
  (readMembers_field rfl rfl (fill_of rfl)).trans <|
  (readMembers_field rfl rfl (fill_of typed)).trans rfl

theorem Property.decode_toJson (p : Property) : Property.decode p.toJson.doc = .ok p := by
  refine (bind_of (readStruct_object (readMembers_fields (Labels.decode_toJson p.title)
    (decodeUInt32_countJson p.least) ?_
    (decodeList_doc fun t => DataType.decode_toJson t DataType.room)))).trans rfl
  cases p.most with
  | none => rfl
  | some n => exact congrArg (some <$> ·) (decodeUInt32_countJson n)

theorem Class.decode_toJson (c : Class) : Class.decode c.toJson.doc = .ok c :=
  (bind_of (readStruct_object (
    (readMembers_field rfl rfl (fill_of (decodeString_doc c.iri))).trans <|
    (readMembers_field rfl rfl (fill_of (decodeOption_optionJson c.meaning))).trans <|
    (readMembers_field rfl rfl (fill_of (Labels.decode_toJson c.title))).trans <|
    (readMembers_field rfl rfl (fill_of (decodeString_doc c.label))).trans <|
    (readMembers_field rfl rfl (fill_of (decodeBool_doc c.isCodelist))).trans <|
    (readMembers_field rfl rfl (fill_of (decodeStrings_stringsJson c.parents))).trans <|
    (readMembers_field rfl rfl (fill_of (decodeOption_optionJson c.specification))).trans <|
    (readMembers_field rfl rfl (fill_of (decodeOption_optionJson c.schema))).trans <|
    (readMembers_field rfl rfl (fill_of (decodeList_doc Property.decode_toJson))).trans rfl))).trans
      rfl

theorem Model.decode_toJson (m : Model) : Model.decode m.toJson.doc = .ok m :=
  (bind_of (readStruct_object (
    (readMembers_field rfl rfl (fill_of (decodeString_doc m.iri))).trans <|
    (readMembers_field rfl rfl (fill_of (Labels.decode_toJson m.title))).trans <|
    (readMembers_field rfl rfl (fill_of (decodeString_doc m.specification))).trans <|
    (readMembers_field rfl rfl (fill_of (decodeOption_optionJson m.uri))).trans <|
    (readMembers_field rfl rfl (fill_of (decodeOption_optionJson m.nsPrefix))).trans <|
    (readMembers_field rfl rfl (fill_of (decodeList_doc decodeStrings_stringsJson))).trans <|
    (readMembers_field rfl rfl (fill_of (decodeList_doc Class.decode_toJson))).trans rfl))).trans
      rfl

/-! ### Whole texts -/

theorem stringsJson_counted (ss : List String) : (stringsJson ss).Counted := by
  simp [stringsJson, Value.Counted, itemsCounted_iff]

theorem optionJson_counted (o : Option String) : (optionJson o).Counted := by
  cases o <;> trivial

theorem countJson_counted (n : UInt32) : (countJson n).Counted := by
  have small : UInt32.size ≤ maxSignificand := by decide
  exact ⟨n.toNat, n.toNat_lt_size.le.trans small, rfl⟩

theorem Labels.toJson_counted (labels : Labels) : labels.toJson.Counted := by
  refine membersCounted_iff.mpr fun m member => ?_
  obtain ⟨e, _, rfl⟩ := List.mem_map.mp member
  trivial

theorem DataType.toJson_counted (t : DataType) : t.toJson.Counted := by
  cases t <;> simp [DataType.toJson, Value.Counted, MembersCounted]

theorem Property.toJson_counted (p : Property) : p.toJson.Counted := by
  simp only [Property.toJson, Value.Counted, MembersCounted, itemsCounted_iff, List.forall_mem_map,
    Labels.toJson_counted, countJson_counted, DataType.toJson_counted, implies_true, true_and,
    and_true]
  cases p.most with
  | none => trivial
  | some n => exact countJson_counted n

theorem Class.toJson_counted (c : Class) : c.toJson.Counted := by
  simp [Class.toJson, Value.Counted, MembersCounted, itemsCounted_iff, Labels.toJson_counted,
    optionJson_counted, stringsJson_counted, Property.toJson_counted]

theorem Model.toJson_counted (m : Model) : m.toJson.Counted := by
  simp [Model.toJson, Value.Counted, MembersCounted, itemsCounted_iff, Labels.toJson_counted,
    optionJson_counted, stringsJson_counted, Class.toJson_counted]

/-- Every model is what its text is read as. -/
theorem Model.parse_render (m : Model) : Model.parse m.render = .ok m := by
  have scanned : scan m.render.toList = (m.toJson.doc, none) := by
    rw [Model.render, Value.pretty, String.toList_ofList]
    exact scan_render m.toJson_counted
  rw [Model.parse, decodeText, scanned]
  exact bind_of m.decode_toJson

end RdfXmlMapping
