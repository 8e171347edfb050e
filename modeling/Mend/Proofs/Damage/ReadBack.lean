import Mend.Damage.Json
import Mend.Proofs.Json.ReadBack
import Mend.Proofs.Time.ReadBack

set_option autoImplicit false

/-! # Damage that is written and read

For each type the JSON value of a member is faithful, so its text is read as that value
(`Json.ofText?_text`), and that value is read as the member, records field by field from what is
known of their parts. So every member is read back from its text. -/

namespace Mend

/-! ## The text of identifiers -/

namespace DamageId

/-- Hyphens that are put between groups are taken out again. -/
theorem unhyphenate?_hyphenate (sizes : List Nat) (cs : List Char) (h : cs.length = sizes.sum) :
    unhyphenate? sizes (hyphenate sizes cs) = some cs := by
  induction sizes generalizing cs with
  | nil =>
      rw [List.sum_nil, List.length_eq_zero_iff] at h
      rw [h]
      rfl
  | cons k sizes ih =>
      rw [List.sum_cons] at h
      cases sizes with
      | nil =>
          have hk : cs.length = k := by simpa using h
          simp [hyphenate, unhyphenate?, List.take_of_length_le (Nat.le_of_eq hk), hk]
      | cons k' sizes =>
          have htake : (cs.take k).length = k := by
            rw [List.length_take]
            omega
          have hmore := ih (cs.drop k) (by rw [List.length_drop]; omega)
          have hdrop : (cs.take k ++ '-' :: hyphenate (k' :: sizes) (cs.drop k)).drop k
              = '-' :: hyphenate (k' :: sizes) (cs.drop k) := List.drop_left' htake
          have hhead : (cs.take k ++ '-' :: hyphenate (k' :: sizes) (cs.drop k)).take k
              = cs.take k := List.take_left' htake
          simp only [hyphenate, unhyphenate?, hdrop, hhead, hmore, Option.map_some,
            List.take_append_drop]

theorem length_hyphenate (sizes : List Nat) (cs : List Char) (h : cs.length = sizes.sum) :
    (hyphenate sizes cs).length = cs.length + (sizes.length - 1) := by
  induction sizes generalizing cs with
  | nil => simpa [hyphenate] using h.symm
  | cons k sizes ih =>
      rw [List.sum_cons] at h
      cases sizes with
      | nil =>
          have hk : cs.length = k := by simpa using h
          simp [hyphenate, hk]
      | cons k' sizes =>
          have hmore := ih (cs.drop k) (by rw [List.length_drop]; omega)
          simp only [hyphenate, List.length_append, List.length_cons, hmore, List.length_take,
            List.length_drop]
          omega

/-- An identifier is read back from its written form. -/
theorem ofText?_text (id : DamageId) : ofText? id.text = some id := by
  have hsum : (Hex.write 32 id.toNat).length = groups.sum := Hex.length_write _ _
  have hlength : id.chars.length = 36 := by
    rw [chars, length_hyphenate _ _ hsum, Hex.length_write]
    rfl
  have hread : Hex.read? (Hex.write 32 id.toNat) = some id.toNat :=
    Hex.read?_write 32 id.toNat id.bits.isLt
  have hunwrap : unwrap id.chars = id.chars := by
    simp [unwrap, hlength]
  have hid : ofNat id.toNat = id :=
    congrArg DamageId.mk ((BitVec.ofNat_toNat 128 id.bits).trans (BitVec.setWidth_eq _))
  rw [ofText?, text, String.toList_ofList, ofChars?, hunwrap, if_neg (by rw [hlength]; decide)]
  rw [chars, unhyphenate?_hyphenate _ _ hsum, Option.bind_some, ofDigits?, Hex.length_write,
    if_pos rfl, hread, Option.map_some, hid]

end DamageId

/-! ## Numbers and names -/

@[simp] theorem Json.faithful_ofString (s : String) : (Json.ofString s).Faithful := .str s

@[simp] theorem Capped.faithful {m : Nat} (n : Capped m) : n.toJson.Faithful := .int _

@[simp] theorem Coord.faithful (c : Coord) : c.toJson.Faithful := .int _

@[simp] theorem Provenance.faithful (p : Provenance) : p.toJson.Faithful := .str _

@[simp] theorem Outcome.faithful (o : Outcome) : o.toJson.Faithful := .str _

@[simp] theorem DamageId.faithful (id : DamageId) : id.toJson.Faithful := .str _

@[simp] theorem Instant.faithful (t : Instant) : t.toJson.Faithful := .str _

theorem Capped.ofJson?_toJson {m : Nat} (n : Capped m) : Capped.ofJson? n.toJson = some n := by
  rw [toJson, ofJson?, if_pos (Int.natCast_nonneg _)]
  exact ofNat?_eq_some_iff.2 rfl

theorem Coord.ofJson?_toJson (c : Coord) : Coord.ofJson? c.toJson = some c :=
  ofInt?_eq_some_iff.2 rfl

theorem Provenance.ofJson?_toJson (p : Provenance) : Provenance.ofJson? p.toJson = some p := by
  cases p <;> rfl

theorem Outcome.ofJson?_toJson (o : Outcome) : Outcome.ofJson? o.toJson = some o := by
  cases o <;> rfl

theorem DamageId.ofJson?_toJson (id : DamageId) : DamageId.ofJson? id.toJson = some id := by
  rw [toJson, ofJson?, Json.ofString, Json.string?, Option.bind_some, ofText?_text]

theorem Instant.ofJson?_toJson (t : Instant) : Instant.ofJson? t.toJson = some t := by
  rw [toJson, ofJson?, Json.ofString, Json.string?, Option.bind_some, ofText?_text]

/-! ## Places -/

@[simp] theorem Pos.faithful (p : Pos) : p.toJson.Faithful := Json.faithful_record (by simp)

@[simp] theorem Box.faithful (b : Box) : b.toJson.Faithful := Json.faithful_record (by simp)

theorem Pos.ofJson?_toJson (p : Pos) : Pos.ofJson? p.toJson = some p := by
  rw [toJson, ofJson?, Json.fields?_record (by simp)]
  simp [List.lookup_cons, Coord.ofJson?_toJson]

theorem Box.ofJson?_toJson (b : Box) : Box.ofJson? b.toJson = some b := by
  rw [toJson, ofJson?, Json.fields?_record (by simp)]
  simp [List.lookup_cons, Pos.ofJson?_toJson]

/-! ## Cells -/

@[simp] theorem Properties.faithful (p : Properties) : (Properties.toJson p).Faithful := by
  refine Json.faithful_record fun f hf => ?_
  obtain ⟨kv, -, rfl⟩ := List.mem_map.1 hf
  exact Json.faithful_ofString kv.2

@[simp] theorem Content.faithful (c : Content) : c.toJson.Faithful := by
  refine Json.faithful_record ?_
  split <;> simp

@[simp] theorem LostCell.faithful (c : LostCell) : c.toJson.Faithful :=
  Json.faithful_record (by simp)

namespace Properties

/-- A map is the map of its entries. -/
theorem ofList_toList (p : Properties) : Std.ExtTreeMap.ofList p.toList = p := by
  refine Std.ExtTreeMap.ext_getElem? fun key => ?_
  cases hkey : p[key]? with
  | some value =>
      exact Std.ExtTreeMap.getElem?_ofList_of_mem Std.ReflCmp.compare_self
        Std.ExtTreeMap.distinct_keys_toList (Std.ExtTreeMap.mem_toList_iff_getElem?_eq_some.2 hkey)
  | none =>
      refine Std.ExtTreeMap.getElem?_ofList_of_contains_eq_false ?_
      rw [Std.ExtTreeMap.map_fst_toList_eq_keys, Std.ExtTreeMap.contains_keys,
        Std.ExtTreeMap.contains_eq_isSome_getElem?, hkey, Option.isSome_none]

/-- Members are read one after the other into the map that there is. -/
theorem foldl_members (entries : List (String × String)) (p : Properties) :
    (entries.map fun kv => (some kv.1, Json.ofString kv.2)).foldl
        (fun (acc : Option Properties) member =>
          match acc, member.1, member.2.string? with
          | some p, some key, some value => some (p.insert key value)
          | _, _, _ => none) (some p)
      = some (entries.foldl (fun p kv => p.insert kv.1 kv.2) p) := by
  induction entries generalizing p with
  | nil => rfl
  | cons kv entries ih => exact ih (p.insert kv.1 kv.2)

theorem ofJson?_toJson (p : Properties) : Properties.ofJson? p.toJson = some p := by
  rw [toJson, Json.record, ofJson?, List.map_map]
  exact (foldl_members p.toList ∅).trans
    (congrArg some (Std.ExtTreeMap.ofList_eq_foldl.symm.trans (ofList_toList p)))

end Properties

theorem Content.ofJson?_toJson (c : Content) : Content.ofJson? c.toJson = some c := by
  obtain ⟨material, properties⟩ := c
  rw [toJson, ofJson?]
  by_cases hnone : properties.isEmpty
  · rw [if_pos hnone, Json.fields?_record (by simp)]
    have hempty : properties = ∅ := by simpa using hnone
    simp [List.lookup_cons, Json.string?, Json.ofString, Content.plain, hempty]
  · rw [if_neg hnone, Json.fields?_record (by simp)]
    simp [List.lookup_cons, Json.string?, Json.ofString, Properties.ofJson?_toJson]

example : (Content.plain "a\"\n\x01é").toJson.text
    = "\x7b\"material\":\"a\\\"\\n\\u0001é\"\x7d" := rfl

theorem LostCell.ofJson?_toJson (c : LostCell) : LostCell.ofJson? c.toJson = some c := by
  rw [toJson, ofJson?, Json.fields?_record (by simp)]
  simp [List.lookup_cons, Pos.ofJson?_toJson, Content.ofJson?_toJson, Provenance.ofJson?_toJson]

/-! ## Damage and its completion -/

theorem Damage.faithful (d : Damage) : d.toJson.Faithful := by
  have hcells : (Json.arr (d.cells.map LostCell.toJson)).Faithful := .arr (by simp)
  exact Json.faithful_record (by simp [hcells])

theorem TimedCompletion.faithful (t : TimedCompletion) : t.toJson.Faithful :=
  Json.faithful_record (by simp [fieldNames])

theorem Json.list?_map {α : Type} {toJson : α → Json} {ofJson? : Json → Option α}
    (h : ∀ a, ofJson? (toJson a) = some a) (as : List α) :
    Json.list? ofJson? (.arr (as.map toJson)) = some as := by
  rw [list?]
  induction as with
  | nil => rfl
  | cons a as ih => simp [h, ih]

theorem Damage.ofJson?_toJson (d : Damage) : Damage.ofJson? d.toJson = some d := by
  rw [toJson, ofJson?, Json.fields?_record (by simp)]
  simp [List.lookup_cons, Json.string?, Json.ofString, Pos.ofJson?_toJson, Capped.ofJson?_toJson,
    Json.list?_map LostCell.ofJson?_toJson]

theorem TimedCompletion.ofJson?_toJson (t : TimedCompletion) :
    TimedCompletion.ofJson? t.toJson = some t := by
  have hnames : ∀ values : List Json, values.length = 12 →
      (fieldNames.zip values).map Prod.fst = fieldNames :=
    fun values h => List.map_fst_zip (Nat.le_of_eq h.symm)
  rw [toJson, ofJson?, Json.fields?_record (by rw [hnames _ rfl]; decide)]
  simp [fieldNames, List.lookup_cons, Json.string?, Json.ofString, Pos.ofJson?_toJson,
    Capped.ofJson?_toJson, DamageId.ofJson?_toJson, Box.ofJson?_toJson, Instant.ofJson?_toJson]

/-! ## From text to text -/

/-- A member of a type is read from the text that it is written as. -/
def ReadAsWritten {α : Type} (toJson : α → Json) (ofJson? : Json → Option α) (a : α) : Prop :=
  (Json.ofText? (toJson a).text).bind ofJson? = some a

theorem readAsWritten {α : Type} {toJson : α → Json} {ofJson? : Json → Option α} {a : α}
    (hfaithful : (toJson a).Faithful) (hread : ofJson? (toJson a) = some a) :
    ReadAsWritten toJson ofJson? a := by
  rw [ReadAsWritten, Json.ofText?_text hfaithful, Option.bind_some, hread]

/-- **What is written is read.** Worlds, positions, contents, provenances, outcomes, lost cells,
    damage, boxes, identifiers and completions are read back from their JSON text as they were,
    whatever characters their names and properties have, however many cells and properties there
    are, and to the ends of every range of numbers and the last nanosecond. -/
theorem read_as_written :
    (∀ world : WorldName, ReadAsWritten Json.ofString Json.string? world) ∧
    (∀ pos, ReadAsWritten Pos.toJson Pos.ofJson? pos) ∧
    (∀ content, ReadAsWritten Content.toJson Content.ofJson? content) ∧
    (∀ provenance, ReadAsWritten Provenance.toJson Provenance.ofJson? provenance) ∧
    (∀ outcome, ReadAsWritten Outcome.toJson Outcome.ofJson? outcome) ∧
    (∀ cell, ReadAsWritten LostCell.toJson LostCell.ofJson? cell) ∧
    (∀ damage, ReadAsWritten Damage.toJson Damage.ofJson? damage) ∧
    (∀ box, ReadAsWritten Box.toJson Box.ofJson? box) ∧
    (∀ id, ReadAsWritten DamageId.toJson DamageId.ofJson? id) ∧
    (∀ completion, ReadAsWritten TimedCompletion.toJson TimedCompletion.ofJson? completion) where
  left world := readAsWritten (Json.faithful_ofString world) rfl
  right := by
    refine ⟨fun pos => ?_, fun content => ?_, fun provenance => ?_, fun outcome => ?_,
      fun cell => ?_, fun damage => ?_, fun box => ?_, fun id => ?_, fun completion => ?_⟩
    · exact readAsWritten pos.faithful pos.ofJson?_toJson
    · exact readAsWritten content.faithful content.ofJson?_toJson
    · exact readAsWritten provenance.faithful provenance.ofJson?_toJson
    · exact readAsWritten outcome.faithful outcome.ofJson?_toJson
    · exact readAsWritten cell.faithful cell.ofJson?_toJson
    · exact readAsWritten damage.faithful damage.ofJson?_toJson
    · exact readAsWritten box.faithful box.ofJson?_toJson
    · exact readAsWritten id.faithful id.ofJson?_toJson
    · exact readAsWritten completion.faithful completion.ofJson?_toJson

end Mend
