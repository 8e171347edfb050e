import Mend.Json.Value
import Mend.Proofs.Json.Scanning

set_option autoImplicit false

/-! # JSON values that are written and read

A value is faithful if every string and key in it denotes a text and every number in it is an
integer. The text of a faithful value is scanned as the value's tokens, and these are read as the
value, so it is read back from its text (`ofText?_text`). Both steps are by induction on the value,
with what follows it arbitrary: after a value comes a separator, a bracket or the end, and none of
these goes on with a number.

A record is read by the names of its fields, in any order, and a field that is left out is missing
(`fields?_record`). -/

namespace Mend

namespace Json

/-- Every string and key in the value denotes a text, and every number is an integer. -/
inductive Faithful : Json → Prop where
  | null : Faithful .null
  | bool (b : Bool) : Faithful (.bool b)
  | int (n : Int) : Faithful (.int n)
  | str (s : String) : Faithful (.str (some s))
  | arr {items : List Json} (each : ∀ v ∈ items, Faithful v) : Faithful (.arr items)
  | obj {members : List (Option String × Json)} (keys : ∀ m ∈ members, m.1.isSome = true)
      (each : ∀ m ∈ members, Faithful m.2) : Faithful (.obj members)

/-! ## The tokens of a value -/

mutual

/-- The tokens that a value is written as. -/
def tokens : Json → List Token
  | .null => [.null]
  | .bool b => [.bool b]
  | .int n => [.int n]
  | .real => [.real]
  | .str s => [.str s]
  | .arr items => .openBracket :: (itemTokens items ++ [.closeBracket])
  | .obj members => .openBrace :: (memberTokens members ++ [.closeBrace])

/-- The tokens of items, with commas between them. -/
def itemTokens : List Json → List Token
  | [] => []
  | [v] => tokens v
  | v :: rest => tokens v ++ .comma :: itemTokens rest

/-- The tokens of members, with commas between them. -/
def memberTokens : List (Option String × Json) → List Token
  | [] => []
  | [(key, v)] => .str key :: .colon :: tokens v
  | (key, v) :: rest => .str key :: .colon :: (tokens v ++ .comma :: memberTokens rest)

end

/-- No value begins with a closing bracket. -/
theorem exists_tokens_eq (v : Json) : ∃ t ts, v.tokens = t :: ts ∧ t ≠ .closeBracket := by
  cases v <;> exact ⟨_, _, rfl, nofun⟩

theorem exists_itemTokens_eq (v : Json) (rest : List Json) :
    ∃ t ts, itemTokens (v :: rest) = t :: ts ∧ t ≠ .closeBracket := by
  obtain ⟨t, ts, hv, ht⟩ := exists_tokens_eq v
  cases rest with
  | nil => exact ⟨t, ts, by rw [itemTokens, hv], ht⟩
  | cons w rest => exact ⟨t, ts ++ .comma :: itemTokens (w :: rest),
      by rw [itemTokens, hv, List.cons_append]; exact nofun, ht⟩

theorem exists_memberTokens_eq (m : Option String × Json) (rest : List (Option String × Json)) :
    ∃ ts, memberTokens (m :: rest) = .str m.1 :: ts := by
  cases rest <;> exact ⟨_, rfl⟩

/-! ## Scanning the text of a value -/

open Token in
/-- The text of a value, before a text that does not go on with a number, consists of the value's
    tokens and those of that text. -/
def ScansBack (v : Json) : Prop :=
  ∀ rest ts, Scans rest ts → StopsNumber rest → Scans (v.chars ++ rest) (v.tokens ++ ts)

section Scanning

open Token

variable {rest : List Char} {ts : List Token}

theorem stopsNumber_cons {c : Char} (h : c = ',' ∨ c = ']' ∨ c = '\x7d') (cs : List Char) :
    StopsNumber (c :: cs) := by
  rintro _ ⟨⟩
  rcases h with rfl | rfl | rfl <;> decide

theorem scans_itemChars {items : List Json} (h : ∀ v ∈ items, ScansBack v) (hrest : Scans rest ts)
    (hstops : StopsNumber rest) : Scans (itemChars items ++ rest) (itemTokens items ++ ts) := by
  induction items with
  | nil => exact hrest
  | cons v items ih =>
      obtain ⟨hv, hitems⟩ := List.forall_mem_cons.1 h
      cases items with
      | nil => exact hv rest ts hrest hstops
      | cons w items =>
          have hcomma := (ih hitems).mark (c := ',') rfl rfl
          have hall := hv _ _ hcomma (stopsNumber_cons (Or.inl rfl) _)
          simpa [itemChars, itemTokens] using hall

theorem scans_memberChars {members : List (Option String × Json)}
    (hkeys : ∀ m ∈ members, m.1.isSome = true) (h : ∀ m ∈ members, ScansBack m.2)
    (hrest : Scans rest ts) (hstops : StopsNumber rest) :
    Scans (memberChars members ++ rest) (memberTokens members ++ ts) := by
  induction members with
  | nil => exact hrest
  | cons m members ih =>
      obtain ⟨hm, hmembers⟩ := List.forall_mem_cons.1 h
      obtain ⟨hkey, hrestkeys⟩ := List.forall_mem_cons.1 hkeys
      obtain ⟨key, v⟩ := m
      obtain ⟨key, rfl⟩ := Option.isSome_iff_exists.1 hkey
      cases members with
      | nil =>
          have hcolon := (hm rest ts hrest hstops).mark (c := ':') rfl rfl
          simpa [memberChars, memberTokens] using hcolon.str key
      | cons m' members =>
          have hcomma := (ih hrestkeys hmembers).mark (c := ',') rfl rfl
          have hcolon := (hm _ _ hcomma (stopsNumber_cons (Or.inl rfl) _)).mark (c := ':') rfl rfl
          simpa [memberChars, memberTokens] using hcolon.str key

/-- A faithful value is scanned as its tokens. -/
theorem Faithful.scansBack {v : Json} (h : v.Faithful) : v.ScansBack := by
  induction h with
  | null => exact fun rest ts hrest _ => hrest.word rfl (List.cons_ne_nil _ _) (by rintro _ ⟨⟩; rfl)
  | bool b =>
      intro rest ts hrest _
      cases b <;> exact hrest.word rfl (List.cons_ne_nil _ _) (by rintro _ ⟨⟩; rfl)
  | int n => exact fun rest ts hrest hstops => hrest.int n hstops
  | str s => exact fun rest ts hrest _ => hrest.str s
  | @arr items each ih =>
      intro rest ts hrest _
      have hclose := hrest.mark (c := ']') rfl rfl
      have hitems := scans_itemChars ih hclose (stopsNumber_cons (Or.inr (Or.inl rfl)) _)
      simpa [chars, tokens] using hitems.mark (c := '[') rfl rfl
  | @obj members keys each ih =>
      intro rest ts hrest _
      have hclose := hrest.mark (c := '\x7d') rfl rfl
      have hmembers := scans_memberChars keys ih hclose (stopsNumber_cons (Or.inr (Or.inr rfl)) _)
      simpa [chars, tokens] using hmembers.mark (c := '\x7b') rfl rfl

end Scanning

/-! ## Reading the tokens of a value -/

/-- The tokens of a value are read as the value, whatever follows them. -/
def ReadsBack (v : Json) : Prop :=
  ∀ fuel ts, 2 * v.tokens.length ≤ fuel + 1 → value? fuel (v.tokens ++ ts) = some (v, ts)

section Reading

variable {ts : List Token}

theorem items?_itemTokens {v : Json} {items : List Json} (h : ∀ w ∈ v :: items, ReadsBack w)
    {fuel : Nat} (hfuel : 2 * (itemTokens (v :: items)).length ≤ fuel) :
    items? fuel (itemTokens (v :: items) ++ .closeBracket :: ts) = some (v :: items, ts) := by
  induction items generalizing v fuel with
  | nil =>
      obtain ⟨t, ts', hv, -⟩ := exists_tokens_eq v
      rw [itemTokens] at hfuel ⊢
      obtain ⟨fuel, rfl⟩ := Nat.exists_eq_succ_of_ne_zero (n := fuel) (by
        rw [hv, List.length_cons] at hfuel
        omega)
      rw [items?, h v List.mem_cons_self fuel _ hfuel]
  | cons w items ih =>
      obtain ⟨hv, hitems⟩ := List.forall_mem_cons.1 h
      have hsplit :
          itemTokens (v :: w :: items) = v.tokens ++ .comma :: itemTokens (w :: items) := by
        rw [itemTokens]
        exact nofun
      rw [hsplit, List.length_append, List.length_cons] at hfuel
      obtain ⟨fuel, rfl⟩ := Nat.exists_eq_succ_of_ne_zero (n := fuel) (by omega)
      rw [hsplit, List.append_assoc, List.cons_append, items?, hv fuel _ (by omega)]
      have hmore := @ih w hitems fuel (by omega)
      simp only [hmore, Option.map_some]

theorem members?_memberTokens {m : Option String × Json} {members : List (Option String × Json)}
    (h : ∀ n ∈ m :: members, ReadsBack n.2) {fuel : Nat}
    (hfuel : 2 * (memberTokens (m :: members)).length ≤ fuel) :
    members? fuel (memberTokens (m :: members) ++ .closeBrace :: ts) = some (m :: members, ts) := by
  induction members generalizing m fuel with
  | nil =>
      obtain ⟨key, v⟩ := m
      rw [memberTokens] at hfuel ⊢
      simp only [List.length_cons] at hfuel
      obtain ⟨fuel, rfl⟩ := Nat.exists_eq_succ_of_ne_zero (n := fuel) (by omega)
      have hcount : 2 * v.tokens.length ≤ fuel + 1 := by omega
      have hv := h (key, v) List.mem_cons_self fuel (.closeBrace :: ts) hcount
      simp only [List.cons_append, members?, hv]
  | cons n members ih =>
      obtain ⟨hm, hmembers⟩ := List.forall_mem_cons.1 h
      obtain ⟨key, v⟩ := m
      have hsplit : memberTokens ((key, v) :: n :: members)
          = .str key :: .colon :: (v.tokens ++ .comma :: memberTokens (n :: members)) := by
        rw [memberTokens]
        exact nofun
      rw [hsplit] at hfuel ⊢
      simp only [List.length_cons, List.length_append] at hfuel
      obtain ⟨fuel, rfl⟩ := Nat.exists_eq_succ_of_ne_zero (n := fuel) (by omega)
      have hcount : 2 * v.tokens.length ≤ fuel + 1 := by omega
      have hv := hm fuel (.comma :: (memberTokens (n :: members) ++ .closeBrace :: ts)) hcount
      have hmore := @ih n hmembers fuel (by omega)
      simp only [List.cons_append, List.append_assoc, members?, hv, hmore, Option.map_some]

/-- An array that does not close at once has items. -/
theorem value?_openBracket {t : Token} (ht : t ≠ .closeBracket) (fuel : Nat) (ts : List Token) :
    value? (fuel + 1) (.openBracket :: t :: ts)
      = (items? fuel (t :: ts)).map fun r => (.arr r.1, r.2) := by
  rw [value?]
  rintro _ ⟨⟩
  exact ht rfl

/-- The tokens of a faithful value are read as the value. -/
theorem Faithful.readsBack {v : Json} (h : v.Faithful) : v.ReadsBack := by
  induction h with
  | @arr items each ih =>
      intro fuel ts hfuel
      rw [tokens, List.length_cons, List.length_append, List.length_singleton] at hfuel
      obtain ⟨fuel, rfl⟩ := Nat.exists_eq_succ_of_ne_zero (n := fuel) (by omega)
      cases items with
      | nil => rfl
      | cons v items =>
          obtain ⟨t, ts', hitems, ht⟩ := exists_itemTokens_eq v items
          have hread := @items?_itemTokens ts v items ih fuel (by omega)
          rw [tokens, List.cons_append, List.append_assoc, List.singleton_append]
          rw [hitems, List.cons_append] at hread ⊢
          rw [value?_openBracket ht, hread]
          rfl
  | @obj members keys each ih =>
      intro fuel ts hfuel
      rw [tokens, List.length_cons, List.length_append, List.length_singleton] at hfuel
      obtain ⟨fuel, rfl⟩ := Nat.exists_eq_succ_of_ne_zero (n := fuel) (by omega)
      cases members with
      | nil => rfl
      | cons m members =>
          obtain ⟨ts', hmembers⟩ := exists_memberTokens_eq m members
          have hread := @members?_memberTokens ts m members ih fuel (by omega)
          rw [tokens, List.cons_append, List.append_assoc, List.singleton_append]
          rw [hmembers, List.cons_append] at hread ⊢
          rw [value?, hread]
          · rfl
          · exact nofun
  | _ =>
      intro fuel ts hfuel
      obtain ⟨fuel, rfl⟩ := Nat.exists_eq_succ_of_ne_zero (n := fuel) (by
        rw [tokens, List.length_singleton] at hfuel
        omega)
      rfl

end Reading

/-- **A faithful value is read back from its text.** -/
theorem ofText?_text {v : Json} (h : v.Faithful) : ofText? v.text = some v := by
  have hscan := h.scansBack [] [] Token.Scans.done nofun
  rw [List.append_nil, List.append_nil] at hscan
  have hread := h.readsBack (2 * v.tokens.length + 1) [] (by omega)
  rw [List.append_nil] at hread
  rw [ofText?, text, String.toList_ofList, hscan.scan?_eq, Option.bind_some, ofTokens?, hread]

/-! ## Records -/

section Records

variable {fields : List (String × Json)}

theorem faithful_record (h : ∀ f ∈ fields, f.2.Faithful) : (record fields).Faithful := by
  refine Faithful.obj ?_ ?_
  · intro m hm
    obtain ⟨f, -, rfl⟩ := List.mem_map.1 hm
    rfl
  · intro m hm
    obtain ⟨f, hf, rfl⟩ := List.mem_map.1 hm
    exact h f hf

/-- The first member counts where it has the name, before those after it. -/
theorem lookUp_cons (key : String) (v : Json) (members : List (Option String × Json))
    (name : String) : lookUp ((some key, v) :: members) name
      = if key = name then (some v, (lookUp members name).2 + 1) else lookUp members name := by
  by_cases h : key = name <;> simp [lookUp, h]

theorem lookup_cons_eq (key : String) (v : Json) (name : String) :
    ((key, v) :: fields).lookup name = if key = name then some v else fields.lookup name := by
  by_cases h : key = name
  · simp [h]
  · have hne : (name == key) = false := beq_eq_false_iff_ne.2 (Ne.symm h)
    simp [List.lookup_cons, h, hne]

/-- A name that no field has is not found. -/
theorem lookUp_of_notMem {name : String} (h : name ∉ fields.map Prod.fst) :
    (lookUp (fields.map fun f => (some f.1, f.2)) name).2 = 0 := by
  induction fields with
  | nil => rfl
  | cons f fields ih =>
      obtain ⟨hne, hrest⟩ := not_or.1 (mt List.mem_cons.2 h)
      rw [List.map_cons, lookUp_cons, if_neg (Ne.symm hne)]
      exact ih hrest

/-- Where no two fields have the same name, a name is found at most once, with its field. -/
theorem lookUp_fields (h : (fields.map Prod.fst).Nodup) (name : String) :
    (lookUp (fields.map fun f => (some f.1, f.2)) name).1 = fields.lookup name ∧
      (lookUp (fields.map fun f => (some f.1, f.2)) name).2 ≤ 1 := by
  induction fields with
  | nil => exact ⟨rfl, Nat.zero_le 1⟩
  | cons f fields ih =>
      obtain ⟨hnew, hnodup⟩ := List.nodup_cons.1 h
      obtain ⟨key, v⟩ := f
      rw [List.map_cons, lookUp_cons, lookup_cons_eq]
      by_cases hname : key = name
      · have hnone := lookUp_of_notMem (hname ▸ hnew)
        rw [if_pos hname, if_pos hname, hnone]
        exact ⟨rfl, Nat.le_refl 1⟩
      · rw [if_neg hname, if_neg hname]
        exact ih hnodup

/-- A record is read by the names of its fields. -/
theorem fields?_record (h : (fields.map Prod.fst).Nodup) (names : List String) :
    fields? names (record fields) = some (names.map fun name => fields.lookup name) := by
  have hkeys : (fields.map fun f => (some f.1, f.2)).all (fun m => m.1.isSome) = true := by simp
  have honce : (names.map (lookUp (fields.map fun f => (some f.1, f.2)))).all (fun f => f.2 ≤ 1)
      = true := by
    simpa using fun name _ => (lookUp_fields h name).2
  rw [record, fields?]
  simp only [hkeys, honce, Bool.and_self, if_true, List.map_map]
  exact congrArg some (List.map_congr_left fun name _ => (lookUp_fields h name).1)

end Records

end Json

end Mend
