import Lifecycle.Proofs.Json.Scalars

/-! A value that has a written form is read back from it, with what follows left over. The fuel of
the reader is spent one step at a time, so as much as there are characters is enough. -/

namespace Lifecycle.Json

/-! ### Values that can be written -/

mutual

/-- Values that a text denotes: the integers have 64 bits, and the other numbers are those that
are neither integers nor beyond every double. -/
def Writable : Json → Prop
  | .int n => Int64.minValue.toInt ≤ n ∧ n < UInt64.size
  | .decimal text => ∃ x : Numeral, x.WellFormed ∧ x.toJson = .decimal text
  | .arr items => ItemsWritable items
  | .obj fields => FieldsWritable fields
  | .garbled => False
  | _ => True

def ItemsWritable : List Json → Prop
  | [] => True
  | v :: vs => v.Writable ∧ ItemsWritable vs

def FieldsWritable : List (String × Json) → Prop
  | [] => True
  | (_, v) :: fs => v.Writable ∧ FieldsWritable fs

end

theorem fieldsWritable_iff {fields : List (String × Json)} :
    FieldsWritable fields ↔ ∀ f ∈ fields, f.2.Writable := by
  induction fields with
  | nil => simp [FieldsWritable]
  | cons f fs ih => simp [FieldsWritable, ih]

/-- A number that is no integer keeps the text of its numeral. -/
theorem text_of_toJson {x : Numeral} {text : String} (h : x.toJson = .decimal text) :
    text.toList = x.write := by
  unfold Numeral.toJson at h
  generalize (if x.negative then _ else _ : Int) = n at h
  dsimp only at h
  split at h
  · cases h
  split at h
  · cases h
  · cases h
    exact String.toList_ofList

/-! ### Reading a value -/

variable {rest : List Char}

theorem skipSpace_cons {c : Char} (hc : isSpace c = false) : skipSpace (c :: rest) = c :: rest :=
  List.dropWhile_cons_of_neg (by simp [hc])

/-- The first character of a numeral. -/
def startsNumeral (c : Char) : Bool := c == '-' || Text.isDigit c

theorem isSpace_of_startsNumeral {c : Char} (hc : startsNumeral c) : isSpace c = false := by
  by_contra hs
  simp only [isSpace, Bool.not_eq_false, Bool.or_eq_true, beq_iff_eq] at hs
  rcases hs with ((rfl | rfl) | rfl) | rfl <;> cases hc

theorem value?_numeral {c : Char} (fuel : Nat) (hc : startsNumeral c) :
    value? (fuel + 1) (c :: rest) =
      (numeral? (c :: rest)).map fun p => (p.1.toJson, p.2) := by
  have hne : c ≠ '"' ∧ c ≠ '[' ∧ c ≠ '\x7b' ∧ c ≠ 'n' ∧ c ≠ 't' ∧ c ≠ 'f' := by
    refine ⟨?_, ?_, ?_, ?_, ?_, ?_⟩ <;> (rintro rfl; cases hc)
  rw [value?, skipSpace_cons (isSpace_of_startsNumeral hc)]
  split <;> simp_all

theorem startsNumeral_write {x : Numeral} (hx : x.WellFormed) :
    ∃ c cs, x.write = c :: cs ∧ startsNumeral c := by
  obtain ⟨c, cs, hcs, hc⟩ := hx.whole.exists_cons
  unfold Numeral.write
  cases x.negative with
  | true => exact ⟨'-', _, rfl, rfl⟩
  | false => exact ⟨c, _, by rw [hcs]; rfl, by simp [startsNumeral, hc]⟩

/-- The value is read back from its written form, with what follows left over. The written form
begins with neither a blank nor a closing bracket, so that a list of values is read as one. -/
structure ReadsBack (v : Json) : Prop where
  head : ∃ c cs, v.write = c :: cs ∧ isSpace c = false ∧ c ≠ ']'
  value : ∀ fuel rest, v.write.length ≤ fuel + 1 → Stops rest →
    value? (fuel + 1) (v.write ++ rest) = some (v, rest)

theorem ReadsBack.length_pos {v : Json} (hv : v.ReadsBack) : 0 < v.write.length := by
  obtain ⟨c, cs, hcs, -⟩ := hv.head
  rw [hcs]
  exact Nat.succ_pos _

/-! ### Values without parts -/

theorem readsBack_null : Json.null.ReadsBack where
  head := ⟨'n', _, rfl, rfl, by decide⟩
  value _ _ _ _ := rfl

theorem readsBack_bool (b : Bool) : (Json.bool b).ReadsBack := by
  cases b with
  | false => exact ⟨⟨'f', _, rfl, rfl, by decide⟩, fun _ _ _ _ => rfl⟩
  | true => exact ⟨⟨'t', _, rfl, rfl, by decide⟩, fun _ _ _ _ => rfl⟩

theorem readsBack_str (s : String) : (Json.str s).ReadsBack where
  head := ⟨'"', _, rfl, rfl, by decide⟩
  value fuel rest _ _ := by
    have hread := string?_write s rest
    rw [write, writeString, List.append_assoc, List.singleton_append, value?]
    simp only [List.cons_append, skipSpace_cons (show isSpace '"' = false from rfl), hread]
    rfl

theorem readsBack_numeral {v : Json} {x : Numeral} (hx : x.WellFormed) (hv : x.toJson = v)
    (hw : v.write = x.write) : v.ReadsBack := by
  obtain ⟨c, cs, hcs, hc⟩ := startsNumeral_write hx
  refine ⟨⟨c, cs, hw.trans hcs, isSpace_of_startsNumeral hc, ?_⟩, fun fuel rest _ hrest => ?_⟩
  · rintro rfl
    cases hc
  · have hread := hx.numeral?_append hrest
    rw [hcs, List.cons_append] at hread
    rw [hw, hcs, List.cons_append, value?_numeral fuel hc, hread, Option.map_some, hv]

theorem readsBack_int {n : Int} (hlow : Int64.minValue.toInt ≤ n) (hhigh : n < UInt64.size) :
    (Json.int n).ReadsBack :=
  readsBack_numeral (wellFormed_numeralOf n) (toJson_numeralOf hlow hhigh) (write_numeralOf n).symm

theorem readsBack_decimal {text : String} {x : Numeral} (hx : x.WellFormed)
    (ht : x.toJson = .decimal text) : (Json.decimal text).ReadsBack :=
  readsBack_numeral hx ht (by rw [write, text_of_toJson ht])

/-! ### Arrays -/

theorem stops_cons {c : Char} (hc : c = ',' ∨ c = ']' ∨ c = '\x7d') : Stops (c :: rest) := by
  rcases hc with rfl | rfl | rfl <;>
    exact ⟨fun c hc => by cases hc; rfl, by simp, by simp⟩

theorem stops_writeItems (vs : List Json) : Stops (writeItems vs ++ rest) := by
  cases vs with
  | nil => exact stops_cons (Or.inr (Or.inl rfl))
  | cons v vs => exact stops_cons (Or.inl rfl)

/-- Each item takes one step more than its own value, and is followed by one character at least. -/
theorem items?_write {vs : List Json} (hvs : ∀ v ∈ vs, v.ReadsBack) {v : Json} (hv : v.ReadsBack)
    {fuel : Nat} (hf : v.write.length + (writeItems vs).length ≤ fuel) :
    items? fuel (v.write ++ (writeItems vs ++ rest)) = some (v :: vs, rest) := by
  induction vs generalizing v fuel with
  | nil =>
    have hpos := hv.length_pos
    have hlen : v.write.length + 1 ≤ fuel := hf
    obtain ⟨fuel, rfl⟩ : ∃ n, fuel = n + 2 := ⟨fuel - 2, by omega⟩
    have hread := hv.value fuel (writeItems [] ++ rest) (by omega) (stops_writeItems [])
    rw [items?, hread]
    rfl
  | cons w vs ih =>
    have hpos := hv.length_pos
    have hlen : v.write.length + (w.write.length + (writeItems vs).length + 1) ≤ fuel := by
      simpa [writeItems] using hf
    obtain ⟨fuel, rfl⟩ : ∃ n, fuel = n + 2 := ⟨fuel - 2, by omega⟩
    have hread := hv.value fuel (writeItems (w :: vs) ++ rest) (by omega) (stops_writeItems _)
    have hmore : items? (fuel + 1) (w.write ++ (writeItems vs ++ rest)) = some (w :: vs, rest) :=
      ih (fun v hv => hvs v (List.mem_cons_of_mem _ hv)) (hvs w List.mem_cons_self) (by omega)
    rw [items?, hread, Option.bind_some]
    simp only [writeItems, List.cons_append, List.append_assoc,
      skipSpace_cons (show isSpace ',' = false from rfl), hmore, Option.map_some]

theorem readsBack_arr {items : List Json} (h : ∀ v ∈ items, v.ReadsBack) :
    (Json.arr items).ReadsBack := by
  cases items with
  | nil => exact ⟨⟨'[', _, rfl, rfl, by decide⟩, fun _ _ _ _ => rfl⟩
  | cons v vs =>
    have hv := h v List.mem_cons_self
    refine ⟨⟨'[', _, rfl, rfl, by decide⟩, fun fuel rest hf _ => ?_⟩
    obtain ⟨c, cs, hcs, hspace, hclose⟩ := hv.head
    have hread : items? fuel (v.write ++ (writeItems vs ++ rest)) = some (v :: vs, rest) :=
      items?_write (fun v hv => h v (List.mem_cons_of_mem _ hv)) hv (by simpa [write] using hf)
    rw [hcs, List.cons_append] at hread
    rw [write, hcs, value?]
    simp only [List.cons_append, List.append_assoc,
      skipSpace_cons (show isSpace '[' = false from rfl), skipSpace_cons hspace]
    split
    · next he =>
      cases he
      exact absurd rfl hclose
    · rw [hread]
      rfl

/-! ### Objects -/

theorem stops_writeFields (fs : List (String × Json)) : Stops (writeFields fs ++ rest) := by
  cases fs with
  | nil => exact stops_cons (Or.inr (Or.inr rfl))
  | cons f fs => exact stops_cons (Or.inl rfl)

/-- The members as they are read, before the keys are known to be whole. -/
def membersOf (fs : List (String × Json)) : List (Option String × Json) :=
  fs.map fun f => (some f.1, f.2)

theorem ofMembers_membersOf (fs : List (String × Json)) : ofMembers (membersOf fs) = .obj fs := by
  have hmap : (membersOf fs).mapM (fun m => m.1.map (·, m.2)) = some fs := by
    unfold membersOf
    induction fs with
    | nil => rfl
    | cons f fs ih => rw [List.map_cons, List.mapM_cons, ih]; rfl
  rw [ofMembers, hmap]

/-- A key and its value are read; what stands after them decides whether there are more. -/
theorem members?_member {k : String} {v : Json} {tail : List Char} {fuel : Nat}
    (hread : value? fuel (v.write ++ tail) = some (v, tail)) :
    members? (fuel + 1) (writeString k ++ (':' :: v.write ++ tail)) =
      match skipSpace tail with
      | ',' :: rest => (members? fuel rest).map fun (ms, rest) => ((some k, v) :: ms, rest)
      | '\x7d' :: rest => some ([(some k, v)], rest)
      | _ => none := by
  have hkey := string?_write k (':' :: v.write ++ tail)
  rw [members?, writeString]
  simp only [List.cons_append, List.append_assoc, List.nil_append,
    skipSpace_cons (show isSpace '"' = false from rfl)] at hkey ⊢
  rw [hkey, Option.bind_some, skipSpace_cons (show isSpace ':' = false from rfl)]
  change (value? fuel (v.write ++ tail)).bind _ = _
  rw [hread]
  rfl

theorem members?_write {fs : List (String × Json)} (hfs : ∀ f ∈ fs, f.2.ReadsBack) {k : String}
    {v : Json} (hv : v.ReadsBack) {fuel : Nat}
    (hf : v.write.length + (writeFields fs).length ≤ fuel) :
    members? fuel (writeString k ++ (':' :: v.write ++ (writeFields fs ++ rest))) =
      some (membersOf ((k, v) :: fs), rest) := by
  induction fs generalizing k v fuel with
  | nil =>
    have hpos := hv.length_pos
    have hlen : v.write.length + 1 ≤ fuel := hf
    obtain ⟨fuel, rfl⟩ : ∃ n, fuel = n + 2 := ⟨fuel - 2, by omega⟩
    rw [members?_member (hv.value fuel _ (by omega) (stops_writeFields []))]
    rfl
  | cons f fs ih =>
    obtain ⟨l, w⟩ := f
    have hpos := hv.length_pos
    have hlen : v.write.length + (w.write.length + (writeFields fs).length + 1) ≤ fuel := by
      simp only [writeFields, List.cons_append, List.length_cons, List.length_append] at hf
      omega
    obtain ⟨fuel, rfl⟩ : ∃ n, fuel = n + 2 := ⟨fuel - 2, by omega⟩
    have hw : w.ReadsBack := hfs (l, w) List.mem_cons_self
    have hmore : members? (fuel + 1) (writeString l ++ (':' :: w.write ++ (writeFields fs ++ rest)))
        = some (membersOf ((l, w) :: fs), rest) :=
      ih (fun f hf => hfs f (List.mem_cons_of_mem _ hf)) hw (by omega)
    rw [members?_member (hv.value fuel _ (by omega) (stops_writeFields _))]
    simp only [writeFields, List.cons_append, List.append_assoc,
      skipSpace_cons (show isSpace ',' = false from rfl)] at hmore ⊢
    rw [hmore]
    rfl

theorem readsBack_obj {fields : List (String × Json)} (h : ∀ f ∈ fields, f.2.ReadsBack) :
    (Json.obj fields).ReadsBack := by
  match fields, h with
  | [], _ => exact ⟨⟨'\x7b', _, rfl, rfl, by decide⟩, fun _ _ _ _ => rfl⟩
  | (k, v) :: fs, h =>
    refine ⟨⟨'\x7b', _, rfl, rfl, by decide⟩, fun fuel rest hf _ => ?_⟩
    have hv : v.ReadsBack := h (k, v) List.mem_cons_self
    have hlen : v.write.length + (writeFields fs).length ≤ fuel := by
      simp only [write, List.cons_append, List.length_cons, List.length_append] at hf
      omega
    have hread : members? fuel (writeString k ++ (':' :: v.write ++ (writeFields fs ++ rest))) =
        some (membersOf ((k, v) :: fs), rest) :=
      members?_write (fun f hf => h f (List.mem_cons_of_mem _ hf)) hv hlen
    rw [write, value?]
    simp only [writeString, List.cons_append, List.append_assoc,
      skipSpace_cons (show isSpace '\x7b' = false from rfl),
      skipSpace_cons (show isSpace '"' = false from rfl)] at hread ⊢
    split
    · next he => cases he
    · rw [hread, Option.map_some, ofMembers_membersOf]

/-! ### All values -/

mutual

theorem readsBack : {v : Json} → v.Writable → v.ReadsBack
  | .null, _ => readsBack_null
  | .bool b, _ => readsBack_bool b
  | .int _, h => readsBack_int h.1 h.2
  | .decimal _, ⟨_, hx, ht⟩ => readsBack_decimal hx ht
  | .str s, _ => readsBack_str s
  | .arr _, h => readsBack_arr (itemsReadBack h)
  | .obj _, h => readsBack_obj (fieldsReadBack h)
  | .garbled, h => h.elim

theorem itemsReadBack : {items : List Json} → ItemsWritable items → ∀ v ∈ items, v.ReadsBack
  | _ :: _, h, _, .head _ => readsBack h.1
  | _ :: _, h, _, .tail _ hv => itemsReadBack h.2 _ hv

theorem fieldsReadBack :
    {fields : List (String × Json)} → FieldsWritable fields → ∀ f ∈ fields, f.2.ReadsBack
  | _ :: _, h, _, .head _ => readsBack h.1
  | _ :: _, h, _, .tail _ hf => fieldsReadBack h.2 _ hf

end

/-- A value that has a written form is read back from it. -/
theorem parse?_write {v : Json} (hv : v.Writable) : parse? v.write = some v := by
  have hread := (readsBack hv).value v.write.length [] (Nat.le_succ _)
    ⟨(fun _ hc => by cases hc), by simp, by simp⟩
  rw [List.append_nil] at hread
  rw [parse?, hread]
  rfl

end Lifecycle.Json
