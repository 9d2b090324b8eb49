import Mathlib.Data.Nat.Digits.Defs
import Lifecycle.Json.Parser
import Lifecycle.Json.Printer

/-! Strings and numbers are read back as they are written, whatever follows a string, and whatever
follows a number that could not be more of it. -/

namespace Lifecycle.Json

/-! ### Strings -/

/-- How a character stands in a string: the controls without a short escape as their code. -/
def piece (c : Char) : Piece :=
  if c.toNat < 32 ∧ c ∉ ['\n', '\r', '\t', '\x08', '\x0c'] then .word c.toNat else .char c

theorem hexWord?_hexPair : ∀ n < 32,
    hexWord? '0' '0' (Nat.digitChar (n / 16)) (Nat.digitChar (n % 16)) = some n := by
  decide

theorem pieces?_short {e c : Char} (rest : List Char) (hc : shortEscape? e = some c) :
    pieces? ('\\' :: e :: rest) = (pieces? rest).map fun p => (.char c :: p.1, p.2) := by
  rw [pieces?, hc]
  · cases pieces? rest <;> rfl
  · rintro _ _ _ _ _ rfl
    cases hc

theorem pieces?_plain {c : Char} (rest : List Char) (hc : ¬c.toNat < 32) (hq : c ≠ '"')
    (hb : c ≠ '\\') : pieces? (c :: rest) = (pieces? rest).map fun p => (.char c :: p.1, p.2) := by
  rw [pieces?, if_neg hc]
  · cases pieces? rest <;> rfl
  · exact hq
  all_goals intros; exact absurd ‹_› hb

theorem pieces?_code {n : Nat} (rest : List Char) (hn : n < 32) :
    pieces? ('\\' :: 'u' :: '0' :: '0' :: hexPair n ++ rest) =
      (pieces? rest).map fun p => (.word n :: p.1, p.2) := by
  simp only [hexPair, List.cons_append, List.nil_append]
  rw [pieces?, hexWord?_hexPair n hn]
  cases pieces? rest <;> rfl

/-- An escape is read back as one piece. -/
theorem pieces?_escape (c : Char) (rest : List Char) :
    pieces? (escape c ++ rest) = (pieces? rest).map fun p => (piece c :: p.1, p.2) := by
  by_cases hquote : c = '"' ∨ c = '\\'
  · rcases hquote with rfl | rfl <;> exact pieces?_short rest rfl
  by_cases hshort : c = '\n' ∨ c = '\r' ∨ c = '\t' ∨ c = '\x08' ∨ c = '\x0c'
  · rcases hshort with rfl | rfl | rfl | rfl | rfl <;> exact pieces?_short rest rfl
  by_cases hc : c.toNat < 32
  · have he : escape c = '\\' :: 'u' :: '0' :: '0' :: hexPair c.toNat := by simp_all [escape]
    have hp : piece c = .word c.toNat := if_pos (by simp_all)
    rw [he, hp]
    exact pieces?_code rest hc
  · have he : escape c = [c] := by simp_all [escape]
    have hp : piece c = .char c := if_neg fun hw => hc hw.1
    rw [he, hp]
    exact pieces?_plain rest hc (fun h => hquote (Or.inl h)) fun h => hquote (Or.inr h)

theorem pieces?_flatMap_escape (cs rest : List Char) :
    pieces? (cs.flatMap escape ++ '"' :: rest) = some (cs.map piece, rest) := by
  induction cs with
  | nil => rfl
  | cons c cs ih => rw [List.flatMap_cons, List.append_assoc, pieces?_escape, ih]; rfl

/-- A code below 32 is no half of a pair, so the pieces are put together one by one. -/
theorem assemble?_piece (c : Char) (ps : List Piece) :
    assemble? (piece c :: ps) = (assemble? ps).map (c :: ·) := by
  unfold piece
  split
  · next h =>
    have hhigh : isHighHalf c.toNat = false := by simp [isHighHalf]; omega
    have hlow : isLowHalf c.toNat = false := by simp [isLowHalf]; omega
    cases ps with
    | nil => simp [assemble?, hhigh, hlow]
    | cons p ps => cases p <;> simp [assemble?, hhigh, hlow]
  · rw [assemble?]

theorem assemble?_map_piece (cs : List Char) : assemble? (cs.map piece) = some cs := by
  induction cs with
  | nil => rfl
  | cons c cs ih => rw [List.map_cons, assemble?_piece, ih]; rfl

theorem string?_write (s : String) (rest : List Char) :
    string? (s.toList.flatMap escape ++ '"' :: rest) = some (some s, rest) := by
  rw [string?, pieces?_flatMap_escape, Option.map_some]
  simp only [assemble?_map_piece, Option.map_some, String.ofList_toList]

/-! ### Numbers -/

/-- What follows a number is no digit, or there are more digits to the number. -/
def NoDigit (rest : List Char) : Prop := ∀ c ∈ rest.head?, Text.isDigit c = false

/-- What may follow a number without being read as more of it. -/
structure Stops (rest : List Char) : Prop where
  digit : NoDigit rest
  point : rest.head? ≠ some '.'
  exponent : rest.head? ≠ some 'e' ∧ rest.head? ≠ some 'E'

/-- One or more digits. -/
def Digits (ds : List Char) : Prop := ds ≠ [] ∧ ∀ c ∈ ds, Text.isDigit c

theorem Digits.exists_cons {ds : List Char} (hds : Digits ds) :
    ∃ c cs, ds = c :: cs ∧ Text.isDigit c := by
  obtain ⟨c, cs, rfl⟩ := List.exists_cons_of_ne_nil hds.1
  exact ⟨c, cs, rfl, hds.2 c List.mem_cons_self⟩

variable {ds rest : List Char}

theorem NoDigit.takeWhile (h : NoDigit rest) : rest.takeWhile Text.isDigit = [] := by
  cases rest with
  | nil => rfl
  | cons c rest => exact List.takeWhile_cons_of_neg (by simp [h c rfl])

theorem NoDigit.dropWhile (h : NoDigit rest) : rest.dropWhile Text.isDigit = rest := by
  cases rest with
  | nil => rfl
  | cons c rest => exact List.dropWhile_cons_of_neg (by simp [h c rfl])

theorem digits?_append (hds : Digits ds) (hrest : NoDigit rest) :
    digits? (ds ++ rest) = some (ds, rest) := by
  have htake : (ds ++ rest).takeWhile Text.isDigit = ds := by
    rw [List.takeWhile_append_of_pos hds.2, hrest.takeWhile, List.append_nil]
  have hdrop : (ds ++ rest).dropWhile Text.isDigit = rest := by
    rw [List.dropWhile_append_of_pos hds.2, hrest.dropWhile]
  rw [digits?, htake, hdrop, if_neg]
  simpa using hds.1

theorem whole?_append (hds : Digits ds) (hzero : ds.head? = some '0' → ds.length = 1)
    (hrest : NoDigit rest) : whole? (ds ++ rest) = some (ds, rest) := by
  rw [whole?, digits?_append hds hrest, Option.bind_some]
  exact if_neg fun h => h.2 (hzero h.1)

theorem fraction?_append {fraction : Option (List Char)} (h : ∀ ds ∈ fraction, Digits ds)
    (hrest : NoDigit rest) (hpoint : rest.head? ≠ some '.') :
    fraction? (fraction.elim [] (fun ds => '.' :: ds) ++ rest) = some (fraction, rest) := by
  cases fraction with
  | none =>
    rw [Option.elim_none, List.nil_append, fraction?]
    rintro rest rfl
    exact hpoint rfl
  | some ds =>
    rw [Option.elim_some, List.cons_append, fraction?, digits?_append (h ds rfl) hrest]
    rfl

theorem exponent?_append {exponent : Option (List Char × List Char)}
    (hsign : ∀ e ∈ exponent, e.1 = [] ∨ e.1 = ['+'] ∨ e.1 = ['-'])
    (h : ∀ e ∈ exponent, Digits e.2) (hrest : Stops rest) :
    exponent? (exponent.elim [] (fun e => 'e' :: e.1 ++ e.2) ++ rest) = some (exponent, rest) := by
  unfold exponent?
  cases exponent with
  | none =>
    rw [Option.elim_none, List.nil_append]
    cases rest with
    | nil => rfl
    | cons c rest =>
      refine if_neg ?_
      rintro (rfl | rfl)
      · exact hrest.exponent.1 rfl
      · exact hrest.exponent.2 rfl
  | some e =>
    obtain ⟨sign, ds⟩ := e
    have hds : Digits ds := h _ rfl
    have hread := digits?_append hds hrest.digit
    have hs : sign = [] ∨ sign = ['+'] ∨ sign = ['-'] := hsign _ rfl
    rw [Option.elim_some, List.cons_append, List.cons_append]
    dsimp only
    rw [if_pos (Or.inl rfl)]
    rcases hs with rfl | rfl | rfl
    · -- the first digit is not taken for a sign
      obtain ⟨c, cs, rfl, hc⟩ := hds.exists_cons
      rw [List.nil_append]
      split
      · next he => cases he; cases hc
      · next he => cases he; cases hc
      · rw [hread]; rfl
    · exact congrArg (Option.map fun p => (some (['+'], p.1), p.2)) hread
    · exact congrArg (Option.map fun p => (some (['-'], p.1), p.2)) hread

namespace Numeral

/-- The parts that a numeral must have to be written as one: digits in each place, no zero at the
head of others, and a sign at most before the exponent. -/
structure WellFormed (x : Numeral) : Prop where
  whole : Digits x.whole
  zero : x.whole.head? = some '0' → x.whole.length = 1
  fraction : ∀ ds ∈ x.fraction, Digits ds
  sign : ∀ e ∈ x.exponent, e.1 = [] ∨ e.1 = ['+'] ∨ e.1 = ['-']
  exponent : ∀ e ∈ x.exponent, Digits e.2

variable {x : Numeral}

/-- The exponent as it is written. -/
theorem noDigit_exponent (exponent : Option (List Char × List Char)) (hrest : Stops rest) :
    NoDigit (exponent.elim [] (fun e => 'e' :: e.1 ++ e.2) ++ rest) ∧
      (exponent.elim [] (fun e => 'e' :: e.1 ++ e.2) ++ rest).head? ≠ some '.' := by
  cases exponent with
  | none => exact ⟨hrest.digit, hrest.point⟩
  | some e => exact ⟨fun c hc => by cases hc; rfl, by simp⟩

theorem noDigit_fraction (fraction : Option (List Char)) (hrest : NoDigit rest) :
    NoDigit (fraction.elim [] (fun ds => '.' :: ds) ++ rest) := by
  cases fraction with
  | none => exact hrest
  | some ds => exact fun c hc => by cases hc; rfl

theorem WellFormed.unsigned?_append (hx : x.WellFormed) (hrest : Stops rest) :
    unsigned? x.negative (x.whole ++ (x.fraction.elim [] (fun ds => '.' :: ds) ++
      (x.exponent.elim [] (fun e => 'e' :: e.1 ++ e.2) ++ rest))) = some (x, rest) := by
  have hexponent := noDigit_exponent x.exponent hrest
  have hfraction := noDigit_fraction x.fraction hexponent.1
  simp only [unsigned?, bind, whole?_append hx.whole hx.zero hfraction, Option.bind_some,
    fraction?_append hx.fraction hexponent.1 hexponent.2,
    exponent?_append hx.sign hx.exponent hrest]

/-- A numeral is read back as it was written. -/
theorem WellFormed.numeral?_append (hx : x.WellFormed) (hrest : Stops rest) :
    numeral? (x.write ++ rest) = some (x, rest) := by
  have hread := hx.unsigned?_append hrest
  unfold numeral? write
  simp only [List.append_assoc]
  cases hneg : x.negative with
  | true =>
    rw [hneg] at hread
    exact hread
  | false =>
    -- the first digit is not taken for the sign
    obtain ⟨c, cs, hcs, hc⟩ := hx.whole.exists_cons
    rw [hneg, hcs] at hread
    rw [hcs, if_neg Bool.false_ne_true, List.nil_append]
    split
    · next he => cases he; cases hc
    · exact hread

end Numeral

/-! ### Integers -/

theorem digits_writeNat (n : Nat) : Digits (Text.writeNat n) :=
  ⟨Nat.toDigits_ne_nil, fun _ hc => Nat.isDigit_of_mem_toDigits (by decide) (by decide) hc⟩

theorem valueOfDigits_writeNat (n : Nat) : Text.valueOfDigits (Text.writeNat n) = n :=
  Nat.ofDigitChars_ten_toDigits

/-- No numeral of a natural number begins with a zero, but the numeral of zero. -/
theorem eq_zero_of_head?_writeNat {n : Nat} (h : (Text.writeNat n).head? = some '0') : n = 0 := by
  induction n using Nat.strongRecOn with
  | ind n ih =>
    unfold Text.writeNat at *
    by_cases hn : n < 10
    · rw [Nat.toDigits_of_lt_base hn] at h
      exact Nat.digitChar_eq_zero.1 (Option.some.inj h)
    · obtain ⟨c, cs, hcs⟩ :=
        List.exists_cons_of_ne_nil (Nat.toDigits_ne_nil : Nat.toDigits 10 (n / 10) ≠ [])
      rw [Nat.toDigits_of_base_le (by decide) (by omega), hcs] at h
      have hz := ih (n / 10) (by omega) (by rwa [hcs])
      omega

/-- The numeral of an integer. -/
def numeralOf (n : Int) : Numeral := ⟨n < 0, Text.writeNat n.natAbs, none, none⟩

theorem wellFormed_numeralOf (n : Int) : (numeralOf n).WellFormed where
  whole := digits_writeNat n.natAbs
  zero h := by
    change (Text.writeNat n.natAbs).head? = some '0' at h
    rw [numeralOf, eq_zero_of_head?_writeNat h]
    rfl
  fraction _ h := by cases h
  sign _ h := by cases h
  exponent _ h := by cases h

theorem write_numeralOf (n : Int) : (numeralOf n).write = Text.writeInt n := by
  cases n with
  | ofNat n => simp [numeralOf, Numeral.write, Text.writeInt]
  | negSucc n => simp [numeralOf, Numeral.write, Text.writeInt]

theorem toJson_numeralOf {n : Int} (hlow : Int64.minValue.toInt ≤ n) (hhigh : n < UInt64.size) :
    (numeralOf n).toJson = .int n := by
  have hvalue : (if (numeralOf n).negative then - Int.ofNat (Text.valueOfDigits (numeralOf n).whole)
      else Int.ofNat (Text.valueOfDigits (numeralOf n).whole)) = n := by
    simp only [numeralOf, valueOfDigits_writeNat, decide_eq_true_eq, Int.ofNat_eq_natCast]
    split <;> omega
  -- a negative zero would be no integer, but the numeral of zero has no sign
  have hzero : ((numeralOf n).negative && n == 0) = false := by
    simp only [numeralOf, Bool.and_eq_false_iff, decide_eq_false_iff_not, beq_eq_false_iff_ne]
    omega
  simp only [Numeral.toJson, hvalue, hzero]
  refine if_pos ?_
  simpa [numeralOf] using And.intro hlow hhigh

end Lifecycle.Json
