import Mathlib.Data.List.DropRight
import Mathlib.Data.Nat.Digits.Defs
import Lifecycle.Text.Blank
import Lifecycle.Text.Decimal

/-! What the readers of texts accept. Cutting blanks off a text leaves the part between the blanks
at its ends, and a numeral is one or more digits, perhaps after a plus sign, taken in base ten. -/

namespace Lifecycle.Text

/-! ### Blanks at the ends -/

theorem trim_eq_rdropWhile (text : List Char) :
    trim text = (text.dropWhile isBlank).rdropWhile isBlank := rfl

/-- Nothing but blanks is cut off. -/
theorem exists_append_trim (text : List Char) :
    ∃ before after, text = before ++ trim text ++ after ∧ ∀ c ∈ before ++ after, isBlank c := by
  refine ⟨text.takeWhile isBlank, (text.dropWhile isBlank).rtakeWhile isBlank, ?_, fun c hc => ?_⟩
  · rw [trim_eq_rdropWhile, List.append_assoc, List.rdropWhile_append_rtakeWhile,
      List.takeWhile_append_dropWhile]
  · rcases List.mem_append.1 hc with hc | hc
    · exact List.mem_takeWhile_imp hc
    · exact List.mem_rtakeWhile_imp hc

/-- All blanks at the ends of a text are cut off. -/
theorem trim_append {before body after : List Char} (hends : ∀ c ∈ before ++ after, isBlank c)
    (hbody : ∀ c ∈ body, ¬isBlank c) (hne : body ≠ []) :
    trim (before ++ body ++ after) = body := by
  have hfirst : (before ++ body ++ after).dropWhile isBlank = body ++ after := by
    obtain ⟨c, rest, rfl⟩ := List.exists_cons_of_ne_nil hne
    rw [List.append_assoc, List.dropWhile_append_of_pos fun c hc => hends c (by simp [hc])]
    exact List.dropWhile_cons_of_neg (hbody c (by simp))
  have hlast : (body ++ after).rdropWhile isBlank = body.rdropWhile isBlank := by
    rw [List.rdropWhile, List.reverse_append, List.dropWhile_append_of_pos fun c hc =>
      hends c (by simp_all), List.rdropWhile]
  rw [trim_eq_rdropWhile, hfirst, hlast, List.rdropWhile_eq_self_iff]
  exact fun hl => hbody _ (List.getLast_mem hl)

/-! ### Numerals -/

/-- Digits have the value they have in base ten, the last of them counting for itself. -/
theorem valueOfDigits_eq (digits : List Char) :
    valueOfDigits digits = Nat.ofDigits 10 (digits.map digitValue).reverse := by
  induction digits using List.reverseRecOn with
  | nil => rfl
  | append_singleton digits c ih =>
    rw [List.map_append, List.reverse_append, List.map_singleton, List.reverse_singleton,
      List.singleton_append, Nat.ofDigits_cons, ← ih, valueOfDigits, List.foldl_append]
    exact Nat.add_comm ..

/-- The text is one or more digits, perhaps after a plus sign, and they make up the number. -/
def Denotes (text : List Char) (n : Nat) : Prop :=
  ∃ sign digits, text = sign ++ digits ∧ (sign = [] ∨ sign = ['+']) ∧ digits ≠ [] ∧
    (∀ c ∈ digits, c.isDigit) ∧ Nat.ofDigits 10 (digits.map fun c => c.toNat - 48).reverse = n

theorem readDigits?_eq_some_iff {digits : List Char} {n : Nat} :
    readDigits? digits = some n ↔ digits ≠ [] ∧ (∀ c ∈ digits, c.isDigit) ∧
      Nat.ofDigits 10 (digits.map fun c => c.toNat - 48).reverse = n := by
  rw [readDigits?, Option.ite_none_right_eq_some, Option.some_inj, valueOfDigits_eq, Bool.and_eq_true,
    and_assoc, List.all_eq_true, Bool.not_eq_true', List.isEmpty_eq_false_iff]
  rfl

theorem readUnsigned?_eq_some_iff {text : List Char} {n : Nat} :
    readUnsigned? text = some n ↔ Denotes text n := by
  constructor
  · intro h
    unfold readUnsigned? at h
    split at h
    · next digits => exact ⟨['+'], digits, rfl, Or.inr rfl, readDigits?_eq_some_iff.1 h⟩
    · exact ⟨[], _, rfl, Or.inl rfl, readDigits?_eq_some_iff.1 h⟩
  · rintro ⟨sign, digits, rfl, rfl | rfl, h⟩
    · -- the first digit is not taken for a sign
      unfold readUnsigned?
      split
      · next rest he => exact absurd (h.2.1 '+' (by simp_all)) (by decide)
      · exact readDigits?_eq_some_iff.2 h
    · exact readDigits?_eq_some_iff.2 h

theorem not_isBlank_of_isDigit {c : Char} (hc : c.isDigit) : ¬isBlank c := by
  have h : 48 ≤ c.toNat ∧ c.toNat ≤ 57 := Char.isDigit_iff_toNat.1 hc
  simp only [isBlank, within, blanks, List.any_cons, List.any_nil, Bool.or_eq_true,
    Bool.and_eq_true, decide_eq_true_eq, Bool.false_eq_true, or_false]
  omega

theorem Denotes.not_isBlank {text : List Char} {n : Nat} (h : Denotes text n) :
    text ≠ [] ∧ ∀ c ∈ text, ¬isBlank c := by
  obtain ⟨sign, digits, rfl, hsign, hne, hdigits, -⟩ := h
  refine ⟨List.append_ne_nil_of_right_ne_nil _ hne, fun c hc => ?_⟩
  rcases List.mem_append.1 hc with hc | hc
  · rcases hsign with rfl | rfl
    · cases hc
    · rw [List.mem_singleton.1 hc]
      decide
  · exact not_isBlank_of_isDigit (hdigits c hc)

/-- Reading what is left of a text without its blanks. -/
theorem readUnsigned?_trim_eq_some_iff {text : List Char} {n : Nat} :
    readUnsigned? (trim text) = some n ↔ ∃ before body after, text = before ++ body ++ after ∧
      (∀ c ∈ before ++ after, isBlank c) ∧ Denotes body n := by
  rw [readUnsigned?_eq_some_iff]
  constructor
  · intro h
    obtain ⟨before, after, htext, hends⟩ := exists_append_trim text
    exact ⟨before, trim text, after, htext, hends, h⟩
  · rintro ⟨before, body, after, rfl, hends, h⟩
    rwa [trim_append hends h.not_isBlank.2 h.not_isBlank.1]

end Lifecycle.Text
