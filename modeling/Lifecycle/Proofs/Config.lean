import Lifecycle.Config.Environment
import Lifecycle.Proofs.Text

/-! The environment that configures a table. A size that is no numeral below `2 ^ 64` is reported
as it stands, one outside the two bounds by its value, and any other is taken. A name is taken as
it stands, but for the empty one. -/

namespace Lifecycle

/-- A text asks for a size if nothing but blanks stands around its numeral. -/
def AsksFor (value : String) (n : Nat) : Prop :=
  ∃ before numeral after, value.toList = before ++ numeral ++ after ∧
    (∀ c ∈ before ++ after, Text.isBlank c) ∧ Text.Denotes numeral n

namespace Variable

/-- The size that a variable gives, which is the default unless it is a text. -/
def GivesSize : Variable → Nat → Prop
  | .text value, n => AsksFor value n
  | _, n => n = 1024

/-- The name that a variable gives, which is the default unless it is a text with characters. -/
def GivesName : Variable → String → Prop
  | .text value, given => value = "" ∧ given = "[kernel]" ∨ value ≠ "" ∧ given = value
  | _, given => given = "[kernel]"

end Variable

namespace Config

variable {size name : Variable} {value : String} {n : UInt64} {config : Config}

theorem readSize?_eq_some_iff : readSize? value = some n ↔ AsksFor value n.toNat := by
  rw [AsksFor, ← Text.readUnsigned?_trim_eq_some_iff, readSize?, Option.bind_eq_some_iff]
  constructor
  · rintro ⟨m, hm, hn⟩
    obtain ⟨hlt, hmn⟩ := Option.ite_none_right_eq_some.1 hn
    rw [hm, ← Option.some.inj hmn, UInt64.toNat_ofNat_of_lt' hlt]
  · intro h
    exact ⟨n.toNat, h, by rw [if_pos n.toNat_lt_size, UInt64.ofNat_toNat]⟩

theorem readSize?_eq_none_iff : readSize? value = none ↔ ¬∃ n < 2 ^ 64, AsksFor value n := by
  rw [Option.eq_none_iff_forall_ne_some, not_exists]
  constructor
  · rintro h n ⟨hlt, hn⟩
    refine h (UInt64.ofNat n) (readSize?_eq_some_iff.2 ?_)
    rwa [UInt64.toNat_ofNat_of_lt' hlt]
  · intro h n hn
    exact h n.toNat ⟨n.toNat_lt, readSize?_eq_some_iff.1 hn⟩

theorem requestedSize_eq_ok_iff : requestedSize size = .ok n ↔ size.GivesSize n.toNat := by
  have hdefault : (.ok ({} : Config).maxProcesses : Except ConfigError UInt64) = .ok n ↔
      n.toNat = 1024 := by
    rw [Except.ok.injEq, ← UInt64.toNat_inj, eq_comm]
    rfl
  cases size with
  | unset => exact hdefault
  | undecodable => exact hdefault
  | text value =>
    rw [Variable.GivesSize, ← readSize?_eq_some_iff, requestedSize]
    cases readSize? value <;> simp

theorem requestedSize_eq_error_iff {error : ConfigError} :
    requestedSize size = .error error ↔ ∃ value, size = .text value ∧
      (¬∃ n < 2 ^ 64, AsksFor value n) ∧ error = .unreadable "KERNEL_MAX_PROCESSES" value := by
  cases size with
  | unset => simp [requestedSize]
  | undecodable => simp [requestedSize]
  | text value =>
    simp only [Variable.text.injEq, exists_eq_left', ← readSize?_eq_none_iff, requestedSize]
    cases readSize? value <;> simp [sizeVariable, eq_comm]

theorem requestedName_eq_iff {given : String} :
    requestedName name = given ↔ name.GivesName given := by
  have hdefault : ({} : Config).kernelName = given ↔ given = "[kernel]" := eq_comm
  cases name with
  | unset => exact hdefault
  | undecodable => exact hdefault
  | text value =>
    rw [requestedName, Variable.GivesName, ← hdefault, eq_comm (a := given)]
    by_cases hv : value = "" <;> simp [hv]

/-- The two bounds, as numbers. -/
theorem validate_eq (config : Config) : config.validate =
    if 2 ≤ config.maxProcesses.toNat ∧ config.maxProcesses.toNat ≤ 2 ^ 20 then .ok ()
    else .error (.capacityOutOfRange config.maxProcesses) := rfl

theorem ofEnvironment_of_size (hsize : requestedSize size = .ok n) :
    ofEnvironment size name = if 2 ≤ n.toNat ∧ n.toNat ≤ 2 ^ 20 then .ok ⟨n, requestedName name⟩
      else .error (.capacityOutOfRange n) := by
  simp only [ofEnvironment, hsize, validate_eq]
  by_cases hn : 2 ≤ n.toNat ∧ n.toNat ≤ 2 ^ 20
  · rw [if_pos hn, if_pos hn]
  · rw [if_neg hn, if_neg hn]

theorem ofEnvironment_of_error {error : ConfigError} (hsize : requestedSize size = .error error) :
    ofEnvironment size name = .error error := by
  rw [ofEnvironment, hsize]

theorem ofEnvironment_eq_ok_iff : ofEnvironment size name = .ok config ↔
    size.GivesSize config.maxProcesses.toNat ∧ 2 ≤ config.maxProcesses.toNat ∧
      config.maxProcesses.toNat ≤ 2 ^ 20 ∧ name.GivesName config.kernelName := by
  rw [← requestedSize_eq_ok_iff, ← requestedName_eq_iff]
  obtain ⟨maxProcesses, kernelName⟩ := config
  cases hsize : requestedSize size with
  | error error => simp [ofEnvironment_of_error hsize]
  | ok n =>
    rw [ofEnvironment_of_size hsize]
    grind

theorem ofEnvironment_eq_out_of_range_iff :
    ofEnvironment size name = .error (.capacityOutOfRange n) ↔
      size.GivesSize n.toNat ∧ (n.toNat < 2 ∨ 2 ^ 20 < n.toNat) := by
  rw [← requestedSize_eq_ok_iff]
  cases hsize : requestedSize size with
  | error error =>
    obtain ⟨value, -, -, rfl⟩ := requestedSize_eq_error_iff.1 hsize
    simp [ofEnvironment_of_error hsize]
  | ok m =>
    rw [ofEnvironment_of_size hsize]
    grind

theorem ofEnvironment_eq_unreadable_iff {given : String} :
    ofEnvironment size name = .error (.unreadable given value) ↔
      given = "KERNEL_MAX_PROCESSES" ∧ size = .text value ∧ ¬∃ n < 2 ^ 64, AsksFor value n := by
  have hreport : requestedSize size = .error (.unreadable given value) ↔
      given = "KERNEL_MAX_PROCESSES" ∧ size = .text value ∧ ¬∃ n < 2 ^ 64, AsksFor value n := by
    rw [requestedSize_eq_error_iff]
    grind
  rw [← hreport]
  cases hsize : requestedSize size with
  | error error => rw [ofEnvironment_of_error hsize, Except.error.injEq, Except.error.injEq]
  | ok n =>
    rw [ofEnvironment_of_size hsize]
    grind

theorem exists_ofEnvironment_eq_ok_iff : (∃ config, ofEnvironment size name = .ok config) ↔
    ∃ n, size.GivesSize n ∧ 2 ≤ n ∧ n ≤ 2 ^ 20 := by
  constructor
  · rintro ⟨config, h⟩
    obtain ⟨hsize, hlow, hhigh, -⟩ := ofEnvironment_eq_ok_iff.1 h
    exact ⟨config.maxProcesses.toNat, hsize, hlow, hhigh⟩
  · rintro ⟨n, hsize, hlow, hhigh⟩
    have hn : (UInt64.ofNat n).toNat = n := UInt64.toNat_ofNat_of_lt' (by rw [UInt64.size]; omega)
    exact ⟨⟨UInt64.ofNat n, requestedName name⟩, ofEnvironment_eq_ok_iff.2
      ⟨by rwa [hn], by rwa [hn], by rwa [hn], requestedName_eq_iff.1 rfl⟩⟩

/-- An environment is taken if its size is within the bounds, and each refusal has its cause. -/
theorem ofEnvironment_accepts (size name : Variable) :
    ((∃ config, ofEnvironment size name = .ok config) ↔
      ∃ n, size.GivesSize n ∧ 2 ≤ n ∧ n ≤ 2 ^ 20) ∧
    (∀ config, ofEnvironment size name = .ok config ↔
      size.GivesSize config.maxProcesses.toNat ∧ 2 ≤ config.maxProcesses.toNat ∧
        config.maxProcesses.toNat ≤ 2 ^ 20 ∧ name.GivesName config.kernelName) ∧
    (∀ n, ofEnvironment size name = .error (.capacityOutOfRange n) ↔
      size.GivesSize n.toNat ∧ (n.toNat < 2 ∨ 2 ^ 20 < n.toNat)) ∧
    ∀ given value, ofEnvironment size name = .error (.unreadable given value) ↔
      given = "KERNEL_MAX_PROCESSES" ∧ size = .text value ∧ ¬∃ n < 2 ^ 64, AsksFor value n :=
  ⟨exists_ofEnvironment_eq_ok_iff, fun _ => ofEnvironment_eq_ok_iff,
    fun _ => ofEnvironment_eq_out_of_range_iff, fun _ _ => ofEnvironment_eq_unreadable_iff⟩

end Config

end Lifecycle
