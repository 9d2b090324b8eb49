import Mathlib.Data.Int.ModEq
import Lifecycle.ExitStatus

/-! What a raw word keeps of an exit status. As an integer it is four times the value, cut down to
thirty bits, plus the number of the ending. So a quarter of the word is the value, where that has
no more than thirty bits, and the remainder tells the ending, or that the process was stopped. -/

namespace Lifecycle

/-! ### The word as an integer -/

theorem toInt_and_three (raw : RawStatus) : (raw &&& 3).toInt = raw.toInt % 4 := by
  have hn : (raw &&& 3).toBitVec.toNat = raw.toBitVec.toNat % 4 :=
    Nat.and_two_pow_sub_one_eq_mod raw.toBitVec.toNat 2
  simp only [← Int32.toInt_toBitVec, BitVec.toInt_eq_toNat_cond, hn]
  split <;> split <;> omega

theorem toInt_shiftRight_two (raw : RawStatus) : (raw >>> 2).toInt = raw.toInt / 4 := by
  have hs : (raw >>> 2).toBitVec = raw.toBitVec.sshiftRight 2 := rfl
  rw [← Int32.toInt_toBitVec, hs, BitVec.toInt_sshiftRight, Int.shiftRight_eq_div_pow]
  rfl

/-- The shift drops the two high bits and leaves the two low ones free. -/
theorem toNat_shiftLeft_two_or (value low : BitVec 32) (hl : low.toNat < 4) :
    (value <<< 2 ||| low).toNat = 4 * (value.toNat % 2 ^ 30) + low.toNat := by
  have hs : (value <<< 2).toNat = (value.toNat % 2 ^ 30) <<< 2 := by
    rw [BitVec.toNat_shiftLeft, Nat.shiftLeft_eq, Nat.shiftLeft_eq]
    omega
  rw [BitVec.toNat_or, hs, ← Nat.shiftLeft_add_eq_or_of_lt hl, Nat.shiftLeft_eq]
  omega

namespace Ending

theorem toInt_bits (ending : Ending) : 0 ≤ ending.bits.toInt ∧ ending.bits.toInt < 3 := by
  cases ending <;> decide

theorem toInt_bits_inj {e f : Ending} : e.bits.toInt = f.bits.toInt ↔ e = f := by
  cases e <;> cases f <;> decide

theorem find?_bits_eq_some_iff {low : Int32} {ending : Ending} :
    (all.find? fun e => low == e.bits) = some ending ↔ low = ending.bits := by
  constructor
  · intro h
    have hlow := List.find?_some h
    exact eq_of_beq hlow
  · rintro rfl
    cases ending <;> decide

theorem exists_toInt_bits {r : Int} (hr : 0 ≤ r ∧ r < 3) : ∃ e : Ending, e.bits.toInt = r := by
  obtain rfl | rfl | rfl : r = 0 ∨ r = 1 ∨ r = 2 := by omega
  · exact ⟨exited, by decide⟩
  · exact ⟨signaled, by decide⟩
  · exact ⟨cored, by decide⟩

end Ending

namespace ExitStatus

variable {s t : ExitStatus} {raw : RawStatus}

/-- A value cut down to thirty bits, the highest of them taken as the sign. -/
def thirtyBits (value : Int32) : Int32 :=
  .ofBitVec ((value.toBitVec.setWidth 30).signExtend 32)

theorem toInt_thirtyBits (value : Int32) :
    (thirtyBits value).toInt = value.toInt.bmod (2 ^ 30) := by
  have hv : value.toInt = value.toBitVec.toInt := rfl
  rw [hv, BitVec.toInt_eq_toNat_bmod, Int.bmod_bmod_of_dvd (by decide)]
  exact (BitVec.toInt_signExtend_of_le (by decide)).trans (BitVec.toInt_setWidth ..)

theorem toInt_thirtyBits_eq_iff {v w : Int32} :
    (thirtyBits v).toInt = (thirtyBits w).toInt ↔ v.toInt ≡ w.toInt [ZMOD 2 ^ 30] := by
  rw [toInt_thirtyBits, toInt_thirtyBits, Int.ModEq, Int.bmod, Int.bmod]
  split <;> split <;> omega

theorem thirtyBits_eq_self_iff {value : Int32} :
    thirtyBits value = value ↔ -2 ^ 29 ≤ value.toInt ∧ value.toInt < 2 ^ 29 := by
  rw [← Int32.toInt_inj, toInt_thirtyBits, Int.bmod]
  split <;> omega

theorem toInt_encode (s : ExitStatus) :
    s.encode.toInt = 4 * (thirtyBits s.value).toInt + s.ending.bits.toInt := by
  have hl : s.ending.bits.toBitVec.toNat < 4 := by cases s.ending <;> decide
  have hw : s.encode.toBitVec = s.value.toBitVec <<< 2 ||| s.ending.bits.toBitVec := rfl
  rw [toInt_thirtyBits]
  simp only [← Int32.toInt_toBitVec, hw, BitVec.toInt_eq_toNat_cond,
    toNat_shiftLeft_two_or _ _ hl, Int.bmod]
  split <;> split <;> split <;> split <;> omega

/-! ### Reading it back -/

theorem decode?_eq_some_iff :
    decode? raw = some s ↔ raw.toInt = 4 * s.value.toInt + s.ending.bits.toInt := by
  have hb := s.ending.toInt_bits
  rw [decode?, Option.map_eq_some_iff]
  constructor
  · rintro ⟨ending, hlow, rfl⟩
    have hlow := congrArg Int32.toInt (Ending.find?_bits_eq_some_iff.1 hlow)
    rw [toInt_and_three] at hlow
    rw [toInt_shiftRight_two, ← hlow]
    exact (Int.mul_ediv_add_emod ..).symm
  · intro h
    refine ⟨s.ending, Ending.find?_bits_eq_some_iff.2 (Int32.toInt_inj.1 ?_), ?_⟩
    · rw [toInt_and_three]
      omega
    · have hv : raw >>> 2 = s.value := by
        rw [← Int32.toInt_inj, toInt_shiftRight_two]
        omega
      rw [hv]

theorem decode?_eq_none_iff : decode? raw = none ↔ raw.toInt % 4 = 3 := by
  rw [Option.eq_none_iff_forall_ne_some]
  constructor
  · intro h
    by_contra hr
    obtain ⟨ending, he⟩ := Ending.exists_toInt_bits (r := raw.toInt % 4) (by omega)
    refine h ⟨ending, raw >>> 2⟩ (decode?_eq_some_iff.2 ?_)
    rw [toInt_shiftRight_two, he]
    exact (Int.mul_ediv_add_emod ..).symm
  · intro hr s hs
    have hb := s.ending.toInt_bits
    have hs := decode?_eq_some_iff.1 hs
    omega

theorem decode?_encode (s : ExitStatus) :
    decode? s.encode = some ⟨s.ending, thirtyBits s.value⟩ :=
  decode?_eq_some_iff.2 s.toInt_encode

theorem encode_eq_encode_iff :
    s.encode = t.encode ↔ s.ending = t.ending ∧ s.value.toInt ≡ t.value.toInt [ZMOD 2 ^ 30] := by
  have hs := s.ending.toInt_bits
  have ht := t.ending.toInt_bits
  rw [← Int32.toInt_inj, toInt_encode, toInt_encode, ← Ending.toInt_bits_inj,
    ← toInt_thirtyBits_eq_iff]
  omega

theorem decode?_eq_some_iff_encode :
    decode? raw = some s ↔ s.encode = raw ∧ thirtyBits s.value = s.value := by
  constructor
  · intro h
    have hb := s.ending.toInt_bits
    have hraw := raw.le_toInt
    have hraw' := raw.toInt_lt
    have hs := decode?_eq_some_iff.1 h
    have hv : thirtyBits s.value = s.value := thirtyBits_eq_self_iff.2 (by omega)
    exact ⟨Int32.toInt_inj.1 (by rw [toInt_encode, hv, hs]), hv⟩
  · rintro ⟨rfl, hv⟩
    rw [decode?_encode, hv]

end ExitStatus

/-! ### The predicates on a word -/

namespace WaitStatus

variable {status : WaitStatus}

/-- The predicates on a word say what is read back from it. -/
structure Agrees (status : WaitStatus) : Prop where
  exited : status.exited = true ↔ status.decode? = some ⟨.exited, status.exitCode⟩
  signaled : status.signaled = true ↔ status.decode? = some ⟨.signaled, status.termSignal⟩ ∨
    status.decode? = some ⟨.cored, status.termSignal⟩
  coreDumped : status.coreDumped = true ↔ status.decode? = some ⟨.cored, status.termSignal⟩
  stopped : status.stopped = true ↔ status.decode? = none
  /-- Just one of the three holds. -/
  one : status.exited = true ∧ ¬status.signaled = true ∧ ¬status.stopped = true ∨
    ¬status.exited = true ∧ status.signaled = true ∧ ¬status.stopped = true ∨
    ¬status.exited = true ∧ ¬status.signaled = true ∧ status.stopped = true

theorem low_eq_iff {raw low : Int32} :
    ((raw &&& 3) == low) = true ↔ raw.toInt % 4 = low.toInt := by
  rw [← toInt_and_three, Int32.toInt_inj, beq_iff_eq]

theorem exited_iff : status.exited = true ↔ status.raw.toInt % 4 = 0 := low_eq_iff

theorem signaled_iff :
    status.signaled = true ↔ status.raw.toInt % 4 = 1 ∨ status.raw.toInt % 4 = 2 := by
  rw [signaled, Bool.or_eq_true]
  exact or_congr low_eq_iff low_eq_iff

theorem coreDumped_iff : status.coreDumped = true ↔ status.raw.toInt % 4 = 2 := low_eq_iff

theorem stopped_iff : status.stopped = true ↔ status.raw.toInt % 4 = 3 := low_eq_iff

theorem decode?_quarter_iff (ending : Ending) :
    status.decode? = some ⟨ending, status.raw >>> 2⟩ ↔
      status.raw.toInt % 4 = ending.bits.toInt := by
  rw [decode?, ExitStatus.decode?_eq_some_iff, toInt_shiftRight_two]
  dsimp only
  omega

theorem agrees (status : WaitStatus) : status.Agrees where
  exited := exited_iff.trans (decode?_quarter_iff .exited).symm
  signaled := signaled_iff.trans
    (or_congr (decode?_quarter_iff .signaled) (decode?_quarter_iff .cored)).symm
  coreDumped := coreDumped_iff.trans (decode?_quarter_iff .cored).symm
  stopped := stopped_iff.trans ExitStatus.decode?_eq_none_iff.symm
  one := by
    rw [exited_iff, signaled_iff, stopped_iff]
    omega

end WaitStatus

/-- An exit status comes back with thirty bits of its value, unchanged if it has no more. Two
statuses have the same word if they differ at most in the bits that are lost. -/
theorem ExitStatus.thirty_bits_carried :
    (∀ s : ExitStatus, decode? s.encode = some ⟨s.ending, thirtyBits s.value⟩) ∧
    (∀ s : ExitStatus,
      decode? s.encode = some s ↔ -2 ^ 29 ≤ s.value.toInt ∧ s.value.toInt < 2 ^ 29) ∧
    (∀ s t : ExitStatus,
      s.encode = t.encode ↔ s.ending = t.ending ∧ s.value.toInt ≡ t.value.toInt [ZMOD 2 ^ 30]) ∧
    (∀ raw s, decode? raw = some s ↔
      s.encode = raw ∧ -2 ^ 29 ≤ s.value.toInt ∧ s.value.toInt < 2 ^ 29) ∧
    ∀ status : WaitStatus, status.Agrees := by
  refine ⟨decode?_encode, fun s => ?_, fun s t => encode_eq_encode_iff, fun raw s => ?_,
    WaitStatus.agrees⟩
  · rw [decode?_eq_some_iff_encode, thirtyBits_eq_self_iff]
    exact and_iff_right rfl
  · rw [decode?_eq_some_iff_encode, thirtyBits_eq_self_iff]

end Lifecycle
