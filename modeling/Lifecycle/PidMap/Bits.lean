import Lifecycle.PidMap

/-! The bits of a pid map and its slots, each after every change to either. -/

namespace Lifecycle.PidMap

theorem toBitVec_bit (i : Nat) : (bit i).toBitVec = BitVec.twoPow 64 (i % wordBits) := by
  have hi : i % wordBits < 64 := Nat.mod_lt _ (by decide)
  apply BitVec.eq_of_toNat_eq
  rw [BitVec.toNat_twoPow]
  simp [bit, Nat.shiftLeft_eq, Nat.mod_eq_of_lt hi]

/-- A word has a bit in common with `bit i` if its own bit there is set. -/
theorem and_bit_bne_zero (w : UInt64) (i : Nat) :
    (w &&& bit i != 0) = w.toBitVec.getLsbD (i % wordBits) := by
  have hi : i % wordBits < 64 := Nat.mod_lt _ (by decide)
  have h : (w &&& bit i).toBitVec = if w.toBitVec.getLsbD (i % wordBits)
      then BitVec.twoPow 64 (i % wordBits) else 0#64 := by
    rw [UInt64.toBitVec_and, toBitVec_bit, BitVec.and_twoPow]
  have hz : BitVec.twoPow 64 (i % wordBits) ≠ 0#64 := by
    intro hz
    have := congrArg (·.getLsbD (i % wordBits)) hz
    simp [hi] at this
  have hw : w &&& bit i = 0 ↔ (w &&& bit i).toBitVec = 0#64 := UInt64.toBitVec_inj.symm
  cases hb : w.toBitVec.getLsbD (i % wordBits) <;> simp [hb] at h
  · simpa using hw.2 h
  · simpa using fun h0 => hz (h ▸ hw.1 h0)

theorem isTaken_eq (m : PidMap) (i : Nat) :
    m.isTaken i = (m.word i).toBitVec.getLsbD (i % wordBits) :=
  and_bit_bne_zero ..

theorem word_setIfInBounds {m : PidMap} {i : Nat} (hi : i / wordBits < m.words.size) (w : UInt64)
    (j : Nat) : { m with words := m.words.setIfInBounds (i / wordBits) w }.word j =
      if j / wordBits = i / wordBits then w else m.word j := by
  simp only [word, Array.getD_eq_getD_getElem?, Array.getElem?_setIfInBounds]
  by_cases h : i / wordBits = j / wordBits
  · simp [h, h ▸ hi]
  · simp [h, Ne.symm h]

theorem eq_of_div_of_mod {i j : Nat} (hd : j / wordBits = i / wordBits)
    (hm : j % wordBits = i % wordBits) : j = i := by
  rw [← Nat.div_add_mod j wordBits, ← Nat.div_add_mod i wordBits, hd, hm]

theorem isTaken_take {m : PidMap} {i : Nat} (hi : i / wordBits < m.words.size) (j : Nat) :
    (m.take i).isTaken j = (decide (j = i) || m.isTaken j) := by
  have hj : j % wordBits < 64 := Nat.mod_lt _ (by decide)
  rw [isTaken_eq, take, word_setIfInBounds hi, isTaken_eq]
  by_cases hd : j / wordBits = i / wordBits
  · have hw : m.word j = m.word i := by simp [word, hd]
    by_cases hm : j % wordBits = i % wordBits
    · simp [eq_of_div_of_mod hd hm, toBitVec_bit, hm ▸ hj]
    · have hne : j ≠ i := fun h => hm (h ▸ rfl)
      simp [hd, hne, toBitVec_bit, hw, Ne.symm hm]
  · have hne : j ≠ i := fun h => hd (h ▸ rfl)
    simp [hd, hne]

theorem isTaken_untake {m : PidMap} {i : Nat} (hi : i / wordBits < m.words.size) (j : Nat) :
    (m.untake i).isTaken j = (decide (j ≠ i) && m.isTaken j) := by
  have hj : j % wordBits < 64 := Nat.mod_lt _ (by decide)
  rw [isTaken_eq, untake, word_setIfInBounds hi, isTaken_eq]
  by_cases hd : j / wordBits = i / wordBits
  · have hw : m.word j = m.word i := by simp [word, hd]
    by_cases hm : j % wordBits = i % wordBits
    · simp [eq_of_div_of_mod hd hm, toBitVec_bit, hm ▸ hj]
    · have hne : j ≠ i := fun h => hm (h ▸ rfl)
      simp [hd, hne, toBitVec_bit, hw, hj, hm]
  · have hne : j ≠ i := fun h => hd (h ▸ rfl)
    simp [hd, hne]

@[simp] theorem slot_untake (m : PidMap) (i j : Nat) : (m.untake i).slot j = m.slot j := rfl

theorem slot_setSlot {m : PidMap} {i : Nat} (hi : i < m.slots.size) (j : Nat)
    (b : Option BlockId) : (m.setSlot i b).slot j = if j = i then b else m.slot j := by
  simp only [slot, setSlot, Array.getD_eq_getD_getElem?, Array.getElem?_setIfInBounds]
  by_cases h : i = j
  · subst h; simp [hi]
  · simp [h, Ne.symm h]

end Lifecycle.PidMap
