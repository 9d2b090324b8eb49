import Lifecycle.Proofs.PidMap.Valid

/-! The operations of a valid pid map through its two views, the taken pids and
the blocks installed at them. No check fails where a caller keeps to its part: a
block is installed at a taken and empty pid, and a pid is freed with its block. -/

namespace Lifecycle.PidMap

/-- With no pid free there is none to allocate. -/
theorem allocate_none {m : PidMap} (hf : m.free = 0) : m.allocate = .ok (none, m) := by
  simp [allocate, hf]

namespace Valid

variable {m : PidMap} (h : m.Valid)
include h

/-- Unless none is free, allocation takes the lowest free pid, which holds no
block. -/
theorem allocate_some (hf : m.free ≠ 0) : ∃ p m', m.allocate = .ok (some p, m') ∧ m'.Valid ∧
    p.toNat < m.capacity ∧ m.isAllocated p = false ∧ (∀ i < p.toNat, m.isTaken i = true) ∧
    m'.capacity = m.capacity ∧ m'.free = m.free - 1 ∧ m'.lookup = m.lookup ∧
    ∀ q, m'.isAllocated q = (decide (q = p) || m.isAllocated q) := by
  cases hn : m.firstClear with
  | none =>
    exfalso
    have hall : m.takenBelow m.capacity = m.capacity := by
      have : (List.range m.capacity).countP m.isTaken = (List.range m.capacity).length :=
        List.countP_eq_length.2 fun i hi => h.isTaken_of_firstClear hn i (List.mem_range.1 hi)
      simpa [takenBelow] using this
    have hc := h.counted
    omega
  | some n =>
    obtain ⟨hlt, ht, hlow⟩ := h.firstClear_spec hn
    have hslot : m.slot n = none := by
      cases hs : m.slot n with
      | none => rfl
      | some b => rw [h.occupied n b hs] at ht; cases ht
    have hp := h.toNat_ofNat hlt
    have hv := h.take hlt ht
    refine ⟨UInt32.ofNat n, { m.take n with free := m.free - 1 }, ?_, hv, by rwa [hp], ?_,
      by rwa [hp], rfl, rfl, ?_, ?_⟩
    · simp [allocate, hf, hn, hslot]
    · simp [isAllocated, hp, ht]
    · funext q
      rw [hv.lookup_eq, h.lookup_eq]
      rfl
    · intro q
      have hq : q = UInt32.ofNat n ↔ q.toNat = n := by rw [← UInt32.toNat_inj, hp]
      have htaken := isTaken_take (h.word_lt hlt) q.toNat
      change (decide (q.toNat < m.capacity) && (m.take n).isTaken q.toNat) = _
      rw [htaken, isAllocated]
      by_cases hqn : q.toNat = n
      · simp [hqn, hlt, hq]
      · simp [hqn, hq]

/-- A block goes to a taken pid that has none. -/
theorem install_eq {p : Pid} {b : BlockId} (ha : m.isAllocated p = true)
    (hl : m.lookup p = none) : ∃ m', m.install p p b = .ok m' ∧ m'.Valid ∧
    m'.capacity = m.capacity ∧ m'.free = m.free ∧ m'.isAllocated = m.isAllocated ∧
    ∀ q, m'.lookup q = if q = p then some b else m.lookup q := by
  obtain ⟨hlt, ht⟩ : p.toNat < m.capacity ∧ m.isTaken p.toNat = true := by
    simpa [isAllocated] using ha
  have hv := h.setSlot hlt ht b
  refine ⟨m.setSlot p.toNat (some b), ?_, hv, rfl, rfl, rfl, ?_⟩
  · rw [h.lookup_eq] at hl
    simp [install, Nat.not_le.2 hlt, ht, hl]
  · intro q
    rw [hv.lookup_eq, slot_setSlot (h.slots ▸ hlt), h.lookup_eq]
    simp [UInt32.toNat_inj]

/-- A taken pid is freed; a block that is there is handed out, if it is the one
expected. -/
theorem deallocate_eq {p : Pid} {expected : Option BlockId} (ha : m.isAllocated p = true)
    (he : contradicts (m.lookup p) expected = false) :
    ∃ m', m.deallocate p expected = .ok (m.lookup p, m') ∧ m'.Valid ∧
    m'.capacity = m.capacity ∧ m'.free = m.free + 1 ∧
    (∀ q, m'.isAllocated q = (decide (q ≠ p) && m.isAllocated q)) ∧
    ∀ q, m'.lookup q = if q = p then none else m.lookup q := by
  obtain ⟨hlt, ht⟩ : p.toNat < m.capacity ∧ m.isTaken p.toNat = true := by
    simpa [isAllocated] using ha
  have hv := h.vacate hlt ht
  have hroom : m.free + 1 ≤ m.capacity := by
    have hc := hv.counted
    change m.free + 1 + _ = m.capacity at hc
    omega
  refine ⟨{ (m.untake p.toNat).setSlot p.toNat none with free := m.free + 1 }, ?_, hv, rfl, rfl,
    ?_, ?_⟩
  · rw [h.lookup_eq] at he
    simp [deallocate, Nat.not_le.2 hlt, ht, Nat.not_lt.2 hroom, he, h.lookup_eq]
  · intro q
    have htaken := isTaken_untake (h.word_lt hlt) q.toNat
    change (decide (q.toNat < m.capacity) && (m.untake p.toNat).isTaken q.toNat) = _
    rw [htaken, isAllocated]
    by_cases hq : q = p
    · simp [hq]
    · have hne : q.toNat ≠ p.toNat := fun hn => hq (UInt32.toNat_inj.1 hn)
      simp [hq, hne]
  · intro q
    rw [hv.lookup_eq, h.lookup_eq]
    change ((m.untake p.toNat).setSlot p.toNat none).slot q.toNat = _
    rw [slot_setSlot (by simpa [untake] using h.slots ▸ hlt), slot_untake]
    simp [UInt32.toNat_inj]

end Valid

/-! ### A new map -/

theorem slot_ofCapacity (capacity i : Nat) : (ofCapacity capacity).slot i = none := by
  simp only [slot, ofCapacity, Array.getD_eq_getD_getElem?]
  by_cases hi : i < capacity <;> simp [hi]

/-- The bits of the last word that lie past the pid space. -/
theorem getLsbD_tailMask {capacity i : Nat} (hi : i < wordBits) :
    (~~~(bit capacity - 1)).toBitVec.getLsbD i = decide (capacity % wordBits ≤ i) := by
  have hr : capacity % wordBits < 64 := Nat.mod_lt _ (by decide)
  have hle : 2 ^ (capacity % wordBits) < 2 ^ 64 := Nat.pow_lt_pow_right (by decide) hr
  have hpos : 0 < 2 ^ (capacity % wordBits) := Nat.two_pow_pos _
  have hmask : (bit capacity - 1).toBitVec.toNat = 2 ^ (capacity % wordBits) - 1 := by
    rw [UInt64.toBitVec_sub, toBitVec_bit, BitVec.toNat_sub, BitVec.toNat_twoPow,
      Nat.mod_eq_of_lt hle]
    change (2 ^ 64 - 1 + 2 ^ (capacity % wordBits)) % 2 ^ 64 = _
    omega
  have hi64 : i < 64 := hi
  rw [UInt64.toBitVec_not, BitVec.getLsbD_not, BitVec.getLsbD, hmask,
    Nat.testBit_two_pow_sub_one]
  by_cases h : capacity % wordBits ≤ i
  · simp [hi64, h]
  · simp [h, Nat.lt_of_not_le h]

theorem isTaken_of_word {m : PidMap} {i : Nat} {w : UInt64} (h : m.word i = w) :
    m.isTaken i = w.toBitVec.getLsbD (i % wordBits) := by
  rw [isTaken_eq, h]

/-- A new map has the bits past its pid space set, and no others. -/
theorem isTaken_ofCapacity {capacity i : Nat}
    (hi : i / wordBits < (capacity + wordBits - 1) / wordBits) :
    (ofCapacity capacity).isTaken i = decide (capacity ≤ i) := by
  have hmod : i % wordBits < wordBits := Nat.mod_lt _ (by decide)
  by_cases hr : capacity % wordBits = 0
  · have hw : (ofCapacity capacity).word i = 0 := by
      simp [word, ofCapacity, emptyWords, hr, Array.getD_eq_getD_getElem?, hi]
    have hlt : i < capacity := by
      simp only [wordBits] at hi hr
      omega
    rw [isTaken_of_word hw]
    simp [Nat.not_le.2 hlt]
  · by_cases hlast : i / wordBits = capacity / wordBits
    · have hw : (ofCapacity capacity).word i = ~~~(bit capacity - 1) := by
        simp [word, ofCapacity, emptyWords, hr, Array.getD_eq_getD_getElem?, hlast, hlast ▸ hi]
      rw [isTaken_of_word hw, getLsbD_tailMask hmod]
      congr 1
      simp only [wordBits] at hlast ⊢
      apply propext
      omega
    · have hw : (ofCapacity capacity).word i = 0 := by
        simp [word, ofCapacity, emptyWords, hr, Array.getD_eq_getD_getElem?, hi,
          Ne.symm hlast]
      have hlt : i < capacity := by
        simp only [wordBits] at hi hr hlast
        omega
      rw [isTaken_of_word hw]
      simp [Nat.not_le.2 hlt]

theorem valid_ofCapacity {capacity : Nat} (hc : capacity ≤ UInt32.size) :
    (ofCapacity capacity).Valid := by
  have hwords : (ofCapacity capacity).words.size = (capacity + wordBits - 1) / wordBits := by
    simp only [ofCapacity, emptyWords]
    split <;> simp
  refine ⟨hwords, by simp [ofCapacity], hc, ?_, ?_, ?_⟩
  · intro i hi hw
    rw [isTaken_ofCapacity (hwords ▸ hw)]
    simpa [ofCapacity] using hi
  · intro i b hb
    rw [slot_ofCapacity] at hb
    cases hb
  · have hnone : (ofCapacity capacity).takenBelow capacity = 0 := by
      apply List.countP_eq_zero.2
      intro i hi
      have hlt := List.mem_range.1 hi
      rw [isTaken_ofCapacity (by rw [wordBits]; omega)]
      simpa using hlt
    change capacity + (ofCapacity capacity).takenBelow capacity = capacity
    omega

end Lifecycle.PidMap
