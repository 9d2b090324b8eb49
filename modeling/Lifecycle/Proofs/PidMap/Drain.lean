import Lifecycle.Proofs.PidMap.Spec

/-! Draining a valid pid map. The blocks come out by ascending pid, each of them once,
and a map is left in which no pid is taken; there is nothing in it to give back. -/

namespace Lifecycle.PidMap

/-- The blocks installed, by ascending pid. -/
def occupants (m : PidMap) : List BlockId := (List.range m.capacity).filterMap m.slot

/-- The pids below `n` are drained, and the blocks that were there come last first. -/
structure DrainedBelow (m : PidMap) (n : Nat) (out : List BlockId × PidMap) : Prop where
  blocks : out.1 = ((List.range n).filterMap m.slot).reverse
  capacity : out.2.capacity = m.capacity
  words : out.2.words.size = m.words.size
  slots : out.2.slots.size = m.slots.size
  taken : ∀ i, out.2.isTaken i = (decide (n ≤ i) && m.isTaken i)
  slot : ∀ i, out.2.slot i = if i < n then none else m.slot i

namespace Valid

variable {m : PidMap} (h : m.Valid)
include h

/-- Draining one more pid, whether it is taken or not. -/
theorem drainAt {n : Nat} (hn : n < m.capacity) {out : List BlockId × PidMap}
    (hd : m.DrainedBelow n out) : m.DrainedBelow (n + 1) (PidMap.drainAt out n) := by
  obtain ⟨bs, m'⟩ := out
  obtain ⟨hblocks, hcap, hwords, hslots, htaken, hslot⟩ := hd
  dsimp only at *
  have hword : n / wordBits < m'.words.size := hwords ▸ h.word_lt hn
  have hsize : n < (m'.untake n).slots.size := by
    change n < m'.slots.size
    rw [hslots, h.slots]
    exact hn
  have hrange : ∀ f : Nat → Option BlockId,
      (List.range (n + 1)).filterMap f = (List.range n).filterMap f ++ (f n).toList := fun f => by
    rw [List.range_succ, List.filterMap_append]
    cases hf : f n <;> simp [hf]
  have hn' : m'.slot n = m.slot n := by rw [hslot, if_neg (Nat.lt_irrefl n)]
  have htn : m'.isTaken n = m.isTaken n := by simp [htaken]
  have hbits : ∀ i, (m'.untake n).isTaken i = (decide (n + 1 ≤ i) && m.isTaken i) := fun i => by
    rw [isTaken_untake hword, htaken]
    by_cases hi : i = n
    · have hlt : ¬n + 1 ≤ i := by omega
      rw [decide_eq_false hlt]
      simp [hi]
    · have : n ≤ i ↔ n + 1 ≤ i := by omega
      simp [hi, this]
  -- a slot already empty may count as emptied
  have hempty : m.slot n = none →
      ∀ i, m'.slot i = if i < n + 1 then none else m.slot i := fun he i => by
    rw [hslot]
    by_cases hi : i = n
    · simp [hi, he]
    · have : i < n ↔ i < n + 1 := by omega
      simp [this]
  unfold PidMap.drainAt
  dsimp only
  split
  · rw [hn']
    split
    · next b hb =>
      refine ⟨?_, hcap, by simpa [PidMap.setSlot, untake] using hwords,
        by simpa [PidMap.setSlot, untake] using hslots, hbits, fun i => ?_⟩
      · rw [hrange, hb, hblocks]
        simp
      · rw [slot_setSlot hsize, slot_untake, hslot]
        by_cases hi : i = n
        · simp [hi]
        · have : i < n ↔ i < n + 1 := by omega
          simp [hi, this]
    · next hb =>
      refine ⟨?_, hcap, by simpa [untake] using hwords, hslots, hbits, hempty hb⟩
      rw [hrange, hb, hblocks]
      simp
  · next ht =>
    have hfree : m.isTaken n = false := by rw [← htn]; exact Bool.eq_false_iff.2 ht
    have hb : m.slot n = none := Option.eq_none_iff_forall_ne_some.2 fun b hb => by
      rw [h.occupied n b hb] at hfree
      cases hfree
    refine ⟨?_, hcap, hwords, hslots, fun i => ?_, hempty hb⟩
    · rw [hrange, hb, hblocks]
      simp
    · rw [htaken]
      by_cases hi : i = n
      · simp [hi, hfree]
      · have : n ≤ i ↔ n + 1 ≤ i := by omega
        simp [this]

theorem drainedBelow (n : Nat) (hn : n ≤ m.capacity) :
    m.DrainedBelow n ((List.range n).foldl PidMap.drainAt ([], m)) := by
  induction n with
  | zero => exact ⟨rfl, rfl, rfl, rfl, fun i => by simp, fun i => by simp⟩
  | succ n ih =>
    rw [List.range_succ, List.foldl_append]
    exact h.drainAt hn (ih (Nat.le_of_succ_le hn))

/-- Every pid is free, and the blocks that were installed are handed out. -/
theorem drain_spec : m.drain.1 = m.occupants ∧ m.drain.2.Valid ∧
    m.drain.2.capacity = m.capacity ∧ m.drain.2.free = m.capacity ∧
    ∀ p, m.drain.2.isAllocated p = false := by
  obtain ⟨hblocks, hcap, hwords, hslots, htaken, hslot⟩ :=
    h.drainedBelow m.capacity (Nat.le_refl _)
  unfold drain
  dsimp only
  generalize (List.range m.capacity).foldl PidMap.drainAt ([], m) = out at *
  have hnone : ∀ i < m.capacity, out.2.isTaken i = false := fun i hi => by
    rw [htaken]
    simp [Nat.not_le.2 hi]
  refine ⟨by rw [hblocks, List.reverse_reverse]; rfl, ⟨?_, ?_, ?_, ?_, ?_, ?_⟩, hcap, rfl, ?_⟩
  · change out.2.words.size = (out.2.capacity + wordBits - 1) / wordBits
    rw [hwords, hcap, h.words]
  · exact hslots.trans (h.slots.trans hcap.symm)
  · exact hcap ▸ h.bound
  · intro i hi hw
    change out.2.isTaken i = true
    have hi' : m.capacity ≤ i := hcap ▸ hi
    rw [htaken, h.tail i hi' (hwords ▸ hw)]
    simp [hi']
  · intro i b hb
    change out.2.slot i = some b at hb
    rw [hslot] at hb
    split at hb
    · cases hb
    · next hi => exact absurd (h.slot_lt hb) hi
  · change m.capacity + out.2.takenBelow out.2.capacity = out.2.capacity
    have hzero : out.2.takenBelow m.capacity = 0 :=
      List.countP_eq_zero.2 fun i hi => by simp [hnone i (List.mem_range.1 hi)]
    rw [hcap, hzero, Nat.add_zero]
  · intro p
    change (decide (p.toNat < out.2.capacity) && out.2.isTaken p.toNat) = false
    by_cases hp : p.toNat < m.capacity
    · rw [hnone _ hp, Bool.and_false]
    · simp [hcap, hp]

theorem mem_occupants {b : BlockId} : b ∈ m.occupants ↔ ∃ p, m.lookup p = some b := by
  simp only [occupants, List.mem_filterMap, List.mem_range]
  constructor
  · rintro ⟨i, hi, hb⟩
    exact ⟨UInt32.ofNat i, by rw [h.lookup_eq, h.toNat_ofNat hi]; exact hb⟩
  · rintro ⟨p, hp⟩
    exact ⟨p.toNat, h.lookup_lt hp, h.lookup_eq p ▸ hp⟩

/-- Nothing is found at a free pid. -/
theorem lookup_of_free {p : Pid} (hp : m.isAllocated p = false) : m.lookup p = none :=
  Option.eq_none_iff_forall_ne_some.2 fun _ hb =>
    Bool.false_ne_true (hp.symm.trans (h.isAllocated_of_lookup hb))

/-- A free pid stays as it is when it is given back. -/
theorem deallocate_of_free {p : Pid} (hp : m.isAllocated p = false)
    (expected : Option BlockId) : m.deallocate p expected = .ok (none, m) := by
  have hs : m.slot p.toNat = none := h.lookup_eq p ▸ h.lookup_of_free hp
  unfold deallocate
  split
  · rfl
  · next hlt =>
    have ht : m.isTaken p.toNat = false := by
      simpa [isAllocated, Nat.not_le.1 hlt] using hp
    rw [ht, hs]
    rfl

end Valid

end Lifecycle.PidMap
