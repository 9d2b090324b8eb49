import Lifecycle.PidMap.Bits

/-! Pid maps as a set of taken pids with a partial map to blocks. `Valid` is what
every operation keeps: the words cover the pid space and nothing below the first
unused bit is counted twice, a block sits only at a taken pid, and the count of
free pids is the number of clear bits. Under it no check of the map fails. -/

namespace Lifecycle.PidMap

/-- Number of pids below `n` that are taken. -/
def takenBelow (m : PidMap) (n : Nat) : Nat := (List.range n).countP m.isTaken

structure Valid (m : PidMap) : Prop where
  words : m.words.size = (m.capacity + wordBits - 1) / wordBits
  slots : m.slots.size = m.capacity
  bound : m.capacity ≤ UInt32.size
  /-- The bits past the pid space are set. -/
  tail : ∀ i, m.capacity ≤ i → i / wordBits < m.words.size → m.isTaken i = true
  occupied : ∀ i b, m.slot i = some b → m.isTaken i = true
  counted : m.free + m.takenBelow m.capacity = m.capacity

/-! ### Counting -/

/-- A predicate that gains one number gains one in its count. -/
theorem countP_range_insert {p q : Nat → Bool} {i n : Nat} (hi : i < n) (hp : p i = false)
    (hq : ∀ j, q j = (decide (j = i) || p j)) :
    (List.range n).countP q = (List.range n).countP p + 1 := by
  induction n with
  | zero => omega
  | succ n ih =>
    rw [List.range_succ, List.countP_append, List.countP_append]
    by_cases hin : i = n
    · subst hin
      have hsame : (List.range i).countP q = (List.range i).countP p := by
        apply List.countP_congr
        intro j hj
        have hne : j ≠ i := by have := List.mem_range.1 hj; omega
        simp [hq, hne]
      simp [hsame, hq, hp]
    · have hn : q n = p n := by simp [hq, Ne.symm hin]
      rw [ih (by omega)]
      simp [List.countP_singleton, hn]
      omega

theorem takenBelow_le (m : PidMap) (n : Nat) : m.takenBelow n ≤ n := by
  simpa [takenBelow] using List.countP_le_length (p := m.isTaken) (l := List.range n)

namespace Valid

variable {m : PidMap} (h : m.Valid)
include h

theorem word_lt {i : Nat} (hi : i < m.capacity) : i / wordBits < m.words.size := by
  rw [h.words, wordBits]
  omega

theorem slot_lt {i : Nat} {b : BlockId} (hb : m.slot i = some b) : i < m.capacity := by
  rw [← h.slots]
  by_cases hi : i < m.slots.size
  · exact hi
  · simp [slot, Array.getD_eq_getD_getElem?, hi] at hb

theorem toNat_ofNat {i : Nat} (hi : i < m.capacity) : (UInt32.ofNat i).toNat = i :=
  UInt32.toNat_ofNat_of_lt' (Nat.lt_of_lt_of_le hi h.bound)

/-- A lookup sees the slot, because only taken pids have one. -/
theorem lookup_eq (pid : Pid) : m.lookup pid = m.slot pid.toNat := by
  unfold lookup
  split
  · rfl
  · next hn =>
    cases hs : m.slot pid.toNat with
    | none => rfl
    | some b => exact absurd ⟨h.slot_lt hs, h.occupied _ _ hs⟩ hn

theorem lookup_lt {pid : Pid} {b : BlockId} (hb : m.lookup pid = some b) :
    pid.toNat < m.capacity :=
  h.slot_lt (h.lookup_eq pid ▸ hb)

theorem isAllocated_of_lookup {pid : Pid} {b : BlockId} (hb : m.lookup pid = some b) :
    m.isAllocated pid = true := by
  have hs := h.lookup_eq pid ▸ hb
  simp [isAllocated, h.slot_lt hs, h.occupied _ _ hs]

theorem peek_eq (pid : Pid) : m.peek pid = m.lookup pid := by
  rw [h.lookup_eq]
  unfold peek
  split
  · rfl
  · next hn =>
    cases hs : m.slot pid.toNat with
    | none => rfl
    | some b => exact absurd (h.slot_lt hs) hn

end Valid

/-! ### The first clear bit -/

theorem trailingOnes_spec {w : UInt64} (hw : w ≠ fullWord) :
    trailingOnes w < wordBits ∧ w.toBitVec.getLsbD (trailingOnes w) = false ∧
      ∀ i < trailingOnes w, w.toBitVec.getLsbD i = true := by
  have hbit : ∀ i < wordBits, (w &&& bit i == 0) = !w.toBitVec.getLsbD i := by
    intro i hi
    have := and_bit_bne_zero w i
    rw [Nat.mod_eq_of_lt hi] at this
    rw [← this]
    simp [bne]
  unfold trailingOnes
  cases hf : (List.range wordBits).find? fun i => w &&& bit i == 0 with
  | none =>
    exfalso
    apply hw
    rw [List.find?_eq_none] at hf
    apply UInt64.eq_of_toBitVec_eq
    apply BitVec.eq_of_getLsbD_eq
    intro i hi
    have hn := hf i (List.mem_range.2 hi)
    rw [hbit i hi] at hn
    have hfull : fullWord.toBitVec = BitVec.allOnes 64 := by decide
    rw [hfull, BitVec.getLsbD_allOnes]
    simpa [hi] using hn
  | some i =>
    obtain ⟨hi, l, r, hl, hlt⟩ := List.find?_eq_some_iff_append.1 hf
    have hr : (List.range wordBits)[l.length]? = some i := by simp [hl]
    obtain ⟨hlen, hli⟩ := List.getElem?_eq_some_iff.1 hr
    rw [List.length_range] at hlen
    rw [List.getElem_range] at hli
    refine ⟨by simpa [← hli] using hlen, ?_, ?_⟩
    · have := hbit i (hli ▸ hlen)
      simpa [hi] using this.symm
    · intro j hj
      simp only [Option.getD_some, ← hli] at hj
      have hmem : j ∈ l := by
        have : (List.range wordBits)[j]? = some j := by
          rw [List.getElem?_range (by omega)]
        rw [hl, List.getElem?_append_left hj] at this
        exact List.mem_of_getElem? this
      have := hlt j hmem
      rw [hbit j (by omega)] at this
      simpa using this

theorem eq_fullWord_of_firstClearFrom {i : Nat} {ws : List UInt64}
    (hn : firstClearFrom i ws = none) : ∀ w ∈ ws, w = fullWord := by
  induction ws generalizing i with
  | nil => simp
  | cons w ws ih =>
    unfold firstClearFrom at hn
    split at hn
    · next hw => simpa using ⟨eq_of_beq hw, ih hn⟩
    · cases hn

theorem exists_of_firstClearFrom {i n : Nat} {ws : List UInt64}
    (hn : firstClearFrom i ws = some n) :
    ∃ j w, ws[j]? = some w ∧ w ≠ fullWord ∧ n = (i + j) * wordBits + trailingOnes w ∧
      ∀ l < j, ws[l]? = some fullWord := by
  induction ws generalizing i with
  | nil => cases hn
  | cons w ws ih =>
    unfold firstClearFrom at hn
    split at hn
    · next hw =>
      obtain ⟨j, v, hj, hv, rfl, hfull⟩ := ih hn
      refine ⟨j + 1, v, by simpa using hj, hv, by congr 2; omega, ?_⟩
      intro l hl
      cases l with
      | zero => simp [eq_of_beq hw]
      | succ l => simpa using hfull l (by omega)
    · next hw =>
      cases hn
      exact ⟨0, w, by simp, by simpa using hw, by simp, by omega⟩

theorem isTaken_of_fullWord {m : PidMap} {i : Nat} (h : m.word i = fullWord) :
    m.isTaken i = true := by
  have hfull : fullWord.toBitVec = BitVec.allOnes 64 := by decide
  have hi : i % wordBits < 64 := Nat.mod_lt _ (by decide)
  rw [isTaken_eq, h, hfull, BitVec.getLsbD_allOnes]
  simpa using hi

theorem word_eq_of_div {m : PidMap} {i j : Nat} {w : UInt64} (hj : m.words[j]? = some w)
    (hi : i / wordBits = j) : m.word i = w := by
  simp [word, hi, Array.getD_eq_getD_getElem?, hj]

namespace Valid

variable {m : PidMap} (h : m.Valid)
include h

theorem firstClearFrom_spec {n : Nat} (hf : firstClearFrom 0 m.words.toList = some n) :
    n < m.capacity ∧ m.isTaken n = false ∧ ∀ i < n, m.isTaken i = true := by
  obtain ⟨j, w, hj, hw, rfl, hfull⟩ := exists_of_firstClearFrom hf
  obtain ⟨hlt, hclear, hset⟩ := trailingOnes_spec hw
  rw [Array.getElem?_toList] at hj
  obtain ⟨hsize, _⟩ := Array.getElem?_eq_some_iff.1 hj
  have hdiv : ((0 + j) * wordBits + trailingOnes w) / wordBits = j := by
    simp only [wordBits] at hlt ⊢
    omega
  have hmod : ((0 + j) * wordBits + trailingOnes w) % wordBits = trailingOnes w := by
    simp only [wordBits] at hlt ⊢
    omega
  have htaken : m.isTaken ((0 + j) * wordBits + trailingOnes w) = false := by
    rw [isTaken_eq, word_eq_of_div hj hdiv, hmod, hclear]
  refine ⟨?_, htaken, ?_⟩
  · refine Nat.lt_of_not_le fun hge => ?_
    rw [h.tail _ hge (by rw [hdiv]; exact hsize)] at htaken
    cases htaken
  · intro i hi
    by_cases hij : i / wordBits < j
    · apply isTaken_of_fullWord
      have := hfull _ hij
      rw [Array.getElem?_toList] at this
      exact word_eq_of_div this rfl
    · have hword : i / wordBits = j := by
        simp only [wordBits] at hlt hi hij ⊢
        omega
      have hlow : i % wordBits < trailingOnes w := by
        simp only [wordBits] at hlt hi hword ⊢
        omega
      rw [isTaken_eq, word_eq_of_div hj hword]
      exact hset _ hlow

theorem isTaken_of_firstClear (hn : m.firstClear = none) :
    ∀ i < m.capacity, m.isTaken i = true := by
  intro i hi
  have hw := h.word_lt hi
  unfold firstClear at hn
  cases hf : firstClearFrom 0 m.words.toList with
  | none =>
    apply isTaken_of_fullWord
    apply eq_fullWord_of_firstClearFrom hf
    simp [word, Array.getD_eq_getD_getElem?, hw]
  | some n =>
    obtain ⟨hlt, _⟩ := h.firstClearFrom_spec hf
    rw [hf, Option.filter_some, if_pos (by simpa using hlt)] at hn
    cases hn

/-- The first clear bit is the lowest pid that is not taken. -/
theorem firstClear_spec {n : Nat} (hn : m.firstClear = some n) :
    n < m.capacity ∧ m.isTaken n = false ∧ ∀ i < n, m.isTaken i = true := by
  obtain ⟨hf, _⟩ := Option.filter_eq_some_iff.1 hn
  exact h.firstClearFrom_spec hf

/-! ### Changes to a valid map -/

/-- A pid becomes taken. -/
theorem take {i : Nat} (hi : i < m.capacity) (ht : m.isTaken i = false) :
    Valid { m.take i with free := m.free - 1 } := by
  have htaken := isTaken_take (h.word_lt hi)
  have hcount : (m.take i).takenBelow m.capacity = m.takenBelow m.capacity + 1 :=
    countP_range_insert hi ht htaken
  have hle := (m.take i).takenBelow_le m.capacity
  have hc := h.counted
  refine ⟨by simpa [PidMap.take] using h.words, h.slots, h.bound, ?_, ?_, ?_⟩
  · intro j hj hw
    change (m.take i).isTaken j = true
    rw [htaken, h.tail j hj (by simpa [PidMap.take] using hw), Bool.or_true]
  · intro j b hb
    change (m.take i).isTaken j = true
    rw [htaken, h.occupied j b hb, Bool.or_true]
  · change m.free - 1 + (m.take i).takenBelow m.capacity = m.capacity
    omega

/-- A taken pid gets a block. -/
theorem setSlot {i : Nat} (hi : i < m.capacity) (ht : m.isTaken i = true) (b : BlockId) :
    Valid (m.setSlot i (some b)) := by
  refine ⟨h.words, by simpa [PidMap.setSlot] using h.slots, h.bound, h.tail, ?_, h.counted⟩
  intro j c hc
  rw [slot_setSlot (h.slots ▸ hi)] at hc
  change m.isTaken j = true
  split at hc
  · next hj => exact hj ▸ ht
  · exact h.occupied j c hc

/-- A taken pid is freed, and its block removed. -/
theorem vacate {i : Nat} (hi : i < m.capacity) (ht : m.isTaken i = true) :
    Valid { (m.untake i).setSlot i none with free := m.free + 1 } := by
  have htaken : ∀ j, ((m.untake i).setSlot i none).isTaken j = (decide (j ≠ i) && m.isTaken j) :=
    fun j => isTaken_untake (h.word_lt hi) j
  have hcount : m.takenBelow m.capacity
      = ((m.untake i).setSlot i none).takenBelow m.capacity + 1 := by
    apply countP_range_insert hi
    · simp [htaken]
    · intro j
      rw [htaken]
      by_cases hj : j = i
      · simp [hj, ht]
      · simp [hj]
  have hc := h.counted
  refine ⟨by simpa [PidMap.setSlot, untake] using h.words,
    by simpa [PidMap.setSlot, untake] using h.slots, h.bound, ?_, ?_, ?_⟩
  · intro j hj hw
    change ((m.untake i).setSlot i none).isTaken j = true
    have hw' : j / wordBits < m.words.size := by simpa [PidMap.setSlot, untake] using hw
    have hge : m.capacity ≤ j := hj
    have hne : j ≠ i := by omega
    rw [htaken, h.tail j hge hw']
    simp [hne]
  · intro j b hb
    change ((m.untake i).setSlot i none).isTaken j = true
    change ((m.untake i).setSlot i none).slot j = some b at hb
    rw [slot_setSlot (by simpa [untake] using h.slots ▸ hi), slot_untake] at hb
    split at hb
    · cases hb
    · next hj => simp [htaken, hj, h.occupied j b hb]
  · change m.free + 1 + ((m.untake i).setSlot i none).takenBelow m.capacity = m.capacity
    omega

end Valid

end Lifecycle.PidMap
