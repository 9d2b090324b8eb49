import Lifecycle.Proofs.PidMap.Drain
import Mathlib.Data.Finset.Card
import Mathlib.Data.Fintype.EquivFin

/-! A pid map is a set of taken pids with a partial map from pids to blocks, whatever is asked of
it. The same calls get the same answers from both, and a call on which a check of the pid map
fails is one that the set and the map have no answer to. -/

namespace Lifecycle

inductive PidCall
  | allocate
  | install (pid : Pid) (b : BlockId)
  | deallocate (pid : Pid) (expected : Option BlockId)
  | getRetained (pid : Pid)
  | peek (pid : Pid)
  | isAllocated (pid : Pid)
  | livePids
  | freeSlots
  | drain
  /-- Blocks are made elsewhere, and references on them taken and given back. -/
  | become (blocks : BlockStore)

inductive PidAnswer
  | pid (result : Except ProcessError Pid)
  | block (b : Option BlockId)
  | truth (b : Bool)
  | pids (pids : List Pid)
  | count (n : Nat)
  | blocks (bs : List BlockId)
  | done
deriving DecidableEq

/-- The answers to calls, up to the first that has none, and what is there after them. -/
def PidCall.answers {σ : Type} (answer? : σ → PidCall → Option (PidAnswer × σ)) :
    σ → List PidCall → List PidAnswer × Option σ
  | x, [] => ([], some x)
  | x, call :: calls =>
    match answer? x call with
    | none => ([], none)
    | some (a, y) => (a :: (answers answer? y calls).1, (answers answer? y calls).2)

namespace PidMap

/-- The answer to a call, unless a check fails. -/
def answer? (x : PidMap × BlockStore) (call : PidCall) :
    Option (PidAnswer × PidMap × BlockStore) :=
  let (m, s) := x
  match call with
  | .allocate =>
    match m.allocate with
    | .ok (some pid, m') => some (.pid (.ok pid), m', s)
    | .ok (none, m') => some (.pid (.error m.exhausted), m', s)
    | .error _ => none
  | .install pid b =>
    match m.install pid (s.get b).pid b with
    | .ok m' => some (.done, m', s)
    | .error _ => none
  | .deallocate pid expected =>
    match m.deallocate pid expected with
    | .ok (b, m') => some (.block b, m', s)
    | .error _ => none
  | .getRetained pid =>
    match m.getRetained s pid with
    | some (b, s') => some (.block (some b), m, s')
    | none => some (.block none, m, s)
  | .peek pid => some (.block (m.peek pid), m, s)
  | .isAllocated pid => some (.truth (m.isAllocated pid), m, s)
  | .livePids => some (.pids m.livePids, m, s)
  | .freeSlots => some (.count m.free, m, s)
  | .drain => some (.blocks m.drain.1, m.drain.2, s)
  | .become s' => some (.done, m, s')

end PidMap

/-- Pids below a capacity, some of them taken, and blocks at some of these. -/
@[ext] structure PidTable where
  capacity : Nat
  taken : Finset Nat
  block : Pid → Option BlockId

namespace PidTable

def empty (capacity : Nat) : PidTable := ⟨capacity, ∅, fun _ => none⟩

/-- The least number that is not taken. -/
def least (t : PidTable) : Nat := Nat.find (Infinite.exists_notMem_finset t.taken)

/-- The pids with a block, ascending. -/
def domain (t : PidTable) : List Pid :=
  ((List.range t.capacity).map UInt32.ofNat).filter fun p => (t.block p).isSome

def answer? (x : PidTable × BlockStore) (call : PidCall) :
    Option (PidAnswer × PidTable × BlockStore) :=
  let (t, s) := x
  match call with
  | .allocate =>
    if t.taken.card = t.capacity then
      some (.pid (.error (.pidExhausted (UInt64.ofNat t.capacity))), t, s)
    else
      some (.pid (.ok (UInt32.ofNat t.least)), { t with taken := insert t.least t.taken }, s)
  | .install pid b =>
    if pid.toNat ∈ t.taken ∧ t.block pid = none ∧ (s.get b).pid = pid then
      some (.done, { t with block := fun p => if p = pid then some b else t.block p }, s)
    else none
  | .deallocate pid expected =>
    if pid.toNat ∉ t.taken then some (.block none, t, s)
    else if ∃ b ∈ t.block pid, ∃ e ∈ expected, b ≠ e then none
    else
      some (.block (t.block pid),
        { t with
          taken := t.taken.erase pid.toNat
          block := fun p => if p = pid then none else t.block p }, s)
  | .getRetained pid =>
    match t.block pid with
    | none => some (.block none, t, s)
    | some b =>
      if 0 < (s.get b).refCount then
        some (.block (some b), t,
          s.update b fun block => { block with refCount := block.refCount + 1 })
      else some (.block none, t, s)
  | .peek pid => some (.block (t.block pid), t, s)
  | .isAllocated pid => some (.truth (pid.toNat ∈ t.taken), t, s)
  | .livePids => some (.pids t.domain, t, s)
  | .freeSlots => some (.count (t.capacity - t.taken.card), t, s)
  | .drain => some (.blocks (t.domain.filterMap t.block), empty t.capacity, s)
  | .become s' => some (.done, t, s')

end PidTable

namespace PidMap

/-- The set and the partial map that a pid map stands for. -/
def table (m : PidMap) : PidTable where
  capacity := m.capacity
  taken := (Finset.range m.capacity).filter fun i => m.isTaken i = true
  block := m.lookup

/-- That of a pid map that stands beside blocks. -/
def shown (x : PidMap × BlockStore) : PidTable × BlockStore := (x.1.table, x.2)

theorem mem_taken {m : PidMap} {p : Pid} :
    p.toNat ∈ m.table.taken ↔ m.isAllocated p = true := by
  simp [table, isAllocated]

/-- A map stands for the table that shows the same pids taken and the same blocks at them. -/
theorem table_eq {m : PidMap} (h : m.Valid) {t : PidTable} (hc : m.capacity = t.capacity)
    (ht : ∀ i ∈ t.taken, i < t.capacity)
    (ha : ∀ p, m.isAllocated p = true ↔ p.toNat ∈ t.taken) (hl : ∀ p, m.lookup p = t.block p) :
    m.table = t := by
  refine PidTable.ext hc (Finset.ext fun i => ?_) (funext hl)
  by_cases hi : i < m.capacity
  · rw [← h.toNat_ofNat hi, mem_taken, ha]
  · refine iff_of_false (fun hm => hi ?_) fun hm => hi (hc ▸ ht i hm)
    exact Finset.mem_range.1 (Finset.mem_filter.1 hm).1

theorem table_ofCapacity {capacity : Nat} (hc : capacity ≤ UInt32.size) :
    (ofCapacity capacity).table = .empty capacity := by
  have h := valid_ofCapacity hc
  refine table_eq h rfl (fun i hi => absurd hi (Finset.notMem_empty i)) (fun p => ?_) fun p => ?_
  · refine iff_of_false (fun ha => ?_) (Finset.notMem_empty _)
    obtain ⟨hlt, ht⟩ : p.toNat < capacity ∧ (ofCapacity capacity).isTaken p.toNat = true :=
      (Bool.and_eq_true_iff.1 ha).imp_left of_decide_eq_true
    rw [isTaken_ofCapacity (by rw [wordBits]; omega)] at ht
    exact absurd hlt (Nat.not_lt.2 (of_decide_eq_true ht))
  · rw [h.lookup_eq]
    exact slot_ofCapacity ..

namespace Valid

variable {m : PidMap} (h : m.Valid)
include h

/-- The count of free pids is the number of those that are not taken. -/
theorem free_add_card : m.free + m.table.taken.card = m.capacity := by
  have hcard : m.table.taken.card = m.takenBelow m.capacity := by
    change ((List.range m.capacity).filter fun i => decide (m.isTaken i = true)).length = _
    simp only [Bool.decide_eq_true, takenBelow, List.countP_eq_length_filter]
  rw [hcard]
  exact h.counted

/-! ### Taking pids and giving them back -/

omit h in
theorem least_eq {i : Nat} (hi : i < m.capacity) (ht : m.isTaken i = false)
    (hlow : ∀ j < i, m.isTaken j = true) : m.table.least = i := by
  refine (Nat.find_eq_iff _).2 ⟨fun hm => ?_, fun j hj => ?_⟩
  · rw [(Finset.mem_filter.1 hm).2] at ht
    cases ht
  · exact fun hm => hm (Finset.mem_filter.2
      ⟨Finset.mem_range.2 (Nat.lt_trans hj hi), hlow j hj⟩)

/-- The lowest free pid is taken as long as there is one. -/
theorem allocate_table :
    (m.table.taken.card = m.table.capacity ∧ m.allocate = .ok (none, m)) ∨
    (m.table.taken.card ≠ m.table.capacity ∧
      ∃ m', m.allocate = .ok (some (UInt32.ofNat m.table.least), m') ∧ m'.Valid ∧
        m'.table = { m.table with taken := insert m.table.least m.table.taken }) := by
  have hcard : m.free + m.table.taken.card = m.table.capacity := h.free_add_card
  by_cases hf : m.free = 0
  · exact Or.inl ⟨by omega, allocate_none hf⟩
  · obtain ⟨p, m', ha, hv, hlt, hfree, hlow, hc, -, hl, halloc⟩ := h.allocate_some hf
    have hleast : m.table.least = p.toNat :=
      least_eq hlt (by simpa [isAllocated, hlt] using hfree) hlow
    refine Or.inr ⟨by omega, m', ?_, hv, table_eq hv hc ?_ ?_ (congrFun hl)⟩
    · rw [hleast, UInt32.ofNat_toNat, ha]
    · intro i hi
      rw [hleast] at hi
      rcases Finset.mem_insert.1 hi with rfl | hi
      · exact hlt
      · exact Finset.mem_range.1 (Finset.mem_filter.1 hi).1
    · intro q
      rw [halloc, hleast, Finset.mem_insert, mem_taken, UInt32.toNat_inj, Bool.or_eq_true,
        decide_eq_true_iff]

/-- A pid is free if there is a free pid at all: the count and the bits agree. -/
theorem exists_firstClear (hf : m.free ≠ 0) : ∃ i, m.firstClear = some i := by
  refine Option.ne_none_iff_exists'.1 fun hn => ?_
  obtain ⟨p, -, -, -, hlt, hp, -⟩ := h.allocate_some hf
  simp [isAllocated, hlt, h.isTaken_of_firstClear hn _ hlt] at hp

theorem deallocate_table (p : Pid) (expected : Option BlockId) :
    (m.isAllocated p = false ∧ m.deallocate p expected = .ok (none, m)) ∨
    (m.isAllocated p = true ∧ contradicts (m.table.block p) expected = true ∧
      ∃ fault, m.deallocate p expected = .error fault) ∨
    (m.isAllocated p = true ∧ contradicts (m.table.block p) expected = false ∧
      ∃ m', m.deallocate p expected = .ok (m.table.block p, m') ∧ m'.Valid ∧
        m'.table = { m.table with
          taken := m.table.taken.erase p.toNat
          block := fun q => if q = p then none else m.table.block q }) := by
  cases ha : m.isAllocated p with
  | false => exact Or.inl ⟨rfl, h.deallocate_of_free ha expected⟩
  | true =>
    cases he : contradicts (m.table.block p) expected with
    | true =>
      obtain ⟨hlt, ht⟩ : p.toNat < m.capacity ∧ m.isTaken p.toNat = true := by
        simpa [isAllocated] using ha
      have hagrees : contradicts (m.lookup p) none = false := by cases m.lookup p <;> rfl
      obtain ⟨m', hd, -⟩ := h.deallocate_eq ha hagrees
      have he : contradicts (m.slot p.toNat) expected = true := h.lookup_eq p ▸ he
      refine Or.inr (Or.inl ⟨rfl, rfl, .differentBlock p, ?_⟩)
      simp only [deallocate, Nat.not_le.2 hlt, ht, if_false, Bool.not_true, he, if_true,
        Bool.false_eq_true] at hd ⊢
      split at hd
      · cases hd
      · rename_i hroom
        rw [if_neg hroom]
    | false =>
      obtain ⟨m', hd, hv, hc, -, halloc, hl⟩ := h.deallocate_eq ha he
      refine Or.inr (Or.inr ⟨rfl, rfl, m', hd, hv, table_eq hv hc ?_ ?_ hl⟩)
      · intro i hi
        exact Finset.mem_range.1 (Finset.mem_filter.1 (Finset.mem_of_mem_erase hi)).1
      · intro q
        rw [halloc, Finset.mem_erase, mem_taken, Bool.and_eq_true, decide_eq_true_iff, ne_eq,
          ne_eq, UInt32.toNat_inj]

/-! ### Blocks -/

theorem install_table (p own : Pid) (b : BlockId) :
    (m.isAllocated p = true ∧ m.table.block p = none ∧ own = p ∧
      ∃ m', m.install p own b = .ok m' ∧ m'.Valid ∧
        m'.table = { m.table with block := fun q => if q = p then some b else m.table.block q }) ∨
    (¬(m.isAllocated p = true ∧ m.table.block p = none ∧ own = p) ∧
      ∃ fault, m.install p own b = .error fault) := by
  by_cases hok : m.isAllocated p = true ∧ m.table.block p = none ∧ own = p
  · obtain ⟨ha, hn, rfl⟩ := hok
    obtain ⟨m', hi, hv, hc, -, halloc, hl⟩ := h.install_eq (b := b) ha hn
    refine Or.inl ⟨ha, hn, rfl, m', hi, hv, table_eq hv hc ?_ ?_ hl⟩
    · exact fun i hm => Finset.mem_range.1 (Finset.mem_filter.1 hm).1
    · exact fun q => by rw [halloc]; exact mem_taken.symm
  · refine Or.inr ⟨hok, ?_⟩
    unfold install
    by_cases hc : m.capacity ≤ p.toNat
    · exact ⟨_, if_pos hc⟩
    rw [if_neg hc]
    by_cases hown : own = p
    · rw [if_neg (not_not.2 hown)]
      cases ht : m.isTaken p.toNat with
      | false => exact ⟨_, rfl⟩
      | true =>
        have ha : m.isAllocated p = true := by simp [isAllocated, ht, Nat.lt_of_not_le hc]
        have hs : (m.slot p.toNat).isSome = true := by
          rw [← h.lookup_eq, Option.isSome_iff_ne_none]
          exact fun hn => hok ⟨ha, hn, hown⟩
        exact ⟨_, if_pos hs⟩
    · exact ⟨_, if_pos hown⟩

theorem lookup_ofNat {i : Nat} (hi : i < m.capacity) : m.lookup (UInt32.ofNat i) = m.slot i := by
  rw [h.lookup_eq, h.toNat_ofNat hi]

theorem livePids_table : m.livePids = m.table.domain := by
  have hslots : m.slots.toList.zipIdx = (List.range m.capacity).map fun i => (m.slot i, i) := by
    refine List.ext_getElem (by simp [h.slots]) fun i hi _ => ?_
    have hlt : i < m.slots.size := by simpa using hi
    simp [slot, Array.getD_eq_getD_getElem?, hlt]
  unfold livePids PidTable.domain
  rw [hslots, List.filter_map, List.filter_map, List.map_map]
  refine congrArg _ (List.filter_congr fun i hi => ?_)
  exact congrArg _ (h.lookup_ofNat (List.mem_range.1 hi)).symm

theorem occupants_table : m.occupants = m.table.domain.filterMap m.table.block := by
  unfold occupants PidTable.domain
  rw [List.filterMap_filter, List.filterMap_map]
  refine List.filterMap_congr fun i hi => ?_
  change m.slot i = if (m.lookup (UInt32.ofNat i)).isSome then m.lookup (UInt32.ofNat i) else none
  rw [h.lookup_ofNat (List.mem_range.1 hi)]
  cases m.slot i <;> rfl

theorem drain_table : m.drain.1 = m.table.domain.filterMap m.table.block ∧ m.drain.2.Valid ∧
    m.drain.2.table = .empty m.capacity := by
  obtain ⟨hblocks, hv, hc, -, hfree⟩ := h.drain_spec
  refine ⟨hblocks.trans h.occupants_table, hv, table_eq hv hc ?_ ?_ ?_⟩
  · exact fun i hi => absurd hi (Finset.notMem_empty i)
  · exact fun p => iff_of_false (by simp [hfree p]) (Finset.notMem_empty _)
  · exact fun p => hv.lookup_of_free (hfree p)

/-! ### Calls -/

/-- An answer, with a valid map of the same size beside the blocks then, and what they stand for. -/
inductive Answered (capacity : Nat) : Option (PidAnswer × PidMap × BlockStore) →
    Option (PidAnswer × PidTable × BlockStore) → Prop
  | none : Answered capacity none none
  | some {a : PidAnswer} {m : PidMap} {s : BlockStore} (valid : m.Valid)
    (size : m.capacity = capacity) : Answered capacity (some (a, m, s)) (some (a, m.table, s))

/-- A call has the same answer from both, or none from either. -/
theorem answered (s : BlockStore) (call : PidCall) :
    Answered m.capacity (PidMap.answer? (m, s) call) (PidTable.answer? (m.table, s) call) := by
  cases call with
  | allocate =>
    simp only [PidMap.answer?, PidTable.answer?]
    rcases h.allocate_table with ⟨hfull, ha⟩ | ⟨hfree, m', ha, hv, ht⟩
    · rw [ha, if_pos hfull]
      exact .some h rfl
    · rw [ha, if_neg hfree, ← ht]
      exact .some hv (congrArg PidTable.capacity ht)
  | install p b =>
    simp only [PidMap.answer?, PidTable.answer?, mem_taken]
    rcases h.install_table p (s.get b).pid b with ⟨ha, hn, hp, m', hi, hv, ht⟩ | ⟨hno, fault, hi⟩
    · rw [hi, if_pos ⟨ha, hn, hp⟩, ← ht]
      exact .some hv (congrArg PidTable.capacity ht)
    · rw [hi, if_neg hno]
      exact .none
  | deallocate p expected =>
    have hcontra : (∃ b ∈ m.table.block p, ∃ e ∈ expected, b ≠ e) ↔
        contradicts (m.table.block p) expected = true := by
      cases m.table.block p <;> cases expected <;> simp [contradicts]
    simp only [PidMap.answer?, PidTable.answer?, mem_taken, hcontra]
    rcases h.deallocate_table p expected with ⟨ha, hd⟩ | ⟨ha, hc, fault, hd⟩ |
      ⟨ha, hc, m', hd, hv, ht⟩
    · rw [hd, if_pos (by simp [ha])]
      exact .some h rfl
    · rw [hd, if_neg (not_not.2 ha), if_pos hc]
      exact .none
    · rw [hd, if_neg (not_not.2 ha), if_neg (by simp [hc]), ← ht]
      exact .some hv (congrArg PidTable.capacity ht)
  | getRetained p =>
    simp only [PidMap.answer?, PidTable.answer?, getRetained]
    change Answered _ _ (match m.lookup p with | none => _ | some b => _)
    cases hb : m.lookup p with
    | none => exact .some h rfl
    | some b =>
      by_cases hz : (s.get b).refCount = 0
      · simp only [Option.bind_some, BlockStore.tryRetain, hz, if_true, Option.map_none,
          Nat.lt_irrefl, if_false]
        exact .some h rfl
      · simp only [Option.bind_some, BlockStore.tryRetain, hz, if_false, Option.map_some,
          Nat.pos_of_ne_zero hz, if_true]
        exact .some h rfl
  | peek p =>
    simp only [PidMap.answer?, PidTable.answer?, h.peek_eq]
    exact .some h rfl
  | isAllocated p =>
    simp only [PidMap.answer?, PidTable.answer?, mem_taken, Bool.decide_eq_true]
    exact .some h rfl
  | livePids =>
    simp only [PidMap.answer?, PidTable.answer?, h.livePids_table]
    exact .some h rfl
  | freeSlots =>
    have hcard := h.free_add_card
    have hfree : m.table.capacity - m.table.taken.card = m.free := by
      change m.capacity - _ = _
      omega
    simp only [PidMap.answer?, PidTable.answer?, hfree]
    exact .some h rfl
  | drain =>
    obtain ⟨hblocks, hv, ht⟩ := h.drain_table
    have hempty : PidTable.empty m.table.capacity = m.drain.2.table := ht.symm
    simp only [PidMap.answer?, PidTable.answer?, hblocks, hempty]
    exact .some hv (congrArg PidTable.capacity ht)
  | become s' => exact .some h rfl

/-- So have all calls that are made one after the other, and the map stays valid. -/
theorem answers_table (s : BlockStore) (calls : List PidCall) :
    Prod.map id (Option.map shown) (PidCall.answers PidMap.answer? (m, s) calls) =
        PidCall.answers PidTable.answer? (m.table, s) calls ∧
      ∀ m' s', (PidCall.answers PidMap.answer? (m, s) calls).2 = some (m', s') →
        m'.Valid ∧ m'.capacity = m.capacity := by
  induction calls generalizing m s with
  | nil =>
    refine ⟨rfl, fun m' s' hm => ?_⟩
    cases hm
    exact ⟨h, rfl⟩
  | cons call calls ih =>
    have hstep := h.answered s call
    unfold PidCall.answers
    generalize PidMap.answer? (m, s) call = out at hstep ⊢
    generalize PidTable.answer? (m.table, s) call = out' at hstep ⊢
    cases hstep with
    | none => exact ⟨rfl, fun m' s' hm => nomatch hm⟩
    | @some a next s' valid size =>
      obtain ⟨hanswers, hvalid⟩ := ih valid s'
      dsimp only
      rw [← hanswers]
      exact ⟨rfl, fun m' s' hm => (hvalid m' s' hm).imp_right (·.trans size)⟩

end Valid

/-- From an empty map on, calls have the answers of the set and the partial map, and none when
these have none. The count of free pids is never at odds with the bits on the way. -/
theorem answers_eq_table {capacity : Nat} (hc : capacity ≤ UInt32.size) (s : BlockStore)
    (calls : List PidCall) :
    Prod.map id (Option.map shown) (PidCall.answers answer? (ofCapacity capacity, s) calls) =
        PidCall.answers PidTable.answer? (.empty capacity, s) calls ∧
      ∀ m s', (PidCall.answers answer? (ofCapacity capacity, s) calls).2 = some (m, s') →
        m.free + m.table.taken.card = capacity ∧ (m.free ≠ 0 → m.firstClear.isSome = true) := by
  obtain ⟨hanswers, hvalid⟩ := (valid_ofCapacity hc).answers_table s calls
  rw [table_ofCapacity hc] at hanswers
  refine ⟨hanswers, fun m s' hm => ?_⟩
  obtain ⟨hv, hcap⟩ := hvalid m s' hm
  refine ⟨hv.free_add_card.trans hcap, fun hf => ?_⟩
  obtain ⟨i, hi⟩ := hv.exists_firstClear hf
  rw [hi]
  rfl

/-- In a pid space of 65, which takes one bit more than a word has: all that can be allocated is
allocated, two pids are given back, and a block comes to the lower one. There is no answer to an
attempt to put it at the other as well. -/
theorem answers_eq_table_of_two_words :
    let s := BlockStore.add {} (.fresh 1 "init" ⟨1⟩)
    let calls := List.replicate 66 PidCall.allocate ++ [.deallocate 64 none, .deallocate 1 none,
      .allocate, .freeSlots, .install 1 0, .getRetained 1, .livePids, .install 64 0]
    let answers := (List.range 65).map (fun i => PidAnswer.pid (.ok (UInt32.ofNat i))) ++
      [.pid (.error (.pidExhausted 65)), .block none, .block none, .pid (.ok 1), .count 1, .done,
        .block (some 0), .pids [1]]
    65 ≤ UInt32.size ∧
      (PidCall.answers PidMap.answer? (ofCapacity 65, s) calls).1 = answers ∧
      PidCall.answers PidTable.answer? (.empty 65, s) calls = (answers, none) := by
  intro s calls answers
  have hrun : ((PidCall.answers PidMap.answer? (ofCapacity 65, s) calls).1,
      (PidCall.answers PidMap.answer? (ofCapacity 65, s) calls).2.isNone) = (answers, true) := by
    decide +kernel
  obtain ⟨hanswers, hnone⟩ := Prod.mk.inj hrun
  refine ⟨by decide, hanswers, ?_⟩
  rw [← (answers_eq_table (by decide) s calls).1, Prod.map, hanswers,
    Option.isNone_iff_eq_none.1 hnone]
  rfl

end PidMap
end Lifecycle
