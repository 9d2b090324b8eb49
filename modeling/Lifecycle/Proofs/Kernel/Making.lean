import Lifecycle.Proofs.Kernel.Links

/-! Making blocks keeps a kernel sound, from the first one, which is the kernel's
own. A pid is taken before its block is made; a block comes in without a forker,
and a fork then claims it as a child that is still to be linked. -/

namespace Lifecycle.Kernel

variable {k : Kernel} {a : Account}

/-! ### Pids -/

/-- A pid map may take pids and give them back as long as the blocks stay where they are. -/
theorem Placed.with_pids (h : k.Placed a) {m : PidMap} {r : List Pid} (hv : m.Valid)
    (hc : m.capacity = k.pids.capacity) (hl : m.lookup = k.pids.lookup)
    (ht : ∀ p, m.isAllocated p = true ↔ (∃ b, k.pids.lookup p = some b) ∨ p ∈ r)
    (he : ∀ p ∈ r, k.pids.lookup p = none) (hn : r.Nodup) :
    { k with pids := m }.Placed { a with reserved := r } := by
  refine ⟨h.live, h.fault, hv, ?_, ?_, ?_, ?_, hn⟩
  · change m.capacity ≤ maxPidSpace.toNat
    rw [hc]
    exact h.bound
  · intro p b hb
    change m.lookup p = some b at hb
    rw [hl] at hb
    exact h.own hb
  · intro p
    change m.isAllocated p = true ↔ (∃ b, m.lookup p = some b) ∨ p ∈ r
    rw [hl]
    exact ht p
  · intro p hp
    change m.lookup p = none
    rw [hl]
    exact he p hp

/-- A table takes its lowest free pid, or answers that it has none. -/
theorem reserve_spec (hl : k.live = true) (hv : k.pids.Valid) :
    k.pids.free = 0 ∧ k.reserve = (.error k.pids.exhausted, k) ∨
    k.pids.free ≠ 0 ∧ ∃ p m, k.reserve = (.ok p, { k with pids := m }) ∧ m.Valid ∧
      k.pids.isAllocated p = false ∧ (∀ i < p.toNat, k.pids.isTaken i = true) ∧
      m.capacity = k.pids.capacity ∧ m.free = k.pids.free - 1 ∧ m.lookup = k.pids.lookup ∧
      ∀ q, m.isAllocated q = (decide (q = p) || k.pids.isAllocated q) := by
  unfold Kernel.reserve
  rw [hl, if_neg (by simp)]
  by_cases hf : k.pids.free = 0
  · rw [PidMap.allocate_none hf]
    exact Or.inl ⟨hf, rfl⟩
  · obtain ⟨p, m, hm, hv, _, hfree, hlow, hc, hroom, hl, ht⟩ := hv.allocate_some hf
    rw [hm]
    exact Or.inr ⟨hf, p, m, rfl, hv, hfree, hlow, hc, hroom, hl, ht⟩

/-- A pid that got no block is given back. -/
theorem unreserve_spec {p : Pid} (hv : k.pids.Valid) (ht : k.pids.isAllocated p = true)
    (hn : k.pids.lookup p = none) : ∃ m, k.unreserve p = { k with pids := m } ∧ m.Valid ∧
      m.capacity = k.pids.capacity ∧ m.free = k.pids.free + 1 ∧ m.lookup = k.pids.lookup ∧
      ∀ q, m.isAllocated q = (decide (q ≠ p) && k.pids.isAllocated q) := by
  have he : PidMap.contradicts (k.pids.lookup p) none = false := by
    rw [hn]
    rfl
  obtain ⟨m, hm, hv, hc, hroom, ht, hl⟩ := hv.deallocate_eq ht he
  unfold Kernel.unreserve
  rw [hm]
  refine ⟨m, rfl, hv, hc, hroom, ?_, ht⟩
  funext q
  rw [hl]
  split
  · next hq => rw [hq, hn]
  · rfl

theorem Placed.reserve (h : k.Placed a) {p : Pid} {m : PidMap} (hv : m.Valid)
    (hfree : k.pids.isAllocated p = false) (hc : m.capacity = k.pids.capacity)
    (hl : m.lookup = k.pids.lookup)
    (ht : ∀ q, m.isAllocated q = (decide (q = p) || k.pids.isAllocated q)) :
    k.pids.lookup p = none ∧ { k with pids := m }.Placed (a.reserve p) := by
  have hnot : ¬((∃ b, k.pids.lookup p = some b) ∨ p ∈ a.reserved) := by
    rw [← h.taken p, hfree]
    simp
  have hnone : k.pids.lookup p = none :=
    Option.eq_none_iff_forall_ne_some.2 fun b hb => hnot (Or.inl ⟨b, hb⟩)
  refine ⟨hnone, h.with_pids hv hc hl (fun q => ?_) (fun q hq => ?_) ?_⟩
  · rw [ht, Bool.or_eq_true, decide_eq_true_iff, h.taken, List.mem_cons]
    exact or_left_comm
  · rcases List.mem_cons.1 hq with rfl | hq
    · exact hnone
    · exact h.empty q hq
  · exact List.nodup_cons.2 ⟨fun hp => hnot (Or.inr hp), h.nodup⟩

theorem Placed.unreserve {p : Pid} (h : k.Placed (a.reserve p)) {m : PidMap} (hv : m.Valid)
    (hc : m.capacity = k.pids.capacity) (hl : m.lookup = k.pids.lookup)
    (ht : ∀ q, m.isAllocated q = (decide (q ≠ p) && k.pids.isAllocated q)) :
    { k with pids := m }.Placed a := by
  have hnone := h.empty p List.mem_cons_self
  obtain ⟨hp, hn⟩ := List.nodup_cons.1 h.nodup
  refine h.with_pids (r := a.reserved) hv hc hl (fun q => ?_)
    (fun q hq => h.empty q (List.mem_cons_of_mem _ hq)) hn
  have hcons : q ∈ (a.reserve p).reserved ↔ q = p ∨ q ∈ a.reserved := List.mem_cons
  rw [ht, Bool.and_eq_true, decide_eq_true_iff, h.taken, hcons]
  constructor
  · rintro ⟨hq, hb | hq' | hr⟩
    · exact Or.inl hb
    · exact absurd hq' hq
    · exact Or.inr hr
  · rintro (⟨b, hb⟩ | hr)
    · refine ⟨?_, Or.inl ⟨b, hb⟩⟩
      rintro rfl
      rw [hnone] at hb
      cases hb
    · exact ⟨fun hq => hp (hq ▸ hr), Or.inr (Or.inr hr)⟩

/-- Soundness follows the placement of the blocks when pids are taken and given back. -/
theorem Sound.with_pids (h : k.Sound a) {m : PidMap} {r : List Pid}
    (hp : { k with pids := m }.Placed { a with reserved := r }) (hl : m.lookup = k.pids.lookup) :
    { k with pids := m }.Sound { a with reserved := r } := by
  have hq : k.Quiet { k with pids := m } := ⟨rfl, fun _ => rfl⟩
  exact ⟨hp, h.counted.congr rfl hl (fun _ => ⟨rfl, rfl, rfl⟩) rfl rfl, h.ordered.congr hq,
    h.kindred.congr hq hl rfl rfl rfl rfl rfl⟩

theorem Sound.reserve (h : k.Sound a) : k.reserve = (.error k.pids.exhausted, k) ∨
    ∃ p m, k.reserve = (.ok p, { k with pids := m }) ∧ k.pids.lookup p = none ∧
      { k with pids := m }.Sound (a.reserve p) := by
  rcases reserve_spec h.placed.live h.placed.valid with
    ⟨-, he⟩ | ⟨-, p, m, he, hv, hfree, -, hc, -, hl, ht⟩
  · exact Or.inl he
  · obtain ⟨hnone, hp⟩ := h.placed.reserve hv hfree hc hl ht
    exact Or.inr ⟨p, m, he, hnone, h.with_pids hp hl⟩

theorem Sound.unreserve {p : Pid} (h : k.Sound (a.reserve p)) : (k.unreserve p).Sound a := by
  have hmem : p ∈ (a.reserve p).reserved := List.mem_cons_self
  obtain ⟨m, hm, hv, hc, -, hl, ht⟩ := unreserve_spec h.placed.valid
    ((h.placed.taken p).2 (Or.inr hmem)) (h.placed.empty p hmem)
  rw [hm]
  exact h.with_pids (h.placed.unreserve hv hc hl ht) hl

/-! ### Blocks -/

/-- With a new block, and the pid map that has it installed. -/
def seat (k : Kernel) (block : Block) (m : PidMap) : Kernel :=
  { k with blocks := k.blocks.add block, pids := m }

@[simp] theorem size_seat (k : Kernel) (block : Block) (m : PidMap) :
    (k.seat block m).blocks.size = k.blocks.size + 1 :=
  BlockStore.size_add ..

theorem block_seat (k : Kernel) (block : Block) (m : PidMap) (c : BlockId) :
    (k.seat block m).block c = if c = k.blocks.size then block else k.block c :=
  block_of_add rfl c

theorem block_seat_self (k : Kernel) (block : Block) (m : PidMap) :
    (k.seat block m).block k.blocks.size = block := by
  rw [block_seat, if_pos rfl]

theorem block_seat_of_lt {k : Kernel} {c : BlockId} (hc : c < k.blocks.size) (block : Block)
    (m : PidMap) : (k.seat block m).block c = k.block c := by
  rw [block_seat, if_neg (Nat.ne_of_lt hc)]

/-- A new block goes to a pid that was taken for it. -/
theorem install_spec (block : Block) (hv : k.pids.Valid)
    (ht : k.pids.isAllocated block.pid = true) (hn : k.pids.lookup block.pid = none) :
    ∃ m, k.install block = (k.blocks.size, k.seat block m) ∧
      m.Valid ∧ m.capacity = k.pids.capacity ∧ m.free = k.pids.free ∧
      m.isAllocated = k.pids.isAllocated ∧
      ∀ q, m.lookup q = if q = block.pid then some k.blocks.size else k.pids.lookup q := by
  obtain ⟨m, hm, hvalid, hc, hroom, hta, hl⟩ := hv.install_eq (b := k.blocks.size) ht hn
  refine ⟨m, ?_, hvalid, hc, hroom, hta, hl⟩
  simp only [install, hm]
  rfl

section Seat

variable {p : Pid} {m : PidMap} {block : Block}

theorem Placed.seat (h : k.Placed (a.reserve p)) (hb : block.pid = p) (hv : m.Valid)
    (hc : m.capacity = k.pids.capacity) (ht : m.isAllocated = k.pids.isAllocated)
    (hl : ∀ q, m.lookup q = if q = p then some k.blocks.size else k.pids.lookup q) :
    (k.seat block m).Placed a where
  live := h.live
  fault := h.fault
  valid := hv
  bound := hc ▸ h.bound
  own {q b} hq := by
    change m.lookup q = some b at hq
    rw [hl] at hq
    rw [size_seat]
    split at hq
    · next hqp =>
      obtain rfl := Option.some.inj hq
      rw [block_seat_self, hb, hqp]
      exact ⟨Nat.lt_succ_self _, rfl⟩
    · obtain ⟨hlt, hp⟩ := h.own hq
      rw [block_seat_of_lt hlt]
      exact ⟨Nat.lt_succ_of_lt hlt, hp⟩
  taken q := by
    change m.isAllocated q = true ↔ (∃ b, m.lookup q = some b) ∨ q ∈ a.reserved
    have hcons : q ∈ (a.reserve p).reserved ↔ q = p ∨ q ∈ a.reserved := List.mem_cons
    rw [ht, h.taken, hcons, hl]
    by_cases hqp : q = p
    · simp [hqp]
    · simp [hqp]
  empty q hq := by
    change m.lookup q = none
    have hqp : q ≠ p := fun hqp => (List.nodup_cons.1 h.nodup).1 (hqp ▸ hq)
    rw [hl, if_neg hqp]
    exact h.empty q (List.mem_cons_of_mem _ hq)
  nodup := (List.nodup_cons.1 h.nodup).2

theorem Counted.seat (h : k.Counted a) (hr : block.refCount = 1) (hx : block.reaped = false)
    (hg : a.given k.blocks.size = false)
    (hl : ∀ q, m.lookup q = if q = block.pid then some k.blocks.size else k.pids.lookup q)
    (hn : k.pids.lookup block.pid = none) : (k.seat block m).Counted a where
  count b hb := by
    rw [size_seat] at hb
    rcases Nat.lt_succ_iff_lt_or_eq.1 hb with hlt | rfl
    · rw [block_seat_of_lt hlt]
      exact h.count b hlt
    · rw [block_seat_self, hr, hx, hg, h.unborn _ (Nat.le_refl _)]
      rfl
  installed b hb hz := by
    rw [size_seat] at hb
    change m.lookup _ = some b
    rw [hl]
    rcases Nat.lt_succ_iff_lt_or_eq.1 hb with hlt | rfl
    · rw [block_seat_of_lt hlt] at hz ⊢
      have hi := h.installed b hlt hz
      rw [if_neg fun hp => by rw [hp, hn] at hi; cases hi]
      exact hi
    · rw [block_seat_self, if_pos rfl]
  counted {q b} hq := by
    change m.lookup q = some b at hq
    rw [hl] at hq
    rw [block_seat]
    split at hq
    · rw [if_pos (Option.some.inj hq).symm, hr]
      exact Nat.one_ne_zero
    · split
      · rw [hr]
        exact Nat.one_ne_zero
      · exact h.counted hq
  unborn b hb := by
    rw [size_seat] at hb
    exact h.unborn b (Nat.le_of_succ_le hb)

theorem Ordered.seat (h : k.Ordered) (he : block.exited = false) (hx : block.reaped = false) :
    (k.seat block m).Ordered where
  exiting b := by
    rw [block_seat]
    split
    · rw [he]
      exact fun hf => absurd hf Bool.false_ne_true
    · exact h.exiting b
  exited b := by
    rw [block_seat]
    split
    · rw [hx]
      exact fun hf => absurd hf Bool.false_ne_true
    · exact h.exited b
  root_lt := by
    rw [size_seat]
    exact Nat.lt_succ_of_lt h.root_lt
  root_pid := by
    rw [block_seat_of_lt h.root_lt]
    exact h.root_pid
  root_parent := by
    rw [block_seat_of_lt h.root_lt]
    exact h.root_parent

theorem Kindred.seat (h : k.Kindred a) (hp : block.parent = some kernelPid)
    (he : block.exiting = false)
    (hl : ∀ q, m.lookup q = if q = block.pid then some k.blocks.size else k.pids.lookup q)
    (hn : k.pids.lookup block.pid = none)
    (ho : ∀ {q b}, k.pids.lookup q = some b → b < k.blocks.size) :
    (k.seat block m).Kindred a where
  born hc := by
    rw [size_seat]
    exact (h.born hc).imp_right Nat.lt_succ_of_lt
  given hc := by
    rw [size_seat]
    exact (h.given hc).imp_left Nat.lt_succ_of_lt
  forked {c} hc := by
    rw [block_seat] at hc
    split at hc
    · rw [he] at hc; cases hc
    · exact h.forked hc
  parent c hc hr := by
    rw [size_seat] at hc
    rcases Nat.lt_succ_iff_lt_or_eq.1 hc with hlt | rfl
    · rw [block_seat_of_lt hlt]
      refine (h.parent c hlt hr).imp_right ?_
      rintro ⟨q, hq, hpar⟩
      refine ⟨q, hq, ?_⟩
      rw [block_seat_of_lt (Nat.lt_trans (h.born hq).1 hlt)]
      exact hpar
    · rw [block_seat_self]
      exact Or.inl hp
  half c hc := by
    obtain ⟨q, hq⟩ := (h.half c hc).1
    rw [block_seat_of_lt (h.born hq).2]
    exact h.half c hc
  half_nodup := h.half_nodup
  adrift c hc := by
    obtain ⟨hd, hu, q, hq, hqe⟩ := h.adrift c hc
    have hlt := (h.born hq).2
    rw [block_seat_of_lt hlt]
    refine ⟨hd, hu, q, hq, ?_⟩
    rw [block_seat_of_lt (Nat.lt_trans (h.born hq).1 hlt)]
    exact hqe
  adrift_nodup := by
    have hmap : (a.adrift.map fun b => ((k.seat block m).block b).pid) =
        a.adrift.map fun b => (k.block b).pid := by
      apply List.map_congr_left
      intro c hc
      obtain ⟨q, hq, _⟩ := (h.adrift c hc).2.2
      rw [block_seat_of_lt (h.born hq).2]
    rw [hmap]
    exact h.adrift_nodup
  moved {c q} hc := by
    have hlt := (h.born hc).2
    rw [block_seat_of_lt hlt, block_seat_of_lt (Nat.lt_trans (h.born hc).1 hlt)]
    exact h.moved hc
  family := h.family
  linked {c p} hs := by
    obtain ⟨b, q, hb, hq, hpar, hor⟩ := h.linked hs
    have hgrow : ∀ {x y}, k.pids.lookup x = some y → m.lookup x = some y := by
      intro x y hx
      rw [hl, if_neg fun hxp => by rw [hxp, hn] at hx; cases hx]
      exact hx
    refine ⟨b, q, hgrow hb, hgrow hq, ?_, hor⟩
    rw [block_seat_of_lt (ho hb)]
    exact hpar
  kin {c q p} hc hh hd hx hpar hor := by
    have hlt := (h.born hc).2
    rw [block_seat_of_lt hlt] at hx hpar ⊢
    refine h.kin hc hh hd hx hpar (hor.imp_right fun hq => ?_)
    change m.lookup p = some q at hq
    rw [hl] at hq
    split at hq
    · have hqs := Option.some.inj hq
      exact absurd (Nat.lt_trans (h.born hc).1 hlt) (hqs ▸ Nat.lt_irrefl _)
    · exact hq

end Seat

/-- A block of the kernel's comes in at a pid taken for it. -/
theorem Sound.install {p : Pid} (h : k.Sound (a.reserve p)) (name : String) (task : TaskHandle) :
    ∃ m, k.install (.fresh p name task) = (k.blocks.size, k.seat (.fresh p name task) m) ∧
      (k.seat (.fresh p name task) m).Sound a := by
  have hmem : p ∈ (a.reserve p).reserved := List.mem_cons_self
  have hnone := h.placed.empty p hmem
  obtain ⟨m, hm, hv, hc, -, ht, hl⟩ := install_spec (.fresh p name task) h.placed.valid
    ((h.placed.taken p).2 (Or.inr hmem)) hnone
  have hg : a.given k.blocks.size = false := by
    cases hg : a.given k.blocks.size with
    | false => rfl
    | true => exact absurd (h.kindred.given hg).1 (Nat.lt_irrefl _)
  have hcounted : k.Counted a := h.counted.congr rfl rfl (fun _ => ⟨rfl, rfl, rfl⟩) rfl rfl
  have hkindred : k.Kindred a := h.kindred.congr (.refl k) rfl rfl rfl rfl rfl rfl
  exact ⟨m, hm, h.placed.seat rfl hv hc ht hl, hcounted.seat rfl rfl hg hl hnone,
    h.ordered.seat rfl rfl, hkindred.seat rfl rfl hl hnone fun hq => (h.placed.own hq).1⟩

section Beget

variable {b q : BlockId} (hf : a.forker b = none)
include hf

theorem Account.forker_beget {c r : BlockId} (hc : a.forker c = some r) :
    ((a.beget b q).carry b).forker c = some r := by
  have hcb : c ≠ b := by
    rintro rfl
    rw [hf] at hc
    cases hc
  exact (if_neg hcb).trans hc

omit hf in
theorem Account.forker_of_beget {c r : BlockId} (hc : c ∉ b :: a.half)
    (hr : ((a.beget b q).carry b).forker c = some r) : a.forker c = some r := by
  have hcb : c ≠ b := fun hcb => hc (by rw [hcb]; exact List.mem_cons_self)
  exact (if_neg hcb).symm.trans hr

theorem Kindred.beget (h : k.Kindred a) (hb : b < k.blocks.size) (hq : q < b)
    (hg : a.given b = false) (hx : (k.block b).exiting = false)
    (hp : (k.block b).parent = some kernelPid)
    (hl : k.family.parentLink? (k.block b).pid = none) : k.Kindred ((a.beget b q).carry b) where
  born {c r} hc := by
    change (if c = b then some q else a.forker c) = some r at hc
    split at hc
    · next hcb =>
      obtain rfl := Option.some.inj hc
      rw [hcb]
      exact ⟨hq, hb⟩
    · exact h.born hc
  given {c} hc := by
    obtain ⟨hlt, hr, hn⟩ := h.given hc
    have hcb : c ≠ b := by
      rintro rfl
      exact Bool.false_ne_true (hg.symm.trans hc)
    exact ⟨hlt, hr, (if_neg hcb).trans hn⟩
  forked hc := by
    obtain ⟨r, hr⟩ := h.forked hc
    exact ⟨r, Account.forker_beget hf hr⟩
  parent c hc hr := by
    refine (h.parent c hc hr).imp_right ?_
    rintro ⟨r, hr, hpar⟩
    exact ⟨r, Account.forker_beget hf hr, hpar⟩
  half c hc := by
    rcases List.mem_cons.1 hc with rfl | hc
    · exact ⟨⟨q, if_pos rfl⟩, hp, hx, hl⟩
    · obtain ⟨⟨r, hr⟩, hrest⟩ := h.half c hc
      exact ⟨⟨r, Account.forker_beget hf hr⟩, hrest⟩
  half_nodup := by
    refine List.nodup_cons.2 ⟨fun hm => ?_, h.half_nodup⟩
    obtain ⟨r, hr⟩ := (h.half b hm).1
    rw [hf] at hr
    cases hr
  adrift c hc := by
    obtain ⟨hd, hu, r, hr, hre⟩ := h.adrift c hc
    refine ⟨?_, hu, r, Account.forker_beget hf hr, hre⟩
    rintro (_ | ⟨_, hm⟩)
    · rw [hf] at hr
      cases hr
    · exact hd hm
  adrift_nodup := h.adrift_nodup
  moved hc hh := h.moved (Account.forker_of_beget hh hc) fun hm => hh (List.mem_cons_of_mem _ hm)
  family := h.family
  linked hs := by
    obtain ⟨x, r, hx, hr, hpar, hor⟩ := h.linked hs
    exact ⟨x, r, hx, hr, hpar, hor.imp_right (Account.forker_beget hf)⟩
  kin hc hh := h.kin (Account.forker_of_beget hh hc) fun hm => hh (List.mem_cons_of_mem _ hm)

end Beget

/-- A block that nobody has seen yet may be claimed by a fork. -/
theorem Sound.beget (h : k.Sound a) {b q : BlockId} (hb : b < k.blocks.size) (hq : q < b)
    (hf : a.forker b = none) (hg : a.given b = false) (hx : (k.block b).exiting = false)
    (hp : (k.block b).parent = some kernelPid)
    (hl : k.family.parentLink? (k.block b).pid = none) :
    k.Sound ((a.beget b q).carry b) :=
  ⟨h.placed.congr rfl rfl rfl rfl (fun _ => rfl) rfl,
    h.counted.congr rfl rfl (fun _ => ⟨rfl, rfl, rfl⟩) rfl rfl, h.ordered,
    h.kindred.beget hf hb hq hg hx hp hl⟩

/-! ### Making a block for a taken pid -/

section Make

variable {p : Pid} (h : k.Sound (a.reserve p)) {name : String}
include h

/-- No process is linked at a pid that is taken for a block to come. -/
theorem Sound.parentLink?_reserved : k.family.parentLink? p = none := by
  refine Option.eq_none_iff_forall_ne_some.2 fun q hq => ?_
  obtain ⟨b, _, hb, _⟩ := h.kindred.linked hq
  rw [h.placed.empty p List.mem_cons_self] at hb
  cases hb

theorem Sound.make_error {refusal : Option Errno} {error : ProcessError} {k' : Kernel}
    (made : k.make p name refusal = (.error error, k')) : k'.Sound a ∧ k.Quiet k' := by
  cases refusal with
  | none => cases made
  | some errno =>
    have ht : (k.log (.refuseTask name errno)).table = k.table := rfl
    have hs := (h.of_table ht).unreserve
    have hq := (Quiet.of_table ht).trans (quiet_unreserve _ p)
    cases made
    exact ⟨hs, hq⟩

/-- The new block has no forker yet, and no link. -/
theorem Sound.make_ok {refusal : Option Errno} {b : BlockId} {k' : Kernel}
    (made : k.make p name refusal = (.ok b, k')) : b = k.blocks.size ∧ k'.Sound a ∧
      (∃ task, k'.blocks = k.blocks.add (.fresh p name task)) ∧
      k'.family.parentLink? p = none := by
  cases refusal with
  | some errno => cases made
  | none =>
    obtain ⟨task, k₁, hk, ht⟩ : ∃ task k₁, k.createTask name none = (.ok task, k₁) ∧
        k₁.table = k.table := ⟨_, _, rfl, rfl⟩
    obtain ⟨m, hm, hs⟩ := (h.of_table ht).install name task
    have hb : k₁.blocks = k.blocks := congrArg Table.blocks ht
    have hf : (k₁.seat (.fresh p name task) m).family = k.family := congrArg Table.family ht
    simp only [make, hk, hm, hb] at made
    cases made
    refine ⟨rfl, hs, ⟨task, ?_⟩, ?_⟩
    · rw [← hb]
      rfl
    · rw [hf]
      exact h.parentLink?_reserved

end Make

/-! ### The first block -/

/-- An empty map gives out the pid of the kernel first. -/
theorem allocate_ofCapacity {capacity : Nat} (hpos : 0 < capacity) (hle : capacity ≤ maxPidSpace.toNat) :
    ∃ m, (PidMap.ofCapacity capacity).allocate = .ok (some kernelPid, m) ∧ m.Valid ∧
      m.capacity = capacity ∧ (∀ q, m.isAllocated q = decide (q = kernelPid)) ∧
      ∀ q, m.lookup q = none := by
  have hv : (PidMap.ofCapacity capacity).Valid :=
    PidMap.valid_ofCapacity (Nat.le_trans hle (by decide))
  have hfree : (PidMap.ofCapacity capacity).free ≠ 0 := Nat.ne_of_gt hpos
  obtain ⟨p, m, hm, hmv, hlt, _, hmin, hc, _, hl, ht⟩ := hv.allocate_some hfree
  have hclear : ∀ i < capacity, (PidMap.ofCapacity capacity).isTaken i = false := by
    intro i hi
    rw [PidMap.isTaken_ofCapacity]
    · simpa using hi
    · simp only [PidMap.wordBits]
      omega
  have hp : p = kernelPid := by
    refine UInt32.toNat_inj.1 (Nat.eq_zero_of_not_pos fun hpos' => ?_)
    have := hmin 0 hpos'
    rw [hclear 0 hpos] at this
    cases this
  subst hp
  refine ⟨m, hm, hmv, hc, fun q => ?_, fun q => ?_⟩
  · rw [ht]
    have : (PidMap.ofCapacity capacity).isAllocated q = false := by
      by_cases hq : q.toNat < capacity
      · simp [PidMap.isAllocated, hclear _ hq]
      · simp [PidMap.isAllocated, PidMap.ofCapacity, hq]
    rw [this, Bool.or_false]
  · rw [hl, hv.lookup_eq]
    exact PidMap.slot_ofCapacity ..

/-- A table with nothing but the kernel's own block. -/
structure Alone (k : Kernel) : Prop where
  live : k.live = true
  fault : k.fault = none
  valid : k.pids.Valid
  bound : k.pids.capacity ≤ maxPidSpace.toNat
  taken : ∀ p, k.pids.isAllocated p = decide (p = kernelPid)
  found : ∀ p, k.pids.lookup p = if p = kernelPid then some root else none
  size : k.blocks.size = 1
  block : ∃ name task, ∀ b, k.block b = if b = root then .kernel name task else default
  family : k.family = {}

namespace Alone

variable (h : k.Alone)
include h

theorem lt_iff (b : BlockId) : b < k.blocks.size ↔ b = root := by
  rw [h.size]
  exact Nat.lt_one_iff

theorem of_lookup {p : Pid} {b : BlockId} (hb : k.pids.lookup p = some b) :
    p = kernelPid ∧ b = root := by
  rw [h.found] at hb
  split at hb
  · next hp => exact ⟨hp, (Option.some.inj hb).symm⟩
  · cases hb

theorem block_root : ∃ name task, k.block root = .kernel name task := by
  obtain ⟨name, task, hblock⟩ := h.block
  exact ⟨name, task, (hblock root).trans (if_pos rfl)⟩

theorem waiter (b : BlockId) : (k.block b).waiter = false := by
  obtain ⟨name, task, hblock⟩ := h.block
  rw [hblock]
  split <;> rfl

theorem placed : k.Placed .initial where
  live := h.live
  fault := h.fault
  valid := h.valid
  bound := h.bound
  own hp := by
    obtain ⟨rfl, rfl⟩ := h.of_lookup hp
    obtain ⟨name, task, hroot⟩ := h.block_root
    rw [hroot, h.lt_iff]
    exact ⟨rfl, rfl⟩
  taken p := by
    change _ ↔ _ ∨ p ∈ []
    rw [h.taken, h.found]
    by_cases hp : p = kernelPid <;> simp [hp]
  empty p hp := absurd hp List.not_mem_nil
  nodup := List.nodup_nil

theorem counted : k.Counted .initial where
  count b hb := by
    obtain rfl := (h.lt_iff b).1 hb
    obtain ⟨name, task, hroot⟩ := h.block_root
    rw [hroot]
    rfl
  installed b hb _ := by
    obtain rfl := (h.lt_iff b).1 hb
    obtain ⟨name, task, hroot⟩ := h.block_root
    rw [hroot]
    exact (h.found _).trans (if_pos rfl)
  counted hp := by
    obtain ⟨-, rfl⟩ := h.of_lookup hp
    obtain ⟨name, task, hroot⟩ := h.block_root
    rw [hroot]
    exact Nat.one_ne_zero
  unborn _ _ := rfl

theorem ordered : k.Ordered where
  exiting b := by
    obtain ⟨name, task, hblock⟩ := h.block
    rw [hblock]
    split <;> exact fun he => he
  exited b := by
    obtain ⟨name, task, hblock⟩ := h.block
    rw [hblock]
    split <;> exact fun he => he
  root_lt := (h.lt_iff root).2 rfl
  root_pid := by
    obtain ⟨name, task, hroot⟩ := h.block_root
    rw [hroot]
    rfl
  root_parent := by
    obtain ⟨name, task, hroot⟩ := h.block_root
    rw [hroot]
    rfl

theorem kindred : k.Kindred .initial where
  born hq := by cases hq
  given hg := by cases hg
  forked {b} he := by
    obtain ⟨name, task, hblock⟩ := h.block
    rw [hblock] at he
    split at he <;> cases he
  parent b hb hr := absurd ((h.lt_iff b).1 hb) hr
  half b hb := absurd hb List.not_mem_nil
  half_nodup := List.nodup_nil
  adrift b hb := absurd hb List.not_mem_nil
  adrift_nodup := List.nodup_nil
  moved hq := by cases hq
  family := by
    rw [h.family]
    exact Family.Coherent.empty
  linked hs := by
    rw [h.family] at hs
    cases hs
  kin hq := by cases hq

theorem sound : k.Sound .initial := ⟨h.placed, h.counted, h.ordered, h.kindred⟩

end Alone

theorem alone_boot {config : Config} {refusal : Option Errno} {k : Kernel}
    (h : Kernel.boot config refusal = .ok k) : k.Alone := by
  unfold boot at h
  split at h
  · cases h
  · next hvalid =>
    have hrange : 2 ≤ config.maxProcesses.toNat ∧
        config.maxProcesses.toNat ≤ maxPidSpace.toNat := by
      unfold Config.validate at hvalid
      split at hvalid
      · next hr => exact ⟨UInt64.le_iff_toNat_le.1 hr.1, UInt64.le_iff_toNat_le.1 hr.2⟩
      · cases hvalid
    obtain ⟨m, hm, hmv, hmc, hmt, hml⟩ := allocate_ofCapacity (by omega) hrange.2
    have hres : Kernel.reserve { config := config, pids := .ofCapacity config.maxProcesses.toNat } =
        (.ok kernelPid, { config := config, pids := m }) := by
      simp [reserve, hm]
    simp only [hres, if_true] at h
    cases refusal with
    | some errno => cases h
    | none =>
      obtain ⟨task, k₁, hk, ht⟩ : ∃ task k₁, Kernel.createTask { config := config, pids := m }
          config.kernelName none = (.ok task, k₁) ∧
          k₁.table = Kernel.table { config := config, pids := m } := ⟨_, _, rfl, rfl⟩
      have hp : k₁.pids = m := congrArg Table.pids ht
      have hb : k₁.blocks = {} := congrArg Table.blocks ht
      have hs : k₁.blocks.size = 0 := by rw [hb]; rfl
      obtain ⟨n, hn, hnv, hnc, -, hnt, hnl⟩ :=
        install_spec (k := k₁) (.kernel config.kernelName task) (hp ▸ hmv)
          (by rw [hp, hmt]; rfl) (by rw [hp]; exact hml _)
      simp only [hk, hn, Except.ok.injEq] at h
      -- the thread is the host's, and the table is that with the block installed
      have htable : k.table = (k₁.seat (.kernel config.kernelName task) n).table := by
        rw [← h, table_attachThread]
      have hpids : k.pids = n := congrArg Table.pids htable
      refine ⟨(congrArg Table.live htable).trans (congrArg Table.live ht),
        (congrArg Table.fault htable).trans (congrArg Table.fault ht), hpids ▸ hnv, ?_, ?_, ?_, ?_,
        ⟨config.kernelName, task, fun b => ?_⟩,
        (congrArg Table.family htable).trans (congrArg Table.family ht)⟩
      · rw [hpids, hnc, hp, hmc]
        exact hrange.2
      · intro p
        rw [hpids, hnt, hp, hmt]
      · intro p
        rw [hpids, hnl, hs, hp, hml]
        rfl
      · rw [size_eq_of_table htable, size_seat, hs]
      · rw [block_eq_of_table htable, block_seat, hs, block_of_size_le (hs ▸ Nat.zero_le b)]
        rfl

/-- A table comes up sound. -/
theorem sound_boot {config : Config} {refusal : Option Errno} {k : Kernel}
    (h : Kernel.boot config refusal = .ok k) :
    k.Sound .initial ∧ k.blocks.size = 1 ∧ ∀ b, (k.block b).waiter = false :=
  have ha := alone_boot h
  ⟨ha.sound, ha.size, ha.waiter⟩

end Lifecycle.Kernel
