import Lifecycle.Proofs.Kernel.Account

/-! References keep a kernel sound: taking one puts it on the account, giving one
back takes it off, and the last one gone tears the block down with its pid and its
links. -/

namespace Lifecycle.Kernel

variable {k : Kernel} {a : Account}

/-! ### Taking a reference -/

theorem Sound.retained (h : k.Sound a) {p : Pid} {b : BlockId} (hb : k.pids.lookup p = some b) :
    (k.update b .retained).Sound (a.owe b) := by
  have hq : k.Quiet (k.update b .retained) := .of_update b _ fun _ => rfl
  have hlt := (h.placed.own hb).1
  have hcount : ∀ c, ((k.update b .retained).block c).refCount =
      (k.block c).refCount + if c = b then 1 else 0 := by
    intro c
    by_cases hc : c = b
    · subst hc
      rw [block_update_self hlt, if_pos rfl]
      rfl
    · rw [block_update_of_ne hc, if_neg hc]
      rfl
  refine ⟨h.placed.congr rfl rfl rfl hq.size hq.pid rfl, ⟨?_, ?_, ?_, ?_⟩,
    h.ordered.congr hq, h.kindred.congr hq rfl rfl rfl rfl rfl rfl⟩
  · intro c hc
    rw [hcount, hq.reaped, h.counted.count c (hq.size ▸ hc)]
    exact Nat.add_assoc ..
  · intro c hc hz
    rw [hq.pid]
    by_cases hcb : c = b
    · subst hcb
      exact h.lookup_of_installed hb
    · apply h.counted.installed c (hq.size ▸ hc)
      rw [hcount, if_neg hcb] at hz
      exact hz
  · intro q c hl
    have := h.counted.counted hl
    rw [hcount]
    omega
  · intro c hc
    have hne : c ≠ b := fun he => absurd hlt (Nat.not_lt.2 (he ▸ hq.size ▸ hc))
    simp only [Account.owe, if_neg hne]
    exact h.counted.unborn c (hq.size ▸ hc)

/-- A lookup finds the block that is installed at a pid. -/
theorem Sound.found (h : k.Sound a) {p : Pid} {b : BlockId}
    (hb : k.pids.lookup p = some b) : k.Found p b :=
  ⟨h.placed.live, hb, h.counted.counted hb⟩

/-! ### Tearing down -/

@[simp] theorem pids_discardTaskOf (k : Kernel) (b : BlockId) :
    (k.discardTaskOf b).pids = k.pids := by
  unfold discardTaskOf
  split <;> rfl

@[simp] theorem family_discardTaskOf (k : Kernel) (b : BlockId) :
    (k.discardTaskOf b).family = k.family := by
  unfold discardTaskOf
  split <;> rfl

@[simp] theorem live_discardTaskOf (k : Kernel) (b : BlockId) :
    (k.discardTaskOf b).live = k.live := by
  unfold discardTaskOf
  split <;> rfl

@[simp] theorem fault_discardTaskOf (k : Kernel) (b : BlockId) :
    (k.discardTaskOf b).fault = k.fault := by
  unfold discardTaskOf
  split <;> rfl

@[simp] theorem refCount_discardTaskOf (k : Kernel) (b c : BlockId) :
    ((k.discardTaskOf b).block c).refCount = (k.block c).refCount := by
  unfold discardTaskOf
  split
  · rfl
  · change ((k.update b _).block c).refCount = _
    rw [block_update]
    split <;> rfl

/-- A block that is installed gives up its pid and its links. -/
theorem destroy_spec {b : BlockId} (hv : k.pids.Valid)
    (hb : k.pids.lookup (k.block b).pid = some b) :
    (k.destroy b).pids.Valid ∧ (k.destroy b).pids.capacity = k.pids.capacity ∧
      (k.destroy b).pids.free = k.pids.free + 1 ∧
      (∀ p, (k.destroy b).pids.isAllocated p =
        (decide (p ≠ (k.block b).pid) && k.pids.isAllocated p)) ∧
      (∀ p, (k.destroy b).pids.lookup p =
        if p = (k.block b).pid then none else k.pids.lookup p) ∧
      (k.destroy b).family = k.family.forget (k.block b).pid ∧
      (k.destroy b).live = k.live ∧ (k.destroy b).fault = k.fault ∧
      ∀ c, ((k.destroy b).block c).refCount = (k.block c).refCount := by
  have he : PidMap.contradicts (k.pids.lookup (k.block b).pid) (some b) = false := by
    simp [PidMap.contradicts, hb]
  obtain ⟨m, hm, hvalid, hcap, hroom, htaken, hlook⟩ :=
    hv.deallocate_eq (hv.isAllocated_of_lookup hb) he
  have hfree : k.freePid b = { k with pids := m } := by
    simp only [freePid, hm]
  simp only [destroy, hfree, pids_discardTaskOf, family_discardTaskOf, live_discardTaskOf,
    fault_discardTaskOf, refCount_discardTaskOf]
  exact ⟨hvalid, hcap, hroom, htaken, hlook, rfl, trivial, trivial, fun _ => rfl⟩

/-- A pid is free again once its block is gone. -/
theorem Placed.forget {k' : Kernel} {b : BlockId} (h : k.Placed a) (hq : k.Quiet k')
    (hb : k.pids.lookup (k.block b).pid = some b) (hlive : k'.live = k.live)
    (hfault : k'.fault = k.fault) (hv : k'.pids.Valid) (hc : k'.pids.capacity = k.pids.capacity)
    (ht : ∀ p, k'.pids.isAllocated p = (decide (p ≠ (k.block b).pid) && k.pids.isAllocated p))
    (hl : ∀ p, k'.pids.lookup p = if p = (k.block b).pid then none else k.pids.lookup p) :
    k'.Placed a where
  live := hlive.trans h.live
  fault := hfault.trans h.fault
  valid := hv
  bound := by
    rw [hc]
    exact h.bound
  own {p c} hp := by
    rw [hl] at hp
    rw [hq.size, hq.pid]
    split at hp
    · cases hp
    · exact h.own hp
  taken p := by
    rw [ht, hl]
    by_cases hp : p = (k.block b).pid
    · subst hp
      have hnot : (k.block b).pid ∉ a.reserved := fun hmem => by
        rw [h.empty _ hmem] at hb
        cases hb
      simp [hnot]
    · simp only [ne_eq, hp, not_false_eq_true, decide_true, Bool.true_and, if_false]
      exact h.taken p
  empty p hp := by
    rw [hl]
    split
    · rfl
    · exact h.empty p hp
  nodup := h.nodup

/-- The last reference of a block goes with it. -/
theorem Counted.forget {k' : Kernel} {b : BlockId} (h : k.Counted (a.owe b)) (hq : k.Quiet k')
    (hown : ∀ {p c}, k.pids.lookup p = some c → (k.block c).pid = p)
    (hb : k.pids.lookup (k.block b).pid = some b) (hn : (k.block b).refCount = 1)
    (hr : ∀ c, (k'.block c).refCount = (k.block c).refCount - if c = b then 1 else 0)
    (hl : ∀ p, k'.pids.lookup p = if p = (k.block b).pid then none else k.pids.lookup p) :
    k'.Counted a where
  count c hc := by
    rw [hr, hq.reaped, h.count c (hq.size ▸ hc), Account.owed_owe]
    exact (Nat.add_sub_assoc (Nat.le_add_left ..) _).trans (by rw [Nat.add_sub_cancel]; rfl)
  installed c hc hz := by
    rw [hr] at hz
    have hcb : c ≠ b := by
      rintro rfl
      rw [if_pos rfl] at hz
      omega
    have hci := h.installed c (hq.size ▸ hc) (by omega)
    rw [hq.pid, hl, if_neg fun hp => hcb (Sound.eq_of_pid hci hb hp)]
    exact hci
  counted {p c} hp := by
    rw [hl] at hp
    split at hp
    · cases hp
    · next hne =>
      have hcb : c ≠ b := by
        rintro rfl
        exact hne (hown hp).symm
      rw [hr, if_neg hcb]
      exact h.counted hp
  unborn c hc := by
    have := h.unborn c (hq.size ▸ hc)
    rw [Account.owed_owe] at this
    omega

/-- A family forgets a process that nobody forked, or that is reaped. -/
theorem Kindred.forget {k' : Kernel} {b : BlockId} (h : k.Kindred a) (hq : k.Quiet k')
    (hi : ∀ c q, a.forker c = some q → (k.block c).reaped = false →
      k.pids.lookup (k.block c).pid = some c)
    (hb : k.pids.lookup (k.block b).pid = some b) (hk : (k.block b).pid ≠ kernelPid)
    (hgone : (k.block b).reaped = true ∨ a.given b = true)
    (hl : ∀ p, k'.pids.lookup p = if p = (k.block b).pid then none else k.pids.lookup p)
    (hf : k'.family = k.family.forget (k.block b).pid) : k'.Kindred a where
  born hc := by rw [hq.size]; exact h.born hc
  given hc := by rw [hq.size]; exact h.given hc
  forked hc := h.forked (hq.exiting _ ▸ hc)
  parent c hc := by
    simp only [hq.parent, hq.pid]
    exact h.parent c (hq.size ▸ hc)
  half c hc := by
    obtain ⟨hd, hp, he, hn⟩ := h.half c hc
    rw [hq.parent, hq.exiting, hq.pid, hf]
    refine ⟨hd, hp, he, Option.eq_none_iff_forall_ne_some.2 fun p hs => ?_⟩
    rw [((h.family.parentLink?_forget _ _ p).1 hs).2.2] at hn
    cases hn
  half_nodup := h.half_nodup
  adrift c hc := by
    obtain ⟨hd, hn, q, hfq, he⟩ := h.adrift c hc
    rw [hq.pid, hf]
    refine ⟨hd, Option.eq_none_iff_forall_ne_some.2 fun p hs => ?_, q, hfq, by rwa [hq.exiting]⟩
    rw [((h.family.parentLink?_forget _ _ p).1 hs).2.2] at hn
    cases hn
  adrift_nodup := by
    simp only [hq.pid]
    exact h.adrift_nodup
  moved := by
    simp only [hq.reaped, hq.parent, hq.exiting]
    exact h.moved
  family := hf ▸ h.family.forget _
  linked := by
    intro c p hs
    rw [hf, h.family.parentLink?_forget] at hs
    obtain ⟨hc, hp, hs⟩ := hs
    obtain ⟨x, q, hx, hq', hpar, hfor⟩ := h.linked hs
    refine ⟨x, q, by rwa [hl, if_neg hc], by rwa [hl, if_neg hp], by rwa [hq.parent], hfor⟩
  kin := by
    intro c q p hc hhalf hadrift hr hpar hor
    rw [hq.reaped] at hr
    rw [hq.parent] at hpar
    rw [hq.pid, hf, h.family.parentLink?_forget]
    have hne : c ≠ b := by
      rintro rfl
      rcases hgone with hg | hg
      · rw [hg] at hr; cases hr
      · rw [(h.given hg).2.2] at hc; cases hc
    refine ⟨fun he => ?_, fun he => ?_, h.kin hc hhalf hadrift hr hpar ?_⟩
    · have := hi c q hc hr
      rw [he, hb] at this
      exact hne (Option.some.inj this).symm
    · rcases hor with hor | hor
      · exact hk (he ▸ hor)
      · rw [hl, if_pos he] at hor
        cases hor
    · rcases hor with hor | hor
      · exact Or.inl hor
      · rw [hl] at hor
        split at hor
        · cases hor
        · exact Or.inr hor

/-! ### Giving a reference back -/

theorem refCount_released {b : BlockId} (hb : b < k.blocks.size) (c : BlockId) :
    ((k.update b .released).block c).refCount =
      (k.block c).refCount - if c = b then 1 else 0 := by
  by_cases hc : c = b
  · subst hc
    rw [block_update_self hb, if_pos rfl]
    rfl
  · rw [block_update_of_ne hc, if_neg hc]
    rfl

/-- The counts stay right after a reference is given back that was not the last. -/
theorem Sound.released {b : BlockId} (h : k.Sound (a.owe b)) (hn : (k.block b).refCount ≠ 1) :
    (k.update b .released).Sound a := by
  have hq : k.Quiet (k.update b .released) := .of_update b _ fun _ => rfl
  have hlt := (h.placed.own (h.lookup_of_owed (b := b) (by simp))).1
  have hcount := refCount_released hlt
  refine ⟨h.placed.congr rfl rfl rfl hq.size hq.pid rfl, ⟨?_, ?_, ?_, ?_⟩,
    h.ordered.congr hq, h.kindred.congr hq rfl rfl rfl rfl rfl rfl⟩
  · intro c hc
    rw [hcount, hq.reaped, h.counted.count c (hq.size ▸ hc), Account.owed_owe]
    exact (Nat.add_sub_assoc (Nat.le_add_left ..) _).trans (by rw [Nat.add_sub_cancel]; rfl)
  · intro c hc hz
    rw [hq.pid]
    apply h.counted.installed c (hq.size ▸ hc)
    rw [hcount] at hz
    omega
  · intro p c hl
    have := h.counted.counted hl
    rw [hcount]
    split
    · next hc => subst hc; omega
    · omega
  · intro c hc
    have := h.counted.unborn c (hq.size ▸ hc)
    rw [Account.owed_owe] at this
    omega

/-- The last reference gone, the block is torn down. -/
theorem Sound.destroyed {b : BlockId} (h : k.Sound (a.owe b)) (hn : (k.block b).refCount = 1) :
    ((k.update b .released).destroy b).Sound a := by
  have hb := h.lookup_of_owed (b := b) (by simp)
  have hlt := (h.placed.own hb).1
  have hq₁ : k.Quiet (k.update b .released) := .of_update b _ fun _ => rfl
  have hq : k.Quiet ((k.update b .released).destroy b) := hq₁.trans (quiet_destroy ..)
  obtain ⟨hvalid, hcap, -, htaken, hlook, hfam, hlive, hfault, hrefs⟩ :=
    destroy_spec (k := k.update b .released) (b := b) h.placed.valid (by rw [hq₁.pid]; exact hb)
  rw [hq₁.pid] at hlook htaken hfam
  have hcount : ∀ c, (((k.update b .released).destroy b).block c).refCount =
      (k.block c).refCount - if c = b then 1 else 0 := fun c => by
    rw [hrefs, refCount_released hlt]
  -- the count of one is the reference given back, so the table's own is gone
  have hone := h.counted.count b hlt
  have hbase : ((k.block b).reaped || a.given b) = true := by
    cases hr : ((k.block b).reaped || a.given b) with
    | true => rfl
    | false =>
      have : (a.owe b).given b = a.given b := rfl
      rw [this, hr, hn, Account.owed_owe, if_pos rfl] at hone
      simp at hone
  have hgone : (k.block b).reaped = true ∨ a.given b = true := by simpa using hbase
  have hroot : b ≠ root := by
    rintro rfl
    rcases hgone with hg | hg
    · rw [h.reaped_of_not_exiting h.exiting_root] at hg; cases hg
    · exact (h.kindred.given hg).2.1 rfl
  have hplaced : k.Placed a := h.placed.congr rfl rfl rfl rfl (fun _ => rfl) rfl
  have hkindred : k.Kindred a := h.kindred.congr (.refl k) rfl rfl rfl rfl rfl rfl
  exact ⟨hplaced.forget hq hb hlive hfault hvalid hcap htaken hlook,
    h.counted.forget hq (fun hp => (h.placed.own hp).2) hb hn hcount hlook, h.ordered.congr hq,
    hkindred.forget hq (fun c q hc hr => h.lookup_of_forker hc hr) hb
      (h.pid_ne_kernelPid hb hroot) hgone hlook hfam⟩

theorem Sound.release {b : BlockId} (h : k.Sound (a.owe b)) : (k.release b).2.Sound a := by
  rw [release_eq]
  split
  · next hn => exact h.destroyed hn
  · next hn => exact h.released hn

/-- The holder of a bare block may give the table's reference on it back, once. -/
theorem Sound.give (h : k.Sound a) {b : BlockId} (hb : b < k.blocks.size) (hr : b ≠ root)
    (hf : a.forker b = none) (hg : a.given b = false) : k.Sound ((a.give b).owe b) := by
  have hgiven : ∀ c, ((a.give b).owe b).given c = (c == b || a.given c) := fun _ => rfl
  have hx : (k.block b).reaped = false := by
    refine h.reaped_of_not_exiting (Bool.eq_false_iff.2 fun he => ?_)
    obtain ⟨q, hq⟩ := h.kindred.forked he
    rw [hf] at hq
    cases hq
  refine ⟨h.placed.congr rfl rfl rfl rfl (fun _ => rfl) rfl,
    ⟨fun c hc => ?_, h.counted.installed, h.counted.counted, fun c hc => ?_⟩, h.ordered,
    { h.kindred with given := fun {c} hc => ?_ }⟩
  · rw [h.counted.count c hc, hgiven, Account.owed_owe]
    change _ = _ + (a.owed c + _)
    by_cases hcb : c = b
    · subst hcb
      simp only [hx, hg, beq_self_eq_true, Bool.or_false, Bool.or_true, if_true, if_false,
        Bool.false_eq_true]
      omega
    · rw [beq_false_of_ne hcb, if_neg hcb]
      rfl
  · have hcb : c ≠ b := by
      rintro rfl
      exact absurd hb (Nat.not_lt.2 hc)
    rw [Account.owed_owe, if_neg hcb]
    exact h.counted.unborn c hc
  · rw [hgiven, Bool.or_eq_true, beq_iff_eq] at hc
    rcases hc with rfl | hc
    · exact ⟨hb, hr, hf⟩
    · exact h.kindred.given hc

end Lifecycle.Kernel
