import Lifecycle.Proofs.Kernel.Closing
import Lifecycle.Proofs.Kernel.Perishing

/-! What the counts of a closed table cover: the references held outside, and the table's own on
each block whose holder or fork has yet to give it back. No reference is taken or given back then
that is not there. -/

namespace Lifecycle.Kernel

/-- A table that is shut down, without a fault, whose counts cover what is on the account. -/
structure Covered (k : Kernel) (a : Account) : Prop where
  spent : k.Spent
  fault : k.fault = none
  count : ∀ b < k.blocks.size,
    (if (k.block b).reaped || a.given b then 0 else 1) + a.owed b ≤ (k.block b).refCount
  unborn : ∀ b, k.blocks.size ≤ b → a.owed b = 0
  /-- Blocks that were created, and not forked, are never reaped. -/
  reaped : ∀ b, (k.block b).reaped = true → ∃ q, a.forker b = some q
  given : ∀ b, a.given b = true → a.forker b = none

variable {k k' : Kernel} {a : Account} {b : BlockId}

/-- A live table covers what is on its account when it is shut down. -/
theorem Sound.covered (h : k.Sound a) (hs : k.shutdown.2.Spent) : k.shutdown.2.Covered a := by
  obtain ⟨-, hq, hfault, -⟩ := shutdown_spec h.placed.live h.placed.valid
  refine ⟨hs, hfault.trans h.placed.fault, fun b hb => ?_, fun b hb => ?_, fun b hr => ?_,
    fun b hg => (h.kindred.given hg).2.2⟩
  · rw [refCount_shutdown, hq.reaped]
    exact Nat.le_of_eq (h.counted.count b (hq.size ▸ hb)).symm
  · exact h.counted.unborn b (hq.size ▸ hb)
  · rw [hq.reaped] at hr
    exact h.kindred.forked (h.ordered.exiting b (h.ordered.exited b hr))

namespace Covered

theorem lt_of_owed (h : k.Covered a) (ho : a.owed b ≠ 0) : b < k.blocks.size :=
  Nat.lt_of_not_le fun hle => ho (h.unborn b hle)

theorem refCount_of_owed (h : k.Covered a) (ho : a.owed b ≠ 0) : (k.block b).refCount ≠ 0 := by
  have hcount := h.count b (h.lt_of_owed ho)
  omega

/-- Calls of the host leave blocks alone. -/
theorem of_table (h : k.Covered a) (ht : k'.table = k.table) (hs : k'.Spent) : k'.Covered a := by
  have hblock := block_eq_of_table ht
  have hsize := size_eq_of_table ht
  refine ⟨hs, (congrArg Table.fault ht).trans h.fault, fun b hb => ?_, fun b hb => ?_,
    fun b hr => ?_, h.given⟩
  · rw [hblock]
    exact h.count b (hsize ▸ hb)
  · exact h.unborn b (hsize ▸ hb)
  · rw [hblock] at hr
    exact h.reaped b hr

theorem of_account {a' : Account} (h : k.Covered a) (hf : a'.forker = a.forker)
    (hg : a'.given = a.given) (ho : a.owed = a'.owed) : k.Covered a' where
  spent := h.spent
  fault := h.fault
  count b hb := by
    rw [← ho, hg]
    exact h.count b hb
  unborn b hb := ho ▸ h.unborn b hb
  reaped b hr := hf ▸ h.reaped b hr
  given b hb := by
    rw [hf]
    exact h.given b (hg ▸ hb)

/-- A reference that is on the account is given back. -/
theorem release (h : k.Covered (a.owe b)) : (k.release b).2.Covered a := by
  have hs := h.spent.release b
  have hq : k.Quiet (k.update b .released) := .of_update b _ fun _ => rfl
  rw [h.spent.release_eq] at hs ⊢
  refine ⟨hs, h.fault, fun c hc => ?_, fun c hc => ?_, fun c hr => ?_, h.given⟩
  · have hcount := h.count c (size_update k b _ ▸ hc)
    rw [Account.owed_owe] at hcount
    rw [hq.reaped]
    by_cases hcb : c = b
    · subst hcb
      rw [if_pos rfl] at hcount
      rw [block_update_self (size_update k c _ ▸ hc)]
      exact Nat.le_sub_of_add_le ((Nat.add_assoc ..).trans_le hcount)
    · rw [if_neg hcb] at hcount
      rw [block_update_of_ne hcb]
      exact hcount
  · have hnone := h.unborn c (size_update k b _ ▸ hc)
    rw [Account.owed_owe] at hnone
    exact Nat.eq_zero_of_add_eq_zero_right hnone
  · rw [hq.reaped] at hr
    exact h.reaped c hr

/-- A reference beside one that is held. -/
theorem retain (h : k.Covered a) (ho : a.owed b ≠ 0) : (k.retain b).Covered (a.owe b) := by
  have hz := h.refCount_of_owed ho
  have hlt := h.lt_of_owed ho
  have hq : k.Quiet (k.update b .retained) := .of_update b _ fun _ => rfl
  rw [retain_eq, if_neg hz]
  refine ⟨h.spent.alike (.retained hz), h.fault, fun c hc => ?_, fun c hc => ?_, fun c hr => ?_,
    h.given⟩
  · have hcount := h.count c (size_update k b _ ▸ hc)
    rw [hq.reaped, Account.owed_owe]
    by_cases hcb : c = b
    · rw [hcb] at hcount ⊢
      rw [block_update_self hlt, if_pos rfl]
      exact Nat.succ_le_succ hcount
    · rw [block_update_of_ne hcb, if_neg hcb]
      exact hcount
  · rw [size_update] at hc
    rw [Account.owed_owe, h.unborn c hc, if_neg (Nat.ne_of_gt (Nat.lt_of_lt_of_le hlt hc))]
  · rw [hq.reaped] at hr
    exact h.reaped c hr

/-- The holder of a created block may give back the table's reference on it. -/
theorem give (h : k.Covered a) (hb : b < k.blocks.size) (hf : a.forker b = none)
    (hg : a.given b = false) : k.Covered ((a.give b).owe b) := by
  have hunreaped : (k.block b).reaped = false := Bool.eq_false_iff.2 fun hr => by
    obtain ⟨q, hq⟩ := h.reaped b hr
    cases hf.symm.trans hq
  refine ⟨h.spent, h.fault, fun c hc => ?_, fun c hc => ?_, h.reaped, fun c hc => ?_⟩
  · have hcount := h.count c hc
    by_cases hcb : c = b
    · rw [hcb, hunreaped, hg] at hcount
      have hgiven : ((a.give b).owe b).given b = true := by simp [Account.owe, Account.give]
      rw [hcb, hunreaped, hgiven, Account.owed_owe, if_pos rfl]
      simpa [Nat.add_comm, Account.give] using hcount
    · have hgiven : ((a.give b).owe b).given c = a.given c := by
        simp [Account.owe, Account.give, hcb]
      rw [hgiven, Account.owed_owe, if_neg hcb]
      exact hcount
  · rw [Account.owed_owe, if_neg (Nat.ne_of_gt (Nat.lt_of_lt_of_le hb hc))]
    exact h.unborn c hc
  · rcases Bool.or_eq_true_iff.1 hc with hc | hc
    · rw [beq_iff_eq.1 hc]
      exact hf
    · exact h.given c hc

/-- The reaped child of a failed fork no longer counts on the table's reference. -/
theorem unwound (h : k.Covered a) {c q : BlockId} (hc : c < k.blocks.size)
    (hf : a.forker c = some q) (hr : (k.block c).reaped = false) :
    (k.update c Block.unwound).Covered (a.owe c) := by
  have hgiven : a.given c = false := Bool.eq_false_iff.2 fun hg => by
    cases (h.given c hg).symm.trans hf
  refine ⟨h.spent.alike (.of_update c _ fun _ => ⟨rfl, rfl, rfl, rfl⟩), h.fault,
    fun x hx => ?_, fun x hx => ?_, fun x hx => ?_, h.given⟩
  · have hcount := h.count x (size_update k c _ ▸ hx)
    have hsame : ∀ y : Block, (Block.unwound y).refCount = y.refCount := fun _ => rfl
    rw [view_update Block.refCount (hsame _), Account.owed_owe]
    by_cases hxc : x = c
    · rw [hxc, hr, hgiven] at hcount
      rw [hxc, block_update_self hc, if_pos rfl]
      simpa [Nat.add_comm, Block.unwound] using hcount
    · rw [block_update_of_ne hxc, if_neg hxc]
      exact hcount
  · rw [size_update] at hx
    rw [Account.owed_owe, h.unborn x hx, if_neg (Nat.ne_of_gt (Nat.lt_of_lt_of_le hc hx))]
  · by_cases hxc : x = c
    · exact ⟨q, hxc ▸ hf⟩
    · rw [block_update_of_ne hxc] at hx
      exact h.reaped x hx

/-- A fork that fails gives back the child and the reference on the parent. -/
theorem unwind (h : k.Covered (a.owe b)) {c q : BlockId} (hc : c < k.blocks.size)
    (hf : a.forker c = some q) (hr : (k.block c).reaped = false) :
    ((k.abandon c).release b).2.Covered a :=
  (h.unwound hc hf hr).release.release

theorem wake (h : k.Covered (a.owe b)) (hr : (k.block b).reaped = true) :
    (k.wake b).2.Covered a := by
  rw [Kernel.wake, if_pos hr]
  exact h.release

end Covered

end Lifecycle.Kernel
