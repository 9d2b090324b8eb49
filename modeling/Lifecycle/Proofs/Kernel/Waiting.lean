import Lifecycle.Kernel.Wait
import Lifecycle.Proofs.Kernel.Flags

/-! What a wait comes to. It commits by setting the waiter flag of a child that has
none, and collects at once or sleeps with the reference of its lookup. -/

namespace Lifecycle

namespace Kernel

variable {k : Kernel} {a : Account} {b : BlockId}

/-- Consuming a status gives back the table's reference and the waiter's own. -/
theorem Sound.collect (h : k.Sound (a.owe b)) (he : (k.block b).exited = true)
    (hr : (k.block b).reaped = false) : ∃ k',
    k.collect b = (.ok ((k.block b).pid, (k.block b).code), k') ∧ k'.Sound a ∧
      (k.update b Block.collected).Quiet k' := by
  have hx := h.ordered.exiting b he
  obtain ⟨q, hq⟩ := h.kindred.forked hx
  have hh : b ∉ (a.owe b).half := fun hm => by
    rw [(h.kindred.half b hm).2.2.1] at hx
    cases hx
  have hs := h.reap (f := Block.collected) (Block.rises_collected hx he) hq hr rfl
  rw [Account.land_of_not_mem hh] at hs
  exact ⟨_, rfl, hs.release.release, (quiet_release ..).trans (quiet_release ..)⟩

/-- What a call to wait comes to. -/
inductive Waited (k : Kernel) (a : Account) (caller : Pid) (target : Int64) :
    WaitOutcome → Kernel → Prop
  | refused {error k'} (quiet : k.Quiet k') (sound : k'.Sound a) :
      Waited k a caller target (.done (.error error)) k'
  | collected {pid b k'} (named : k.targetPid? target = some pid)
      (found : k.pids.lookup pid = some b) (parent : (k.block b).parent = some caller)
      (waiter : (k.block b).waiter = false) (reaped : (k.block b).reaped = false)
      (exited : (k.block b).exited = true)
      (quiet : (k.update b fun x => x.committed.collected).Quiet k') (sound : k'.Sound a) :
      Waited k a caller target (.done (.ok (pid, (k.block b).code))) k'
  | slept {pid b k'} (named : k.targetPid? target = some pid)
      (found : k.pids.lookup pid = some b) (parent : (k.block b).parent = some caller)
      (waiter : (k.block b).waiter = false) (reaped : (k.block b).reaped = false)
      (exited : (k.block b).exited = false)
      (quiet : (k.update b Block.committed).Quiet k') (sound : k'.Sound (a.owe b)) :
      Waited k a caller target (.asleep b) k'

theorem Sound.commit (h : k.Sound a) (b : BlockId) : (k.update b Block.committed).Sound a := by
  refine h.rise (Block.rises_committed (h.ordered.exiting b) (h.ordered.exited b)) rfl
    fun hx => ?_
  exact ⟨fun hm => Bool.false_ne_true ((h.kindred.half b hm).2.2.1.symm.trans hx),
    h.kindred.forked hx⟩

theorem Sound.wait (h : k.Sound a) (caller : Pid) (target : Int64) (options : Int32) :
    Waited k a caller target (k.wait caller target options).1
      (k.wait caller target options).2 := by
  have hw := k.asks caller target options
  have hq : ∀ b, k.Quiet (k.update b .retained) := fun b => .of_update b _ fun _ => rfl
  generalize k.wait caller target options = out at hw ⊢
  cases hw with
  | refused => exact .refused (.refl k) h
  | @collected pid b named found parent reaped waiter exited =>
    have hs := (h.retained found.installed).commit b
    obtain ⟨k', hk, hs', hq'⟩ := hs.collect (by rw [found.block_committed]; exact exited)
      (by rw [found.block_committed]; exact reaped)
    have hout := (((hq b).update b (f := Block.committed) fun _ => rfl).update b
      (f := Block.collected) fun _ => rfl).trans hq'
    have hpid : (k.block b).retained.committed.pid = pid := (h.placed.own found.installed).2
    rw [hk, found.block_committed, hpid]
    exact .collected named found.installed parent waiter reaped exited
      ((Quiet.of_update_update k b Block.committed Block.collected).trans hout) hs'
  | @asleep pid b named found parent reaped waiter exited =>
    exact .slept named found.installed parent waiter reaped exited
      ((hq b).update b fun _ => rfl) ((h.retained found.installed).commit b)

/-- The answer to a wait on a block that is not reaped. -/
theorem Sound.wait_answer (h : k.Sound a) (caller : Pid) {pid : Pid} {target : Int64}
    (ht : k.targetPid? target = some pid) (hl : k.pids.lookup pid = some b)
    (hr : (k.block b).reaped = false) : (k.wait caller target 0).1 =
      if (k.block b).parent ≠ some caller then .done (.error (.notChild pid caller))
      else if (k.block b).waiter then .done (.error (.alreadyWaited pid))
      else if (k.block b).exited then .done (.ok (pid, (k.block b).code))
      else .asleep b := by
  have found : k.Found pid b := ⟨h.placed.live, hl, h.counted.counted hl⟩
  have hpid : (k.block b).retained.committed.pid = pid := (h.placed.own hl).2
  rw [wait_of_found ht found, commitWait_retained found.counted]
  simp only [hr, Bool.false_eq_true, if_false, Kernel.collect, found.block_committed,
    hpid]
  split
  · rfl
  · split
    · rfl
    · split <;> rfl

/-- What finishing a wait comes to, once its target has left the running state. -/
inductive Woke (k : Kernel) (a : Account) (b : BlockId) :
    Except ProcessError (Pid × RawStatus) → Kernel → Prop
  | gone {k'} (reaped : (k.block b).reaped = true) (quiet : k.Quiet k') (sound : k'.Sound a) :
      Woke k a b (.error (.noSuchProcess (signedPid (k.block b).pid))) k'
  | collected {k'} (reaped : (k.block b).reaped = false) (exited : (k.block b).exited = true)
      (quiet : (k.update b Block.collected).Quiet k') (sound : k'.Sound a) :
      Woke k a b (.ok ((k.block b).pid, (k.block b).code)) k'

theorem Sound.wake (h : k.Sound (a.owe b)) (hd : (k.block b).state ≠ .running) :
    Woke k a b (k.wake b).1 (k.wake b).2 := by
  unfold Kernel.wake
  split
  · next hr => exact .gone hr (quiet_release ..) h.release
  · next hr =>
    have hr' : (k.block b).reaped = false := Bool.eq_false_iff.2 hr
    have he : (k.block b).exited = true := by
      cases he : (k.block b).exited with
      | true => rfl
      | false => exact absurd ((Block.state_eq_running_iff _).2 ⟨hr', he⟩) hd
    obtain ⟨k', hk, hs, hq⟩ := h.collect he hr'
    simp only [hk]
    exact .collected hr' he hq hs

end Kernel

end Lifecycle
