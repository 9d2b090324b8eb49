import Lifecycle.Proofs.Kernel.Exiting
import Lifecycle.Proofs.Kernel.Resuming
import Lifecycle.Proofs.Kernel.Waiting
import Lifecycle.Proofs.PidMap.Drain

/-! A table that is shut down, and what its operations still do. Whatever starts with a
lookup or takes a pid is refused and changes nothing. A fork that had stopped before may
go on: it touches no block but its own child, and refused, it ends and unwinds it. -/

namespace Lifecycle.Kernel

variable {k k' : Kernel}

/-! ### Shutting down -/

theorem quiet_dropBlock (k : Kernel) (b : BlockId) : k.Quiet (k.dropBlock b) := by
  unfold dropBlock
  split
  · exact (Quiet.of_table (table_detachThread ..)).trans (quiet_discardTaskOf _ b)
  · exact quiet_discardTaskOf k b

/-- Dropping a block gives up its task, and leaves the table. -/
theorem dropBlock_frame (k : Kernel) (b : BlockId) : (k.dropBlock b).pids = k.pids ∧
    (k.dropBlock b).live = k.live ∧ (k.dropBlock b).fault = k.fault := by
  unfold dropBlock
  split
  · simp only [pids_discardTaskOf, live_discardTaskOf, fault_discardTaskOf]
    exact ⟨rfl, rfl, rfl⟩
  · simp

theorem foldl_dropBlock (bs : List BlockId) (k : Kernel) : k.Quiet (bs.foldl dropBlock k) ∧
    (bs.foldl dropBlock k).pids = k.pids ∧ (bs.foldl dropBlock k).live = k.live ∧
    (bs.foldl dropBlock k).fault = k.fault := by
  induction bs generalizing k with
  | nil => exact ⟨.refl k, rfl, rfl, rfl⟩
  | cons b bs ih =>
    obtain ⟨hq, hpids, hlive, hfault⟩ := ih (k.dropBlock b)
    obtain ⟨hp, hl, hf⟩ := dropBlock_frame k b
    exact ⟨(quiet_dropBlock k b).trans hq, hpids.trans hp, hlive.trans hl, hfault.trans hf⟩

/-- Shutting down changes the tasks of blocks and no more of them. -/
theorem quiet_shutdown (k : Kernel) : k.Quiet k.shutdown.2 := by
  unfold shutdown
  split
  · exact .refl k
  · obtain ⟨hsize, hcore⟩ := (foldl_dropBlock k.pids.drain.1
      { k with live := false, pids := k.pids.drain.2 }).1
    exact ⟨hsize, hcore⟩

/-- A table that is shut down: no pid in it is taken. -/
structure Down (k : Kernel) : Prop where
  live : k.live = false
  valid : k.pids.Valid
  free : ∀ p, k.pids.isAllocated p = false

/-- A live table goes down, with every block as it was but for its task. -/
theorem shutdown_spec (hl : k.live = true) (hv : k.pids.Valid) : k.shutdown.2.Down ∧
    k.Quiet k.shutdown.2 ∧ k.shutdown.2.fault = k.fault ∧ k.shutdown.2.family = {} := by
  obtain ⟨-, hvalid, -, -, hfree⟩ := hv.drain_spec
  have hk : k.shutdown.2 = { k.pids.drain.1.foldl dropBlock
      { k with live := false, pids := k.pids.drain.2 } with family := {} } := by
    unfold shutdown
    rw [hl]
    rfl
  have hdropped :=
    foldl_dropBlock k.pids.drain.1 { k with live := false, pids := k.pids.drain.2 }
  rw [hk]
  generalize k.pids.drain.1.foldl dropBlock _ = k' at *
  obtain ⟨hq, hpids, hlive, hfault⟩ := hdropped
  refine ⟨⟨hlive, ?_, ?_⟩, ⟨hq.size, hq.core⟩, hfault, rfl⟩
  · change k'.pids.Valid
    rw [hpids]
    exact hvalid
  · change ∀ p, k'.pids.isAllocated p = false
    rw [hpids]
    exact hfree

/-! ### What is refused -/

section Dead

variable (hl : k.live = false)
include hl

theorem get_of_dead (pid : Pid) : k.get pid = (none, k) := by
  rw [get, hl, if_neg Bool.false_ne_true]

theorem beginFork_of_dead (pid : Pid) : k.beginFork pid = (.failed .shutDown, k) := by
  rw [beginFork, hl]
  rfl

theorem beginCreate_of_dead (name : String) : k.beginCreate name = (.failed .shutDown, k) := by
  rw [beginCreate, reserve, hl]
  rfl

theorem wait_of_dead (caller : Pid) (target : Int64) (options : Int32) :
    ∃ error, k.wait caller target options = (.done (.error error), k) := by
  have hw := k.asks caller target options
  generalize k.wait caller target options = out at hw ⊢
  cases hw with
  | refused => exact ⟨_, rfl⟩
  | collected named found => cases hl.symm.trans found.live
  | asleep named found => cases hl.symm.trans found.live

theorem exitThread_of_dead (pid : Pid) (status : ExitStatus) :
    k.exitThread pid status = (none, k) := by
  have he := k.leavesThread pid status
  generalize k.exitThread pid status = out at he ⊢
  cases he with
  | missed => rfl
  | left found => cases hl.symm.trans found.live

theorem shutdown_of_dead : k.shutdown = ([], k) := by
  rw [shutdown, hl]
  rfl

end Dead

/-! ### Forks that are refused -/

/-- A call that the host refuses after the child is made gives the fork up. -/
theorem resume_refused_eq {pending : Pending} {c : BlockId} (hc : pending.child? = some c)
    (k : Kernel) (errno : Errno) : ∃ (parent : BlockId) (error : ProcessError) (k₁ : Kernel),
      k₁.table = k.table ∧
        k.resume pending (some errno) = (k₁.abandon c).endFork parent (.failed error) := by
  have hr := k.resumes pending (some errno)
  generalize k.resume pending (some errno) = out at hr ⊢
  cases hr with
  | unwound held flight refused =>
    obtain rfl := Option.some.inj (flight.symm.trans hc)
    exact ⟨_, _, _, refused.called.table, rfl⟩
  | copied space => cases (tasks_of_cloneAddressSpace space).1
  | linked files => cases (tasks_of_cloneFdTable files).1
  | complete spawned => cases (task_of_spawnThread spawned).1
  | _ => cases hc

/-- A fork that is refused reaps its child. -/
theorem reaped_resume_refused {pending : Pending} {c : BlockId} (hc : pending.child? = some c)
    (hlt : c < k.blocks.size) (errno : Errno) :
    ((k.resume pending (some errno)).2.block c).reaped = true := by
  obtain ⟨parent, error, k₁, ht, hk⟩ := resume_refused_eq hc k errno
  rw [hk, endFork, (quiet_release ..).reaped, (quiet_abandon k₁ c).reaped,
    block_update_self (size_eq_of_table ht ▸ hlt)]
  rfl

/-! ### Ending the forks of a table that is shut down -/

namespace Down

theorem of_table (h : k.Down) (ht : k'.table = k.table) : k'.Down := by
  have hp : k'.pids = k.pids := congrArg Table.pids ht
  exact ⟨(congrArg Table.live ht).trans h.live, hp ▸ h.valid, hp ▸ h.free⟩

variable (h : k.Down)
include h

/-- No reference given back frees a pid any more. -/
theorem release (b : BlockId) :
    (k.release b).2.Down ∧ (k.release b).2.fault = k.fault := by
  rw [release_eq]
  split
  · have hfree : (k.update b .released).freePid b = k.update b .released := by
      unfold freePid
      rw [show (k.update b .released).pids = k.pids from rfl,
        h.valid.deallocate_of_free (h.free _)]
      rfl
    simp only [destroy, hfree]
    refine ⟨⟨?_, ?_, ?_⟩, ?_⟩
    · rw [live_discardTaskOf]
      exact h.live
    · rw [pids_discardTaskOf]
      exact h.valid
    · rw [pids_discardTaskOf]
      exact h.free
    · rw [fault_discardTaskOf]
      rfl
  · exact ⟨⟨h.live, h.valid, h.free⟩, rfl⟩

/-- Giving up a fork reaps its child. -/
theorem unwind (child parent : BlockId) (error : ProcessError) :
    ((k.abandon child).endFork parent (.failed error)).2.Down ∧
      ((k.abandon child).endFork parent (.failed error)).2.fault = k.fault := by
  have hupdate : (k.update child Block.unwound).Down := ⟨h.live, h.valid, h.free⟩
  have habandon : k.abandon child = ((k.update child Block.unwound).release child).2 := rfl
  obtain ⟨hd, hf⟩ := hupdate.release child
  rw [← habandon] at hd hf
  obtain ⟨hd', hf'⟩ := hd.release parent
  unfold endFork
  dsimp only
  refine ⟨hd', ?_⟩
  rw [hf', hf]
  rfl

theorem resume_unwound {pending : Pending} {c : BlockId} (hc : pending.child? = some c)
    (errno : Errno) : ∃ error, (k.resume pending (some errno)).1 = .failed error ∧
      (k.resume pending (some errno)).2.Down ∧
      (k.resume pending (some errno)).2.fault = k.fault := by
  obtain ⟨parent, error, k₁, ht, hk⟩ := resume_refused_eq hc k errno
  obtain ⟨hd, hf⟩ := (h.of_table ht).unwind c parent error
  rw [hk]
  exact ⟨error, rfl, hd, hf.trans (congrArg Table.fault ht)⟩

theorem unreserve (pid : Pid) : k.unreserve pid = k := by
  unfold Kernel.unreserve
  rw [h.valid.deallocate_of_free (h.free _)]

/-- A call that the host refuses ends the fork, and breaks nothing. -/
theorem resume_refused (pending : Pending) (errno : Errno) :
    ∃ error, (k.resume pending (some errno)).1 = .failed error ∧
      (k.resume pending (some errno)).2.Down ∧
      (k.resume pending (some errno)).2.fault = k.fault := by
  cases pending with
  | create pid name =>
    have hd : (k.log (.refuseTask name errno)).Down := h.of_table rfl
    have hk : k.resume (.create pid name) (some errno) =
        (.failed (.host .createTask errno), k.log (.refuseTask name errno)) := by
      simp only [resume, make, createTask, hd.unreserve]
    rw [hk]
    exact ⟨_, rfl, hd, rfl⟩
  | forkTask parent pid =>
    have hd : (k.log (.refuseTask (k.block parent).name errno)).Down := h.of_table rfl
    have hk : k.resume (.forkTask parent pid) (some errno) =
        (.failed (.host .createTask errno),
          ((k.log (.refuseTask (k.block parent).name errno)).release parent).2) := by
      simp only [resume, make, createTask, hd.unreserve, endFork]
    rw [hk]
    exact ⟨_, rfl, hd.release parent⟩
  | forkSpace parent child => exact h.resume_unwound rfl errno
  | forkFiles parent child => exact h.resume_unwound rfl errno
  | forkThread parent child => exact h.resume_unwound rfl errno

end Down

end Lifecycle.Kernel
