import Lifecycle.Proofs.Kernel.Lasting

/-! A table after any operation, whether it is live or shut down. In one that is shut down
nothing gets a task any more, so that no fork can go on to link its child. -/

namespace Lifecycle.Kernel

variable {k : Kernel} {r : List Pid}

/-! ### Blocks and faults, in any table -/

@[simp] theorem size_release (k : Kernel) (b : BlockId) :
    (k.release b).2.blocks.size = k.blocks.size :=
  (quiet_release k b).size

@[simp] theorem size_attach (k : Kernel) (c q : BlockId) :
    (k.attach c q).blocks.size = k.blocks.size := by
  unfold attach
  split
  · exact size_update ..
  · rfl

@[simp] theorem size_rehome (k : Kernel) (c : BlockId) :
    (k.rehome c).blocks.size = k.blocks.size := by
  unfold rehome
  split
  · simp
  · split
    · simp
    · rfl

theorem size_foldl {α : Type} (f : Kernel → α → Kernel)
    (hf : ∀ k x, (f k x).blocks.size = k.blocks.size) (xs : List α) (k : Kernel) :
    (xs.foldl f k).blocks.size = k.blocks.size := by
  induction xs generalizing k with
  | nil => rfl
  | cons x xs ih => rw [List.foldl_cons, ih, hf]

theorem size_holdChild (parent : Pid) (out : List BlockId × Kernel) (pid : Pid) :
    (holdChild parent out pid).2.blocks.size = out.2.blocks.size := by
  unfold holdChild
  split
  · rfl
  · next b blocks hb =>
    have hsize : blocks.size = out.2.blocks.size := by
      unfold PidMap.getRetained BlockStore.tryRetain at hb
      cases hl : out.2.pids.lookup pid with
      | none =>
        rw [hl] at hb
        cases hb
      | some c =>
        simp only [hl, Option.bind_some] at hb
        split at hb
        · cases hb
        · cases hb
          exact BlockStore.size_update ..
    dsimp only
    split <;> exact hsize

theorem size_rearrangeChildren (k : Kernel) (parent : Pid) :
    (k.rearrangeChildren parent).blocks.size = k.blocks.size := by
  have hheld : ∀ (pids : List Pid) (out : List BlockId × Kernel),
      (pids.foldl (holdChild parent) out).2.blocks.size = out.2.blocks.size := by
    intro pids
    induction pids with
    | nil => exact fun _ => rfl
    | cons pid pids ih =>
      intro out
      rw [List.foldl_cons, ih, size_holdChild]
  unfold rearrangeChildren holdChildren
  dsimp only
  rw [size_foldl _ fun k b => size_release k b, size_foldl _ size_rehome, hheld]

theorem size_publishExit (k : Kernel) (b : BlockId) (status : RawStatus) :
    (k.publishExit b status).2.blocks.size = k.blocks.size := by
  unfold publishExit
  dsimp only
  split
  · rw [size_release]
    exact (size_update ..).trans (size_update ..)
  · exact size_update ..

theorem size_exit (k : Kernel) (pid : Pid) (status : RawStatus) :
    (k.exit pid status).2.blocks.size = k.blocks.size := by
  have hbegin : ∀ (k : Kernel) (b : BlockId), (k.beginExit b).blocks.size = k.blocks.size := by
    intro k b
    unfold beginExit
    rw [size_update]
    split <;> split <;> rfl
  have hl := k.leaves pid status
  generalize k.exit pid status = out at hl ⊢
  cases hl with
  | missed => rfl
  | @left b _ k' found published =>
    have hp := size_publishExit (((k.update b .retained).beginExit b).rearrangeChildren
      (k.block b).pid) b status
    rw [published, size_rearrangeChildren, hbegin, size_update] at hp
    exact (size_release k' b).trans hp

theorem size_exitThread (k : Kernel) (pid : Pid) (status : ExitStatus) :
    (k.exitThread pid status).2.blocks.size = k.blocks.size := by
  have hl := k.leavesThread pid status
  generalize k.exitThread pid status = out at hl ⊢
  cases hl with
  | missed => rfl
  | left => exact size_exit k pid status.encode

theorem size_wait (k : Kernel) (caller : Pid) (target : Int64) (options : Int32) :
    (k.wait caller target options).2.blocks.size = k.blocks.size := by
  have hw := k.asks caller target options
  generalize k.wait caller target options = out at hw ⊢
  cases hw with
  | refused => rfl
  | collected =>
    rw [collect_eq]
    dsimp only
    rw [size_release, size_release, size_update, size_update, size_update]
  | asleep => exact (size_update ..).trans (size_update ..)

theorem size_beginCreate (k : Kernel) (name : String) :
    (k.beginCreate name).2.blocks.size = k.blocks.size := by
  have hreserve := (quiet_reserve k).size
  have hb := k.beginsCreate name
  generalize k.beginCreate name = out at hb ⊢
  cases hb with
  | refused reserve =>
    rw [reserve] at hreserve
    exact hreserve
  | begun reserve =>
    rw [reserve] at hreserve
    exact hreserve

theorem size_beginFork (k : Kernel) (pid : Pid) :
    (k.beginFork pid).2.blocks.size = k.blocks.size := by
  have hb := k.beginsFork pid
  have hreserve := fun b => ((quiet_reserve (k.update b .retained)).size).trans (size_update ..)
  generalize k.beginFork pid = out at hb ⊢
  cases hb with
  | refused => rfl
  | @full parent _ k' found reserve =>
    have hsize := hreserve parent
    rw [reserve] at hsize
    exact (size_release k' parent).trans hsize
  | @begun parent _ _ found reserve =>
    have hsize := hreserve parent
    rw [reserve] at hsize
    exact hsize

theorem size_shutdown (k : Kernel) : k.shutdown.2.blocks.size = k.blocks.size := by
  unfold shutdown
  split
  · rfl
  · exact (foldl_dropBlock k.pids.drain.1
      { k with live := false, pids := k.pids.drain.2 }).1.size

/-- A fault stays. -/
theorem fault_of_release {b : BlockId} (hf : (k.release b).2.fault = none) : k.fault = none := by
  rw [release_eq] at hf
  split at hf
  · simp only [destroy, fault_discardTaskOf] at hf
    unfold freePid at hf
    split at hf
    · exact hf
    · cases hf
  · exact hf

theorem fault_of_wake {b : BlockId} (hf : (k.wake b).2.fault = none) : k.fault = none := by
  unfold wake at hf
  split at hf
  · exact fault_of_release hf
  · rw [collect_eq] at hf
    dsimp only at hf
    have hupdate := fault_of_release (fault_of_release hf)
    exact hupdate

/-! ### A table that is shut down -/

@[simp] theorem family_destroy (k : Kernel) (b : BlockId) :
    (k.destroy b).family = k.family.forget (k.block b).pid := by
  simp only [destroy, family_discardTaskOf]
  unfold freePid
  split <;> rfl

theorem Spent.release (h : k.Spent) (b : BlockId) : (k.release b).2.Spent := by
  have hdown := (h.down.release b).1
  rw [release_eq] at hdown ⊢
  split
  · next hn =>
    have hlt : b < k.blocks.size := by
      apply Nat.lt_of_not_le
      intro hle
      rw [block_of_size_le hle] at hn
      cases hn
    have ha : (k.update b .released).Hosted :=
      h.hosted.congr (size_update ..) (view_update Block.task rfl)
        (view_update Block.taskReleased rfl) rfl fun _ => rfl
    obtain ⟨hhosted, -, hreleased, -⟩ := destroy_host ha (b := b) (by rwa [size_update])
    rw [if_pos hn] at hdown
    refine ⟨hdown, hhosted, fun c hc => ?_, ?_⟩
    · rw [(quiet_destroy ..).size, size_update] at hc
      rw [hreleased, view_update Block.taskReleased rfl, h.released c hc, Bool.or_true]
    · rw [family_destroy]
      change k.family.forget _ = {}
      rw [h.family]
      rfl
  · next hn => exact h.alike (.released hn)

/-- There is no pid to install a new block at. -/
theorem Spent.fault_make (h : k.Spent) (p : Pid) (name : String) :
    (k.make p name none).2.fault ≠ none := by
  have herror : ∃ fault, k.pids.install p p k.blocks.size = .error fault := by
    have htaken := h.down.free p
    unfold PidMap.isAllocated at htaken
    unfold PidMap.install
    by_cases hc : k.pids.capacity ≤ p.toNat
    · exact ⟨_, if_pos hc⟩
    · have ht : k.pids.isTaken p.toNat = false := by
        simpa [Nat.lt_of_not_le hc] using htaken
      rw [if_neg hc]
      simp [ht]
  obtain ⟨fault, hi⟩ := herror
  unfold Kernel.make Kernel.createTask
  simp only [install, log, Block.fresh, hi, halt]
  simp

/-- Without a fault no block is made in it, and it is as it was. -/
theorem Spent.make (h : k.Spent) {p : Pid} {name : String} {refusal : Option Errno} {k' : Kernel}
    {result : Except ProcessError BlockId} (made : k.make p name refusal = (result, k'))
    (hf : k'.fault = none) : k'.Spent := by
  cases refusal with
  | some errno =>
    have hs : (k.log (.refuseTask name errno)).Spent := h.alike (.of_host rfl rfl fun _ => rfl)
    have hk : k.make p name (some errno) =
        (.error (.host .createTask errno), k.log (.refuseTask name errno)) := by
      simp only [Kernel.make, Kernel.createTask, hs.down.unreserve]
    cases hk.symm.trans made
    exact hs
  | none =>
    have hfault := h.fault_make p name
    rw [made] at hfault
    exact absurd hf hfault

theorem Spent.abandon (h : k.Spent) (child : BlockId) : (k.abandon child).Spent := by
  have ha : k.Alike (k.update child Block.unwound) :=
    .of_update child _ fun _ => ⟨rfl, rfl, rfl, rfl⟩
  exact (h.alike ha).release child

theorem Spent.endFork (h : k.Spent) (parent : BlockId) (progress : Progress) :
    (k.endFork parent progress).2.Spent :=
  h.release parent

/-- No task is left to copy files from. -/
theorem Spent.task?_eq_none (h : k.Spent) (task : TaskHandle) : k.host.task? task = none := by
  refine Option.eq_none_iff_forall_ne_some.2 fun record hs => ?_
  obtain ⟨b, hb, -, hr⟩ := (h.hosted.known task).1 ((k.host.contains_iff task).2 ⟨record, hs⟩)
  rw [h.released b hb] at hr
  cases hr

theorem Spent.unwind (h : k.Spent) (child parent : BlockId) (progress : Progress) :
    ((k.abandon child).endFork parent progress).2.Spent :=
  (h.abandon child).endFork parent progress

/-- A fork that goes on in it links no child any more. -/
theorem Spent.resume (h : k.Spent) (pending : Pending) (refusal : Option Errno)
    (hf : (k.resume pending refusal).2.fault = none) : (k.resume pending refusal).2.Spent := by
  have hr := k.resumes pending refusal
  generalize k.resume pending refusal = out at hr hf ⊢
  cases hr with
  | uncreated made => exact h.make made hf
  | created made => exact h.make made hf
  | unborn made => exact (h.make made (fault_of_release hf)).endFork _ _
  | born made => exact h.make made hf
  | unwound held flight refused => exact (h.alike refused.called.alike).unwind _ _ _
  | copied space => exact h.alike (Called.space space).alike
  | linked files =>
    obtain ⟨-, ⟨_, source⟩, -⟩ := tasks_of_cloneFdTable files
    cases (h.task?_eq_none _).symm.trans source
  | complete spawned => exact (h.alike (Called.spawn spawned).alike).endFork _ _

theorem Spent.wake (h : k.Spent) (b : BlockId) : (k.wake b).2.Spent := by
  unfold Kernel.wake
  split
  · exact h.release b
  · have ha : k.Alike (k.update b Block.collected) :=
      .of_update b _ fun _ => ⟨rfl, rfl, rfl, rfl⟩
    rw [collect_eq]
    dsimp only
    exact ((h.alike ha).release b).release b

/-! ### Any table -/

/-- A table that is live and intact, or shut down. -/
def Sane (k : Kernel) (r : List Pid) : Prop := k.Intact r ∨ k.Spent

namespace Sane

variable (h : k.Sane r)
include h

theorem alike {k' : Kernel} (ha : k.Alike k') : k'.Sane r :=
  h.imp (·.alike ha) (·.alike ha)

theorem release (b : BlockId) : (k.release b).2.Sane r := h.imp (·.release b) (·.release b)

theorem wake (b : BlockId) : (k.wake b).2.Sane r := h.imp (·.wake b) (·.wake b)

theorem retain (b : BlockId) : (k.retain b).Sane r := by
  rw [retain_eq]
  split
  · exact h.alike (.halt ..)
  · next hz => exact h.alike (.retained hz)

theorem get (pid : Pid) : (k.get pid).2.Sane r := by
  rcases h with h | h
  · exact Or.inl (h.get pid)
  · rw [get_of_dead h.down.live]
    exact Or.inr h

theorem wait (caller : Pid) (target : Int64) (options : Int32) :
    (k.wait caller target options).2.Sane r ∧
      ∀ b, (k.wait caller target options).1 = .asleep b →
        b < (k.wait caller target options).2.blocks.size := by
  rcases h with h | h
  · exact (h.wait caller target options).imp_left Or.inl
  · obtain ⟨error, hw⟩ := wait_of_dead h.down.live caller target options
    rw [hw]
    exact ⟨Or.inr h, fun b hb => by cases hb⟩

theorem exitThread (pid : Pid) (status : ExitStatus) : (k.exitThread pid status).2.Sane r := by
  rcases h with h | h
  · exact Or.inl (h.exitThread pid status)
  · rw [exitThread_of_dead h.down.live]
    exact Or.inr h

theorem beginCreate (name : String) :
    (k.beginCreate name).2.Sane ((k.beginCreate name).1.reserved ++ r) ∧
      ∀ next, (k.beginCreate name).1 = .stopped next →
        next.Below (k.beginCreate name).2.blocks.size := by
  refine ⟨?_, fun next hn => ?_⟩
  · rcases h with h | h
    · exact Or.inl (h.beginCreate name)
    · rw [beginCreate_of_dead h.down.live]
      exact Or.inr h
  · rcases k.beginCreate_cases name with ⟨error, hk⟩ | ⟨p, hk⟩
    · cases hk.symm.trans hn
    · cases hk.symm.trans hn
      exact ⟨fun b hb => (by cases hb), fun c hc => (by cases hc)⟩

theorem beginFork (pid : Pid) :
    (k.beginFork pid).2.Sane ((k.beginFork pid).1.reserved ++ r) ∧
      ∀ next, (k.beginFork pid).1 = .stopped next →
        next.Below (k.beginFork pid).2.blocks.size := by
  rcases h with h | h
  · exact (h.beginFork pid).imp_left Or.inl
  · rw [beginFork_of_dead h.down.live]
    exact ⟨Or.inr h, fun next hn => by cases hn⟩

theorem shutdown : k.shutdown.2.Sane r := by
  rcases h with h | h
  · exact Or.inr h.shutdown
  · rw [shutdown_of_dead h.down.live]
    exact Or.inr h

end Sane

/-- Without a fault, a fork that goes on leaves the table sane. -/
theorem Sane.resume {pending : Pending} (h : k.Sane (pending.reserved?.toList ++ r))
    (hb : pending.Below k.blocks.size) (refusal : Option Errno)
    (hf : (k.resume pending refusal).2.fault = none) :
    (k.resume pending refusal).2.Sane ((k.resume pending refusal).1.reserved ++ r) :=
  h.imp (fun h => h.resume (r := r) hb refusal) fun h => h.resume pending refusal hf

end Lifecycle.Kernel
