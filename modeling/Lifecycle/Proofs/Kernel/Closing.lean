import Lifecycle.Proofs.Host
import Lifecycle.Proofs.Kernel.Sane
import Lifecycle.Proofs.PidMap.Live
import Lifecycle.Proofs.PidMap.Refinement

/-! What a table is once it is shut down: nothing is installed, linked or known to the host, and
giving references back changes no more than their counts. A fork that was under way then fails at
its next call of the host, unless that is to get its child a task: a block is made for the task,
and there is no pid to install it at. -/

namespace Lifecycle

/-- The task that a call destroys. -/
def HostCall.destroyed? : HostCall → Option TaskHandle
  | .destroyTask task => some task
  | _ => none

namespace Kernel

/-- A table that is shut down with nothing left in it or its host. -/
structure Cleared (k : Kernel) : Prop where
  live : k.live = false
  installed : k.installed = []
  allocated : ∀ p, k.pids.isAllocated p = false
  free : k.pids.free = k.pids.capacity
  childrenOf : ∀ p, k.family.childrenOf p = []
  parentLink? : ∀ c, k.family.parentLink? c = none
  tasks : k.host.liveTasks = 0

/-- Tables that differ in no more than blocks and faults: pids, links, tasks and the calls made
to the host are the same. -/
structure Rests (k k' : Kernel) : Prop where
  live : k'.live = k.live
  pids : k'.pids = k.pids
  family : k'.family = k.family
  host : k'.host = k.host
  calls : k'.calls = k.calls

theorem Rests.refl (k : Kernel) : k.Rests k := ⟨rfl, rfl, rfl, rfl, rfl⟩

theorem Rests.trans {k k₁ k' : Kernel} (h : k.Rests k₁) (h' : k₁.Rests k') : k.Rests k' :=
  ⟨h'.live.trans h.live, h'.pids.trans h.pids, h'.family.trans h.family, h'.host.trans h.host,
    h'.calls.trans h.calls⟩

variable {k k' : Kernel} {r : List Pid}

/-! ### References -/

namespace Spent

variable (h : k.Spent)
include h

theorem livePids : k.livePids = [] :=
  List.eq_nil_iff_forall_not_mem.2 fun p hp => by
    obtain ⟨b, hb⟩ := h.down.valid.mem_livePids.1 hp
    cases (h.down.valid.lookup_of_free (h.down.free p)).symm.trans hb

theorem cleared : k.Cleared where
  live := h.down.live
  installed := by
    rw [Kernel.installed, h.livePids]
    rfl
  allocated := h.down.free
  free := h.down.valid.free_add_length List.nodup_nil fun p => by simp [h.down.free p]
  childrenOf p := by
    rw [h.family]
    rfl
  parentLink? c := by
    rw [h.family]
    rfl
  tasks := by
    refine List.length_eq_zero_iff.2 (List.eq_nil_iff_forall_not_mem.2 fun e he => ?_)
    have hcontains := (k.host.tasks.contains_iff_mem e.1).2 (List.mem_map.2 ⟨e, he, rfl⟩)
    obtain ⟨b, hb, -, hr⟩ := (h.hosted.known e.1).1 hcontains
    rw [h.released b hb] at hr
    cases hr

/-- The last reference gone, there is nothing to tear down. -/
theorem release_eq (b : BlockId) : (k.release b).2 = k.update b .released := by
  rw [Kernel.release_eq]
  split
  · next hn =>
    have hlt : b < k.blocks.size := by
      refine Nat.lt_of_not_le fun hle => ?_
      rw [block_of_size_le hle] at hn
      cases hn
    have hfree : (k.update b .released).freePid b = k.update b .released := by
      unfold freePid
      rw [show (k.update b .released).pids = k.pids from rfl,
        h.down.valid.deallocate_of_free (h.down.free _)]
      rfl
    have hgiven : ((k.update b .released).block b).taskReleased = true := by
      rw [view_update Block.taskReleased rfl, h.released b hlt]
    have hfamily : (k.update b .released).family.forget ((k.update b .released).block b).pid =
        (k.update b .released).family := by
      rw [show (k.update b .released).family = {} from h.family]
      rfl
    change discardTaskOf { (k.update b .released).freePid b with
      family := ((k.update b .released).freePid b).family.forget _ } b = _
    rw [hfree, hfamily]
    exact (discardTaskOf_eq ..).trans (if_pos hgiven)
  · rfl

theorem rests_release (b : BlockId) : k.Rests (k.release b).2 := by
  rw [h.release_eq]
  exact ⟨rfl, rfl, rfl, rfl, rfl⟩

theorem rests_wake (b : BlockId) : k.Rests (k.wake b).2 := by
  unfold Kernel.wake
  split
  · exact h.rests_release b
  · have hcollected : (k.update b Block.collected).Spent :=
      h.alike (.of_update b _ fun _ => ⟨rfl, rfl, rfl, rfl⟩)
    have hupdate : k.Rests (k.update b Block.collected) := ⟨rfl, rfl, rfl, rfl, rfl⟩
    rw [collect_eq]
    exact (hupdate.trans (hcollected.rests_release b)).trans
      ((hcollected.release b).rests_release b)

end Spent

theorem rests_retain (k : Kernel) (b : BlockId) : k.Rests (k.retain b) := by
  rw [retain_eq]
  split <;> exact ⟨rfl, rfl, rfl, rfl, rfl⟩

/-! ### Forks -/

/-- No host helps a fork whose child has lost its task. -/
theorem Spent.resume_eq (h : k.Spent) {pending : Pending} {c : BlockId}
    (hc : pending.child? = some c) (refusal : Option Errno) :
    ∃ (parent : BlockId) (error : ProcessError) (k₁ : Kernel), pending.parent? = some parent ∧
      k₁.table = k.table ∧ k₁.Spent ∧
      k.resume pending refusal = (k₁.abandon c).endFork parent (.failed error) := by
  have hr := k.resumes pending refusal
  generalize k.resume pending refusal = out at hr ⊢
  cases hr with
  | unwound held flight refused =>
    obtain rfl := Option.some.inj (flight.symm.trans hc)
    exact ⟨_, _, _, held, refused.called.table, h.alike refused.called.alike, rfl⟩
  | copied space =>
    obtain ⟨-, _, source⟩ := tasks_of_cloneAddressSpace space
    cases (h.task?_eq_none _).symm.trans source
  | linked files =>
    obtain ⟨-, ⟨_, source⟩, -⟩ := tasks_of_cloneFdTable files
    cases (h.task?_eq_none _).symm.trans source
  | complete spawned =>
    obtain ⟨-, _, record⟩ := task_of_spawnThread spawned
    cases (h.task?_eq_none _).symm.trans record
  | _ => cases hc

/-- A fork or creation that goes on fails, if its next call is not to get a task from the host. -/
theorem Spent.resume_fails (h : k.Spent) {pending : Pending} {refusal : Option Errno}
    (hr : ¬(pending.service = .createTask ∧ refusal = none)) :
    ∃ error, (k.resume pending refusal).1 = .failed error ∧
      (k.resume pending refusal).2.Spent ∧ (k.resume pending refusal).2.fault = k.fault := by
  cases hc : pending.child? with
  | some c =>
    obtain ⟨parent, error, k₁, -, ht, hs, hk⟩ := h.resume_eq hc refusal
    rw [hk]
    exact ⟨error, rfl, hs.unwind c parent _,
      (hs.down.unwind c parent error).2.trans (congrArg Table.fault ht)⟩
  | none =>
    have hservice : pending.service = .createTask := by
      cases pending <;> first | rfl | cases hc
    obtain ⟨errno, rfl⟩ := Option.ne_none_iff_exists'.1 fun hn => hr ⟨hservice, hn⟩
    obtain ⟨error, hfailed, -, hfault⟩ := h.down.resume_refused pending errno
    refine ⟨error, hfailed, ?_, hfault⟩
    have hs : ∀ name, (k.log (.refuseTask name errno)).Spent := fun name =>
      h.alike (.of_host rfl rfl fun _ => rfl)
    cases pending with
    | create pid name =>
      simp only [Kernel.resume, Kernel.make, Kernel.createTask, (hs _).down.unreserve]
      exact hs name
    | forkTask parent pid =>
      simp only [Kernel.resume, Kernel.make, Kernel.createTask, (hs _).down.unreserve]
      exact (hs _).endFork parent _
    | _ => cases hc

/-- One that gets a task has nowhere to put the block for it. -/
theorem Spent.resume_breaks (h : k.Spent) {pending : Pending}
    (hp : pending.service = .createTask) : (k.resume pending none).2.fault ≠ none := by
  cases pending with
  | create pid name =>
    have hfault := h.fault_make pid name
    unfold Kernel.resume
    dsimp only
    generalize k.make pid name none = out at *
    obtain ⟨result, k₁⟩ := out
    cases result <;> exact hfault
  | forkTask parent pid =>
    have hfault := h.fault_make pid (k.block parent).name
    unfold Kernel.resume
    dsimp only
    generalize k.make pid (k.block parent).name none = out at *
    obtain ⟨result, k₁⟩ := out
    cases result with
    | error error => exact fun hn => hfault (fault_of_release hn)
    | ok child => exact hfault
  | _ => cases hp

/-! ### Shutting down -/

theorem dropBlock_spec {b : BlockId} (hb : b < k.blocks.size)
    (hr : (k.block b).taskReleased = false) :
    (∃ new, (k.dropBlock b).calls = new ++ k.calls ∧
      new.filterMap (·.destroyed?) = [(k.block b).task]) ∧
    (∀ c, ((k.dropBlock b).block c).task = (k.block c).task) ∧
    ∀ c, c ≠ b → ((k.dropBlock b).block c).taskReleased = (k.block c).taskReleased := by
  have hdiscard : ∀ k₁ : Kernel, k₁.table = k.table →
      (k₁.discardTaskOf b).calls =
          .destroyTask (k.block b).task :: .destroyFdTable (k.block b).task :: k₁.calls ∧
        (∀ c, ((k₁.discardTaskOf b).block c).task = (k.block c).task) ∧
        ∀ c, c ≠ b → ((k₁.discardTaskOf b).block c).taskReleased = (k.block c).taskReleased := by
    intro k₁ ht
    have hblock := block_eq_of_table ht
    refine ⟨?_, fun c => ?_, fun c hc => ?_⟩
    · rw [discardTaskOf_eq, hblock, if_neg (by simp [hr])]
      rfl
    · rw [task_discardTaskOf, hblock]
    · rw [taskReleased_discardTaskOf (size_eq_of_table ht ▸ hb), hblock, decide_eq_false hc,
        Bool.false_or]
  unfold dropBlock
  split
  · obtain ⟨hcalls, hrest⟩ := hdiscard _ (table_detachThread k (k.block b).task)
    exact ⟨⟨[_, _, .detach (k.block b).task], hcalls, rfl⟩, hrest⟩
  · obtain ⟨hcalls, hrest⟩ := hdiscard k rfl
    exact ⟨⟨[_, _], hcalls, rfl⟩, hrest⟩

theorem destroyed_foldl_dropBlock (bs : List BlockId) (hn : bs.Nodup) {k : Kernel}
    (hb : ∀ b ∈ bs, b < k.blocks.size ∧ (k.block b).taskReleased = false) :
    ∃ new, (bs.foldl dropBlock k).calls = new ++ k.calls ∧
      new.filterMap (·.destroyed?) = (bs.map fun b => (k.block b).task).reverse := by
  induction bs generalizing k with
  | nil => exact ⟨[], rfl, rfl⟩
  | cons b bs ih =>
    obtain ⟨hnot, hn⟩ := List.nodup_cons.1 hn
    obtain ⟨hlt, hr⟩ := hb b List.mem_cons_self
    obtain ⟨⟨first, hfirst, hone⟩, htask, hothers⟩ := dropBlock_spec hlt hr
    obtain ⟨new, hnew, hrest⟩ := ih hn (k := k.dropBlock b) fun c hc => by
      rw [(quiet_dropBlock k b).size, hothers c fun hcb => hnot (hcb ▸ hc)]
      exact hb c (List.mem_cons_of_mem _ hc)
    refine ⟨new ++ first, ?_, ?_⟩
    · rw [List.foldl_cons, hnew, hfirst, List.append_assoc]
    · rw [List.filterMap_append, hrest, hone, List.map_cons, List.reverse_cons]
      simp only [htask]

namespace Intact

variable (h : k.Intact r)
include h

theorem shutdown_eq : k.shutdown = (((k.pids.occupants.filter fun b => !(k.block b).isKernel).map
      fun b => (k.block b).pid),
    { k.pids.occupants.foldl dropBlock { k with live := false, pids := k.pids.drain.2 } with
      family := {} }) := by
  unfold Kernel.shutdown
  rw [h.live, ← h.valid.drain_spec.1]
  rfl

/-- The processes that are left when a table is shut down are those installed, without the
kernel's own pid. -/
theorem leaked_eq : k.shutdown.1 = k.livePids.filter (· ≠ kernelPid) := by
  have hfilter : ∀ ps : List Pid, (∀ p ∈ ps, ∃ b, k.pids.lookup p = some b) →
      ((ps.filterMap k.pids.lookup).filter fun b => !(k.block b).isKernel).map
        (fun b => (k.block b).pid) = ps.filter (· ≠ kernelPid) := by
    intro ps hps
    induction ps with
    | nil => rfl
    | cons p ps ih =>
      obtain ⟨b, hb⟩ := hps p List.mem_cons_self
      have hpid := (h.own hb).2
      rw [List.filterMap_cons_some hb, List.filter_cons, List.filter_cons,
        ← ih fun q hq => hps q (List.mem_cons_of_mem _ hq)]
      by_cases hp : p = kernelPid <;> simp [Block.isKernel, hpid, hp]
  rw [h.shutdown_eq]
  dsimp only
  rw [h.valid.occupants_table, livePids, h.valid.livePids_table]
  exact hfilter _ fun p hp => h.valid.mem_livePids.1 (h.valid.livePids_table ▸ hp)

/-- Every task of the host is destroyed by a shutdown, and none twice. -/
theorem destroyed_shutdown : ∃ new, k.shutdown.2.calls = new ++ k.calls ∧
    (new.filterMap (·.destroyed?)).Nodup ∧
    ∀ t, t ∈ new.filterMap (·.destroyed?) ↔ k.host.tasks.contains t = true := by
  have hmem : ∀ {b}, b ∈ k.pids.occupants ↔ (k.block b).refCount ≠ 0 := fun {b} => by
    rw [h.valid.mem_occupants]
    exact ⟨fun ⟨p, hp⟩ => h.counted hp, fun hz => ⟨_, h.installed b hz⟩⟩
  have hheld : ∀ b ∈ k.pids.occupants, b < k.blocks.size ∧ (k.block b).taskReleased = false :=
    fun b hb => by
      have hlt := h.lt_of_refCount (hmem.1 hb)
      exact ⟨hlt, Bool.eq_false_iff.2 fun hr => hmem.1 hb ((h.released b hlt).1 hr)⟩
  have hnodup : k.pids.occupants.Nodup := by
    rw [h.valid.occupants_table, ← h.valid.livePids_table]
    refine h.valid.nodup_livePids.filterMap fun p q b hp hq => ?_
    exact (h.own hp).2.symm.trans (h.own hq).2
  obtain ⟨new, hcalls, hnew⟩ := destroyed_foldl_dropBlock k.pids.occupants hnodup
    (k := { k with live := false, pids := k.pids.drain.2 }) hheld
  refine ⟨new, ?_, ?_, fun t => ?_⟩
  · rw [h.shutdown_eq]
    exact hcalls
  · rw [hnew, List.nodup_reverse]
    refine hnodup.map_on fun b hb c hc he => ?_
    exact h.hosted.distinct b (hheld b hb).1 c (hheld c hc).1 he
  · rw [hnew, List.mem_reverse, List.mem_map, h.hosted.known]
    constructor
    · rintro ⟨b, hb, rfl⟩
      exact ⟨b, (hheld b hb).1, rfl, (hheld b hb).2⟩
    · rintro ⟨b, hb, rfl, hr⟩
      refine ⟨b, hmem.2 fun hz => ?_, rfl⟩
      rw [(h.released b hb).2 hz] at hr
      cases hr

end Intact

end Kernel

end Lifecycle
