import Lifecycle.Proofs.Kernel.Downtime

/-! The tasks that blocks have with the host. Every block has one of its own from the time
it is made until it gives it up, and the host has no others. -/

namespace Lifecycle

/-- A block that has given up its task. -/
def Block.untasked (b : Block) : Block := { b with taskReleased := true }

namespace Kernel

/-- Every block has a task of its own, and the host has those that are not given up. -/
structure Hosted (k : Kernel) : Prop where
  issued : ∀ b < k.blocks.size, (k.block b).task.raw < k.host.nextTask
  distinct : ∀ b < k.blocks.size, ∀ c < k.blocks.size,
    (k.block b).task = (k.block c).task → b = c
  known : ∀ t, k.host.tasks.contains t = true ↔
    ∃ b < k.blocks.size, (k.block b).task = t ∧ (k.block b).taskReleased = false

variable {k k' : Kernel}

/-- The next handle is no task's. -/
theorem Hosted.unknown (h : k.Hosted) : k.host.task? ⟨k.host.nextTask⟩ = none := by
  refine Option.eq_none_iff_forall_ne_some.2 fun record hr => ?_
  obtain ⟨b, hb, ht, -⟩ := (h.known _).1 ((k.host.contains_iff _).2 ⟨record, hr⟩)
  have hissued := h.issued b hb
  rw [ht] at hissued
  exact Nat.lt_irrefl _ hissued

/-! ### Changes that are of no account -/

/-- Tables that differ in no more than flags, names and parents of blocks, in counts of
references that are and stay positive, and in what the host records of its tasks. -/
structure Alike (k k' : Kernel) : Prop where
  live : k'.live = k.live
  pids : k'.pids = k.pids
  family : k'.family = k.family
  size : k'.blocks.size = k.blocks.size
  pid : ∀ b, (k'.block b).pid = (k.block b).pid
  task : ∀ b, (k'.block b).task = (k.block b).task
  taskReleased : ∀ b, (k'.block b).taskReleased = (k.block b).taskReleased
  vacant : ∀ b, (k'.block b).refCount = 0 ↔ (k.block b).refCount = 0
  nextTask : k'.host.nextTask = k.host.nextTask
  tasks : ∀ t, k'.host.tasks.contains t = k.host.tasks.contains t

namespace Alike

theorem refl (k : Kernel) : k.Alike k :=
  ⟨rfl, rfl, rfl, rfl, fun _ => rfl, fun _ => rfl, fun _ => rfl, fun _ => .rfl, rfl, fun _ => rfl⟩

theorem trans {k'' : Kernel} (h : k.Alike k') (h' : k'.Alike k'') : k.Alike k'' where
  live := h'.live.trans h.live
  pids := h'.pids.trans h.pids
  family := h'.family.trans h.family
  size := h'.size.trans h.size
  pid b := (h'.pid b).trans (h.pid b)
  task b := (h'.task b).trans (h.task b)
  taskReleased b := (h'.taskReleased b).trans (h.taskReleased b)
  vacant b := (h'.vacant b).trans (h.vacant b)
  nextTask := h'.nextTask.trans h.nextTask
  tasks t := (h'.tasks t).trans (h.tasks t)

theorem of_update (b : BlockId) (f : Block → Block)
    (hf : ∀ x, (f x).pid = x.pid ∧ (f x).task = x.task ∧
      (f x).taskReleased = x.taskReleased ∧ (f x).refCount = x.refCount) :
    k.Alike (k.update b f) := by
  refine ⟨rfl, rfl, rfl, size_update .., view_update Block.pid (hf _).1,
    view_update Block.task (hf _).2.1, view_update Block.taskReleased (hf _).2.2.1, fun c => ?_,
    rfl, fun _ => rfl⟩
  rw [view_update Block.refCount (hf _).2.2.2]

/-- A count may change between positive values. -/
theorem of_count {b : BlockId} (n : Nat) (hn : n = 0 ↔ (k.block b).refCount = 0) :
    k.Alike (k.update b fun x => { x with refCount := n }) := by
  refine ⟨rfl, rfl, rfl, size_update .., view_update Block.pid rfl, view_update Block.task rfl,
    view_update Block.taskReleased rfl, fun c => ?_, rfl, fun _ => rfl⟩
  rw [block_update]
  split
  · next hc => rw [hc.1, hn]
  · rfl

theorem retained {b : BlockId} (hz : (k.block b).refCount ≠ 0) :
    k.Alike (k.update b .retained) :=
  of_count ((k.block b).refCount + 1) (by omega)

theorem released {b : BlockId} (hn : (k.block b).refCount ≠ 1) :
    k.Alike (k.update b .released) :=
  of_count ((k.block b).refCount - 1) (by omega)

theorem of_host (ht : k'.table = k.table) (hn : k'.host.nextTask = k.host.nextTask)
    (hc : ∀ t, k'.host.tasks.contains t = k.host.tasks.contains t) : k.Alike k' := by
  have hb := block_eq_of_table ht
  refine ⟨congrArg Table.live ht, congrArg Table.pids ht, congrArg Table.family ht,
    size_eq_of_table ht, ?_, ?_, ?_, ?_, hn, hc⟩
  all_goals
    intro b
    rw [hb]

theorem halt (k : Kernel) (fault : Fault) : k.Alike (k.halt fault) :=
  ⟨rfl, rfl, rfl, rfl, fun _ => rfl, fun _ => rfl, fun _ => rfl, fun _ => .rfl, rfl, fun _ => rfl⟩

theorem attachThread (k : Kernel) (task : TaskHandle) (pid : Pid) :
    k.Alike (k.attachThread task pid) :=
  .of_host rfl rfl fun _ => Assoc.contains_modify ..

theorem detachThread (k : Kernel) (task : TaskHandle) : k.Alike (k.detachThread task) :=
  .of_host rfl rfl fun _ => Assoc.contains_modify ..

theorem terminateThread (k : Kernel) (task : TaskHandle) : k.Alike (k.terminateThread task) :=
  .of_host rfl rfl fun _ => rfl

theorem cloneAddressSpace (k : Kernel) (src dst : TaskHandle) (refusal : Option Errno) :
    k.Alike (k.cloneAddressSpace src dst refusal).2 := by
  cases refusal with
  | some errno => exact .of_host (table_cloneAddressSpace ..) rfl fun _ => rfl
  | none =>
    have hs := k.host.spares_cloneAddressSpace src dst
    exact .of_host (table_cloneAddressSpace ..) hs.nextTask hs.contains

theorem cloneFdTable (k : Kernel) (src dst : TaskHandle) (refusal : Option Errno) :
    k.Alike (k.cloneFdTable src dst refusal).2 := by
  cases refusal with
  | some errno => exact .of_host (table_cloneFdTable ..) rfl fun _ => rfl
  | none =>
    have hs := k.host.spares_cloneFdTable src dst
    exact .of_host (table_cloneFdTable ..) hs.nextTask hs.contains

theorem spawnThread (k : Kernel) (task : TaskHandle) (refusal : Option Errno) :
    k.Alike (k.spawnThread task refusal).2 := by
  cases refusal with
  | some errno => exact .of_host rfl rfl fun _ => rfl
  | none =>
    simp only [Kernel.spawnThread, Host.spawn]
    cases k.host.task? task with
    | none => exact .of_host rfl rfl fun _ => rfl
    | some record => exact .of_host rfl rfl fun _ => rfl

end Alike

theorem Called.alike (h : k.Called k') : k.Alike k' := by
  cases h with
  | @space src dst refusal _ _ called =>
    have ha := Alike.cloneAddressSpace k src dst refusal
    rwa [called] at ha
  | @files src dst refusal _ _ called =>
    have ha := Alike.cloneFdTable k src dst refusal
    rwa [called] at ha
  | @spawn task refusal _ _ called =>
    have ha := Alike.spawnThread k task refusal
    rwa [called] at ha
  | @detached task refusal _ _ called other =>
    have ha := Alike.spawnThread k task refusal
    rw [called] at ha
    exact ha.trans (.detachThread ..)

theorem Hosted.congr (h : k.Hosted) (hs : k'.blocks.size = k.blocks.size)
    (ht : ∀ b, (k'.block b).task = (k.block b).task)
    (hr : ∀ b, (k'.block b).taskReleased = (k.block b).taskReleased)
    (hn : k'.host.nextTask = k.host.nextTask)
    (hc : ∀ t, k'.host.tasks.contains t = k.host.tasks.contains t) : k'.Hosted := by
  refine ⟨?_, ?_, ?_⟩
  · simpa only [hs, hn, ht] using h.issued
  · simpa only [hs, ht] using h.distinct
  · simpa only [hs, hc, ht, hr] using h.known

theorem Hosted.alike (h : k.Hosted) (ha : k.Alike k') : k'.Hosted :=
  h.congr ha.size ha.task ha.taskReleased ha.nextTask ha.tasks

/-! ### Tasks -/

theorem task?_discardTask (k : Kernel) (task t : TaskHandle) :
    (k.discardTask task).host.task? t = if t = task then none else k.host.task? t := by
  refine (Host.task?_destroyTask ..).trans ?_
  split
  · rfl
  · next ht => exact (Host.task?_destroyFdTable ..).trans (if_neg ht)

theorem discardTaskOf_eq (k : Kernel) (b : BlockId) : k.discardTaskOf b =
    if (k.block b).taskReleased then k
    else (k.update b Block.untasked).discardTask (k.block b).task :=
  rfl

@[simp] theorem nextTask_discardTaskOf (k : Kernel) (b : BlockId) :
    (k.discardTaskOf b).host.nextTask = k.host.nextTask := by
  rw [discardTaskOf_eq]
  split
  · rfl
  · change (Host.destroyTask _ _).nextTask = _
    unfold Host.destroyTask
    split <;> rfl

@[simp] theorem task_discardTaskOf (k : Kernel) (b c : BlockId) :
    ((k.discardTaskOf b).block c).task = (k.block c).task := by
  rw [discardTaskOf_eq]
  split
  · rfl
  · exact view_update Block.task rfl c

theorem taskReleased_discardTaskOf {b : BlockId} (hb : b < k.blocks.size) (c : BlockId) :
    ((k.discardTaskOf b).block c).taskReleased =
      (decide (c = b) || (k.block c).taskReleased) := by
  rw [discardTaskOf_eq]
  by_cases hc : c = b
  · subst hc
    split
    · next hr => simp [hr]
    · change ((k.update c Block.untasked).block c).taskReleased = _
      rw [block_update_self hb]
      simp [Block.untasked]
  · split
    · simp [hc]
    · change ((k.update b Block.untasked).block c).taskReleased = _
      rw [block_update_of_ne hc]
      simp [hc]

/-- A task given up is gone from the host. -/
theorem Hosted.task?_discardTaskOf (h : k.Hosted) {b : BlockId} (hb : b < k.blocks.size)
    (t : TaskHandle) : (k.discardTaskOf b).host.task? t =
      if t = (k.block b).task then none else k.host.task? t := by
  rw [discardTaskOf_eq]
  split
  · next hr =>
    split
    · next ht =>
      refine Option.eq_none_iff_forall_ne_some.2 fun record hs => ?_
      obtain ⟨c, hc, hct, hcr⟩ := (h.known t).1 ((k.host.contains_iff t).2 ⟨record, hs⟩)
      rw [h.distinct c hc b hb (hct.trans ht), hr] at hcr
      cases hcr
    · rfl
  · exact task?_discardTask ..

theorem Hosted.discardTaskOf (h : k.Hosted) {b : BlockId} (hb : b < k.blocks.size) :
    (k.discardTaskOf b).Hosted := by
  have hsize : (k.discardTaskOf b).blocks.size = k.blocks.size := (quiet_discardTaskOf k b).size
  refine ⟨?_, ?_, fun t => ?_⟩
  · simpa only [hsize, task_discardTaskOf, nextTask_discardTaskOf] using h.issued
  · simpa only [hsize, task_discardTaskOf] using h.distinct
  · have hk := h.known t
    rw [Host.contains_iff] at hk ⊢
    rw [h.task?_discardTaskOf hb, hsize]
    simp only [task_discardTaskOf, taskReleased_discardTaskOf hb, Bool.or_eq_false_iff,
      decide_eq_false_iff_not]
    split
    · next ht =>
      refine iff_of_false (by simp) ?_
      rintro ⟨c, hc, hct, hcb, -⟩
      exact hcb (h.distinct c hc b hb (hct.trans ht))
    · next ht =>
      rw [hk]
      refine exists_congr fun c => and_congr_right fun _ => and_congr_right fun hct => ?_
      have hcb : c ≠ b := fun hcb => ht (by rw [← hct, hcb])
      simp [hcb]

/-- A block that is torn down loses its task last. -/
theorem destroy_eq_discardTaskOf (k : Kernel) (b : BlockId) : ∃ k₁ : Kernel,
    k.destroy b = k₁.discardTaskOf b ∧ k₁.blocks = k.blocks ∧ k₁.host = k.host := by
  refine ⟨{ k.freePid b with family :=
    ((k.freePid b).family.unlink (k.block b).pid).dropList (k.block b).pid }, rfl, ?_⟩
  unfold freePid
  split <;> exact ⟨rfl, rfl⟩

/-- Tearing a block down takes its task from the host, and no other. -/
theorem destroy_host (h : k.Hosted) {b : BlockId} (hb : b < k.blocks.size) :
    (k.destroy b).Hosted ∧ (∀ c, ((k.destroy b).block c).task = (k.block c).task) ∧
      (∀ c, ((k.destroy b).block c).taskReleased =
        (decide (c = b) || (k.block c).taskReleased)) ∧
      ∀ t, (k.destroy b).host.task? t =
        if t = (k.block b).task then none else k.host.task? t := by
  obtain ⟨k₁, hk, hblocks, hhost⟩ := destroy_eq_discardTaskOf k b
  have hblock : ∀ c, k₁.block c = k.block c := fun c => congrArg (BlockStore.get · c) hblocks
  have hlt : b < k₁.blocks.size := hblocks ▸ hb
  have hosted : k₁.Hosted := by
    refine h.congr (by rw [hblocks]) ?_ ?_ (by rw [hhost]) (by simp [hhost])
    · simp [hblock]
    · simp [hblock]
  rw [hk]
  refine ⟨hosted.discardTaskOf hlt, ?_, ?_, ?_⟩
  · simp [hblock]
  · intro c
    rw [taskReleased_discardTaskOf hlt, hblock]
  · intro t
    rw [hosted.task?_discardTaskOf hlt, hblock, hhost]

/-- Tearing a block down changes no other. -/
theorem block_destroy_of_ne {b c : BlockId} (hc : c ≠ b) :
    (k.destroy b).block c = k.block c := by
  obtain ⟨k₁, hk, hblocks, -⟩ := destroy_eq_discardTaskOf k b
  have hsame : k₁.block c = k.block c := congrArg (BlockStore.get · c) hblocks
  rw [hk, discardTaskOf_eq, ← hsame]
  split
  · rfl
  · exact block_update_of_ne hc _

/-- The host counts the task that a block loses. -/
theorem counters_destroy {b : BlockId} (hr : (k.block b).taskReleased = false)
    (hc : k.host.tasks.contains (k.block b).task = true) :
    (k.destroy b).host.counters =
      { k.host.counters with destroyed := k.host.counters.destroyed + 1 } := by
  obtain ⟨k₁, hk, hblocks, hhost⟩ := destroy_eq_discardTaskOf k b
  have hsame : k₁.block b = k.block b := congrArg (BlockStore.get · b) hblocks
  have hcontains : (k.host.destroyFdTable (k.block b).task).tasks.contains (k.block b).task =
      true := (Assoc.contains_modify ..).trans hc
  rw [hk, discardTaskOf_eq, hsame, hr, if_neg Bool.false_ne_true]
  change ((k₁.host.destroyFdTable (k.block b).task).destroyTask (k.block b).task).counters = _
  rw [hhost, Host.destroyTask, if_pos hcontains]
  rfl

/-! ### New blocks -/

theorem contains_createTask (h : Host) (name : String) (t : TaskHandle) :
    (h.createTask name).2.tasks.contains t =
      (decide (t = ⟨h.nextTask⟩) || h.tasks.contains t) := by
  have hc := h.task?_createTask name t
  simp only [Host.task?] at hc
  rw [Assoc.contains, hc, Assoc.contains]
  by_cases he : t = ⟨h.nextTask⟩ <;> simp [he, Host.createTask]

/-- A new block has a new task. -/
theorem Hosted.add (h : k.Hosted) {block : Block} (hb : k'.blocks = k.blocks.add block)
    (ht : block.task = ⟨k.host.nextTask⟩) (hr : block.taskReleased = false)
    (hn : k'.host.nextTask = k.host.nextTask + 1)
    (hc : ∀ t, k'.host.tasks.contains t =
      (decide (t = ⟨k.host.nextTask⟩) || k.host.tasks.contains t)) : k'.Hosted := by
  have hsize := size_of_add hb
  have hself : k'.block k.blocks.size = block := by rw [block_of_add hb, if_pos rfl]
  -- the handle is none that a block before has
  have hnew : ∀ b < k.blocks.size, (k.block b).task ≠ ⟨k.host.nextTask⟩ := by
    intro b hlt he
    have := h.issued b hlt
    rw [he] at this
    exact Nat.lt_irrefl _ this
  refine ⟨fun b hlt => ?_, fun b hlt c hlt' he => ?_, fun t => ?_⟩
  · rw [hsize] at hlt
    rw [hn]
    rcases Nat.lt_succ_iff_lt_or_eq.1 hlt with hlt | rfl
    · rw [block_of_add_of_lt hb hlt]
      exact Nat.lt_succ_of_lt (h.issued b hlt)
    · rw [hself, ht]
      exact Nat.lt_succ_self _
  · rw [hsize] at hlt hlt'
    rcases Nat.lt_succ_iff_lt_or_eq.1 hlt with hlt | rfl <;>
      rcases Nat.lt_succ_iff_lt_or_eq.1 hlt' with hlt' | rfl
    · rw [block_of_add_of_lt hb hlt, block_of_add_of_lt hb hlt'] at he
      exact h.distinct b hlt c hlt' he
    · rw [block_of_add_of_lt hb hlt, hself, ht] at he
      exact absurd he (hnew b hlt)
    · rw [block_of_add_of_lt hb hlt', hself, ht] at he
      exact absurd he.symm (hnew c hlt')
    · rfl
  · rw [hc, Bool.or_eq_true, decide_eq_true_iff, h.known, hsize]
    constructor
    · rintro (rfl | ⟨b, hlt, hbt, hbr⟩)
      · exact ⟨_, Nat.lt_succ_self _, by rw [hself, ht], by rw [hself, hr]⟩
      · refine ⟨b, Nat.lt_succ_of_lt hlt, ?_, ?_⟩
        · rw [block_of_add_of_lt hb hlt, hbt]
        · rw [block_of_add_of_lt hb hlt, hbr]
    · rintro ⟨b, hlt, hbt, hbr⟩
      rcases Nat.lt_succ_iff_lt_or_eq.1 hlt with hlt | rfl
      · rw [block_of_add_of_lt hb hlt] at hbt hbr
        exact Or.inr ⟨b, hlt, hbt, hbr⟩
      · rw [hself, ht] at hbt
        exact Or.inl hbt.symm

/-- A block is made at a pid that is taken and empty, with a new task. -/
theorem make_spec {p : Pid} (hv : k.pids.Valid) (ht : k.pids.isAllocated p = true)
    (hn : k.pids.lookup p = none) (name : String) : ∃ k',
      k.make p name none = (.ok k.blocks.size, k') ∧
      k'.blocks = k.blocks.add (.fresh p name ⟨k.host.nextTask⟩) ∧
      k'.host = (k.host.createTask name).2 ∧ k'.family = k.family ∧ k'.live = k.live ∧
      k'.fault = k.fault ∧ k'.pids.Valid ∧ k'.pids.capacity = k.pids.capacity ∧
      k'.pids.free = k.pids.free ∧ k'.pids.isAllocated = k.pids.isAllocated ∧
      ∀ q, k'.pids.lookup q = if q = p then some k.blocks.size else k.pids.lookup q := by
  obtain ⟨m, hm, hmv, hc, hroom, hta, hl⟩ :=
    install_spec (k := (k.createTask name none).2) (.fresh p name ⟨k.host.nextTask⟩) hv ht hn
  refine ⟨(k.createTask name none).2.seat (.fresh p name ⟨k.host.nextTask⟩) m, ?_, rfl, rfl, rfl,
    rfl, rfl, hmv, hc, hroom, hta, hl⟩
  have hk : k.createTask name none = (.ok ⟨k.host.nextTask⟩, (k.createTask name none).2) := rfl
  rw [make, hk]
  simp only [hm]
  rfl

/-! ### Dropping blocks -/

theorem Hosted.dropBlock (h : k.Hosted) {b : BlockId} (hb : b < k.blocks.size) :
    (k.dropBlock b).Hosted ∧ ∀ c, ((k.dropBlock b).block c).taskReleased =
      (decide (c = b) || (k.block c).taskReleased) := by
  unfold Kernel.dropBlock
  split
  · have ha := Alike.detachThread k (k.block b).task
    exact ⟨(h.alike ha).discardTaskOf (ha.size ▸ hb), taskReleased_discardTaskOf (ha.size ▸ hb)⟩
  · exact ⟨h.discardTaskOf hb, taskReleased_discardTaskOf hb⟩

/-- Dropping blocks gives up the task of each. -/
theorem Hosted.foldl_dropBlock (bs : List BlockId) {k : Kernel} (h : k.Hosted)
    (hb : ∀ b ∈ bs, b < k.blocks.size) : (bs.foldl Kernel.dropBlock k).Hosted ∧
      ∀ c, ((bs.foldl Kernel.dropBlock k).block c).taskReleased =
        (decide (c ∈ bs) || (k.block c).taskReleased) := by
  induction bs generalizing k with
  | nil => exact ⟨h, fun c => by simp⟩
  | cons b bs ih =>
    obtain ⟨hd, hr⟩ := h.dropBlock (hb b List.mem_cons_self)
    have hsize := (quiet_dropBlock k b).size
    obtain ⟨hds, hrs⟩ := ih hd fun c hc => by
      rw [hsize]
      exact hb c (List.mem_cons_of_mem _ hc)
    refine ⟨hds, fun c => ?_⟩
    rw [List.foldl_cons, hrs, hr]
    by_cases hc : c = b <;> simp [hc]

end Kernel

end Lifecycle
