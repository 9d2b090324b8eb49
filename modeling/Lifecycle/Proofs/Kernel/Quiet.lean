import Lifecycle.Kernel.Exit
import Lifecycle.Kernel.Fork
import Lifecycle.Kernel.Shutdown
import Lifecycle.Kernel.Wait

/-! What the operations of a kernel leave alone. Calls to the host do not touch
the table, and the traffic of references changes nothing of a block but its count
and, when it is torn down, whether its task has been given up. -/

namespace Lifecycle

/-- A block less the count of its references and the fate of its task. -/
def Block.core (b : Block) : Block := { b with refCount := 0, taskReleased := false }

/-- With one reference more. -/
def Block.retained (b : Block) : Block := { b with refCount := b.refCount + 1 }

/-- With one reference less. -/
def Block.released (b : Block) : Block := { b with refCount := b.refCount - 1 }

/-- A child whose fork has failed. -/
def Block.unwound (b : Block) : Block :=
  { b with exiting := true, exited := true, reaped := true }

/-- A block whose parent is committed to waiting. -/
def Block.committed (b : Block) : Block := { b with waiter := true }

/-- A block whose status is consumed. -/
def Block.collected (b : Block) : Block := { b with reaped := true }

/-- A process that has begun to exit. -/
def Block.leaving (b : Block) : Block := { b with exiting := true }

/-- A process whose status is published. -/
def Block.published (b : Block) (status : RawStatus) : Block :=
  { b with exited := true, code := status }

section Core

variable {x y : Block} (h : x.core = y.core)
include h

theorem Block.pid_of_core : x.pid = y.pid := (congrArg Block.pid h :)

theorem Block.parent_of_core : x.parent = y.parent := (congrArg Block.parent h :)

theorem Block.exiting_of_core : x.exiting = y.exiting := (congrArg Block.exiting h :)

theorem Block.exited_of_core : x.exited = y.exited := (congrArg Block.exited h :)

theorem Block.waiter_of_core : x.waiter = y.waiter := (congrArg Block.waiter h :)

theorem Block.reaped_of_core : x.reaped = y.reaped := (congrArg Block.reaped h :)

theorem Block.code_of_core : x.code = y.code := (congrArg Block.code h :)

end Core

namespace Kernel

/-- The part of a kernel that is its own and not the host's. -/
structure Table where
  pids : PidMap
  family : Family
  blocks : BlockStore
  live : Bool
  fault : Option Fault

def table (k : Kernel) : Table := ⟨k.pids, k.family, k.blocks, k.live, k.fault⟩

/-! ### Calls to the host -/

@[simp] theorem table_attachThread (k : Kernel) (task : TaskHandle) (pid : Pid) :
    (k.attachThread task pid).table = k.table := rfl

@[simp] theorem table_detachThread (k : Kernel) (task : TaskHandle) :
    (k.detachThread task).table = k.table := rfl

@[simp] theorem table_terminateThread (k : Kernel) (task : TaskHandle) :
    (k.terminateThread task).table = k.table := rfl

@[simp] theorem table_cloneAddressSpace (k : Kernel) (src dst : TaskHandle)
    (refusal : Option Errno) : (k.cloneAddressSpace src dst refusal).2.table = k.table := by
  cases refusal <;> rfl

@[simp] theorem table_cloneFdTable (k : Kernel) (src dst : TaskHandle) (refusal : Option Errno) :
    (k.cloneFdTable src dst refusal).2.table = k.table := by
  cases refusal <;> rfl

@[simp] theorem table_spawnThread (k : Kernel) (task : TaskHandle) (refusal : Option Errno) :
    (k.spawnThread task refusal).2.table = k.table := by
  cases refusal with
  | some errno => rfl
  | none =>
    unfold spawnThread
    split <;> rename_i h
    · cases h
    · split <;> rfl

/-! ### Blocks -/

theorem block_eq_of_table {k k' : Kernel} (h : k'.table = k.table) (b : BlockId) :
    k'.block b = k.block b :=
  congrArg (fun t : Table => t.blocks.get b) h

theorem size_eq_of_table {k k' : Kernel} (h : k'.table = k.table) :
    k'.blocks.size = k.blocks.size :=
  congrArg (fun t : Table => t.blocks.size) h

@[simp] theorem size_update (k : Kernel) (b : BlockId) (f : Block → Block) :
    (k.update b f).blocks.size = k.blocks.size :=
  BlockStore.size_update ..

theorem block_update (k : Kernel) (b c : BlockId) (f : Block → Block) :
    (k.update b f).block c = if c = b ∧ b < k.blocks.size then f (k.block c) else k.block c :=
  BlockStore.get_update ..

theorem block_update_self {k : Kernel} {b : BlockId} (hb : b < k.blocks.size)
    (f : Block → Block) : (k.update b f).block b = f (k.block b) := by
  simp [block_update, hb]

theorem block_update_of_ne {k : Kernel} {b c : BlockId} (hc : c ≠ b) (f : Block → Block) :
    (k.update b f).block c = k.block c := by
  simp [block_update, hc]

/-- What a change leaves alone in the block it is made to, it leaves alone in all. -/
theorem view_update {α : Type} {k : Kernel} {b : BlockId} {f : Block → Block} (g : Block → α)
    (hg : g (f (k.block b)) = g (k.block b)) (c : BlockId) :
    g ((k.update b f).block c) = g (k.block c) := by
  rw [block_update]
  split
  · next hc => rw [hc.1, hg]
  · rfl

theorem size_of_add {k k' : Kernel} {block : Block} (hb : k'.blocks = k.blocks.add block) :
    k'.blocks.size = k.blocks.size + 1 := by
  rw [hb, BlockStore.size_add]

theorem block_of_add {k k' : Kernel} {block : Block} (hb : k'.blocks = k.blocks.add block)
    (c : BlockId) : k'.block c = if c = k.blocks.size then block else k.block c := by
  rw [Kernel.block, hb, BlockStore.get_add]
  rfl

theorem block_of_add_of_lt {k k' : Kernel} {block : Block}
    (hb : k'.blocks = k.blocks.add block) {c : BlockId} (hc : c < k.blocks.size) :
    k'.block c = k.block c := by
  rw [block_of_add hb, if_neg (Nat.ne_of_lt hc)]

theorem block_of_size_le {k : Kernel} {b : BlockId} (hb : k.blocks.size ≤ b) :
    k.block b = default :=
  BlockStore.get_of_size_le _ hb

/-- What a new block has in common with one that is not made yet, all blocks keep. -/
theorem view_of_add {α : Type} {k k' : Kernel} {block : Block} {g : Block → α}
    (hb : k'.blocks = k.blocks.add block) (hg : g block = g default) (c : BlockId) :
    g (k'.block c) = g (k.block c) := by
  rw [block_of_add hb]
  split
  · next hc => rw [hc, block_of_size_le (Nat.le_refl _), hg]
  · rfl

/-- A block that is not made yet has no references. -/
theorem lt_of_refCount_ne_zero {k : Kernel} {b : BlockId} (hz : (k.block b).refCount ≠ 0) :
    b < k.blocks.size := by
  refine Nat.lt_of_not_le fun hle => hz ?_
  rw [block_of_size_le hle]
  rfl

/-- A change that leaves a block as it was is none. -/
theorem update_eq_self {k : Kernel} {b : BlockId} {f : Block → Block}
    (hf : f (k.block b) = k.block b) :
    k.update b f = k := by
  have hset : k.blocks.blocks.setIfInBounds b (k.block b) = k.blocks.blocks := by
    refine Array.ext (by simp) fun i _ hi => ?_
    rw [Array.getElem_setIfInBounds]
    split
    · next hbi =>
      subst hbi
      simp [block, BlockStore.get, hi]
    · rfl
  have hb : k.blocks.update b f = k.blocks := by
    rw [BlockStore.update, ← block, hf, BlockStore.set, hset]
  rw [update, hb]

theorem update_update {k : Kernel} {b : BlockId} (hlt : b < k.blocks.size)
    (f g : Block → Block) :
    (k.update b f).update b g = k.update b fun block => g (f block) := by
  have hself : g ((k.update b f).block b) = g (f (k.block b)) :=
    congrArg g (block_update_self hlt f)
  have hset : (k.blocks.blocks.setIfInBounds b (f (k.block b))).setIfInBounds b
      (g ((k.update b f).block b)) = k.blocks.blocks.setIfInBounds b (g (f (k.block b))) := by
    rw [Array.setIfInBounds_setIfInBounds, hself]
  exact congrArg (fun blocks => { k with blocks := ⟨blocks⟩ }) hset

/-! ### Quiet operations -/

/-- No block is made, and none changes but in its count and the fate of its task. -/
structure Quiet (k k' : Kernel) : Prop where
  size : k'.blocks.size = k.blocks.size
  core : ∀ b, (k'.block b).core = (k.block b).core

namespace Quiet

variable {k k' k'' : Kernel}

theorem refl (k : Kernel) : k.Quiet k := ⟨rfl, fun _ => rfl⟩

theorem trans (h : k.Quiet k') (h' : k'.Quiet k'') : k.Quiet k'' :=
  ⟨h'.size.trans h.size, fun b => (h'.core b).trans (h.core b)⟩

theorem of_table (h : k'.table = k.table) : k.Quiet k' :=
  ⟨size_eq_of_table h, fun b => by rw [block_eq_of_table h]⟩

theorem of_update (b : BlockId) (f : Block → Block) (hf : ∀ x, (f x).core = x.core) :
    k.Quiet (k.update b f) := by
  refine ⟨size_update .., fun c => ?_⟩
  rw [block_update]
  split
  · exact hf _
  · rfl

/-- The same change of a block on both sides. -/
theorem update (h : k.Quiet k') (b : BlockId) {f : Block → Block}
    (hf : ∀ x, (f x).core = f x.core) : (k.update b f).Quiet (k'.update b f) := by
  refine ⟨by rw [size_update, size_update, h.size], fun c => ?_⟩
  rw [block_update, block_update, h.size]
  split
  · rw [hf, hf, h.core]
  · exact h.core c

/-- Two changes that come to the same in the block they are made to. -/
theorem of_update_eq {b : BlockId} {f g : Block → Block}
    (h : (g (k.block b)).core = (f (k.block b)).core) : (k.update b f).Quiet (k.update b g) := by
  refine ⟨by rw [size_update, size_update], fun c => ?_⟩
  rw [block_update, block_update]
  split
  · next hc =>
    rw [hc.1]
    exact h
  · rfl

/-- What is in the core of a block stays, in all blocks, if the change of the one keeps it. -/
theorem view_of_update {α : Type} {b : BlockId} {f : Block → Block} (hq : (k.update b f).Quiet k')
    {g : Block → α} (hg : ∀ {x y : Block}, x.core = y.core → g x = g y)
    (hf : g (f (k.block b)) = g (k.block b)) (c : BlockId) : g (k'.block c) = g (k.block c) :=
  (hg (hq.core c)).trans (view_update g hf c)

/-- One change of a block on top of another. -/
theorem of_update_update (k : Kernel) (b : BlockId) (f g : Block → Block) :
    (k.update b fun x => g (f x)).Quiet ((k.update b f).update b g) := by
  refine ⟨by simp only [size_update], fun c => ?_⟩
  simp only [block_update, size_update]
  split <;> rfl

variable (h : k.Quiet k') (b : BlockId)
include h

theorem pid : (k'.block b).pid = (k.block b).pid := Block.pid_of_core (h.core b)

theorem parent : (k'.block b).parent = (k.block b).parent := Block.parent_of_core (h.core b)

theorem exiting : (k'.block b).exiting = (k.block b).exiting := Block.exiting_of_core (h.core b)

theorem exited : (k'.block b).exited = (k.block b).exited := Block.exited_of_core (h.core b)

theorem waiter : (k'.block b).waiter = (k.block b).waiter := Block.waiter_of_core (h.core b)

theorem reaped : (k'.block b).reaped = (k.block b).reaped := Block.reaped_of_core (h.core b)

theorem code : (k'.block b).code = (k.block b).code := Block.code_of_core (h.core b)

theorem state : (k'.block b).state = (k.block b).state := by
  rw [Block.state, Block.state, h.reaped, h.exited]

end Quiet

theorem quiet_discardTaskOf (k : Kernel) (b : BlockId) : k.Quiet (k.discardTaskOf b) := by
  unfold discardTaskOf
  split
  · exact .refl k
  · exact (Quiet.of_update b (fun x => { x with taskReleased := true }) fun _ => rfl).trans
      (.of_table rfl)

theorem quiet_freePid (k : Kernel) (b : BlockId) : k.Quiet (k.freePid b) := by
  unfold freePid
  split
  · exact ⟨rfl, fun _ => rfl⟩
  · exact ⟨rfl, fun _ => rfl⟩

theorem quiet_destroy (k : Kernel) (b : BlockId) : k.Quiet (k.destroy b) := by
  refine (quiet_freePid k b).trans (Quiet.trans ?_ (quiet_discardTaskOf _ b))
  exact ⟨rfl, fun _ => rfl⟩

/-- Giving a reference back counts down, and tears the block down at zero. -/
theorem release_eq (k : Kernel) (b : BlockId) : k.release b =
    if (k.block b).refCount = 1 then (true, (k.update b .released).destroy b)
    else (false, k.update b .released) := by
  have hr : k.release b = if (k.block b).refCount == 1
      then (true, (k.update b .released).destroy b) else (false, k.update b .released) := rfl
  by_cases h : (k.block b).refCount = 1 <;> simp [hr, h]

/-- A lookup whose reference is given back at once. -/
theorem release_retained {k : Kernel} {b : BlockId} (hz : (k.block b).refCount ≠ 0) :
    (k.update b .retained).release b = (false, k) := by
  have hlt := lt_of_refCount_ne_zero hz
  have hself : (k.update b .retained).block b = (k.block b).retained := block_update_self hlt _
  rw [release_eq, if_neg, update_update hlt, update_eq_self rfl]
  rw [hself]
  simp only [Block.retained]
  omega

theorem quiet_release (k : Kernel) (b : BlockId) : k.Quiet (k.release b).2 := by
  have hq : k.Quiet (k.update b .released) := .of_update b _ fun _ => rfl
  rw [release_eq]
  split
  · exact hq.trans (quiet_destroy ..)
  · exact hq

/-- Another reference comes to a block that has one; else there is a fault. -/
theorem retain_eq (k : Kernel) (b : BlockId) : k.retain b =
    if (k.block b).refCount = 0 then k.halt (.deadRetain (k.block b).pid)
    else k.update b .retained := by
  unfold retain BlockStore.retain
  by_cases h : (k.block b).refCount = 0
  · have h' : (k.blocks.get b).refCount = 0 := h
    simp only [h, h', if_true]
    rfl
  · have h' : (k.blocks.get b).refCount ≠ 0 := h
    simp only [h, h', if_false]
    rfl

theorem quiet_retain (k : Kernel) (b : BlockId) : k.Quiet (k.retain b) := by
  rw [retain_eq]
  split
  · exact ⟨rfl, fun _ => rfl⟩
  · exact .of_update b _ fun _ => rfl

/-- A lookup takes its reference in a live table from a block that has some. -/
theorem get_eq (k : Kernel) (pid : Pid) : k.get pid =
    match k.pids.lookup pid with
    | some b => if k.live ∧ (k.block b).refCount ≠ 0 then (some b, k.update b .retained)
        else (none, k)
    | none => (none, k) := by
  unfold get PidMap.getRetained
  by_cases hv : k.live
  · rw [if_pos hv]
    cases k.pids.lookup pid with
    | none => rfl
    | some b =>
      by_cases hz : (k.blocks.get b).refCount = 0
      · rw [Option.bind_some, BlockStore.tryRetain, if_pos hz]
        exact (if_neg fun h => h.2 hz).symm
      · rw [Option.bind_some, BlockStore.tryRetain, if_neg hz]
        exact (if_pos ⟨hv, hz⟩).symm
  · rw [if_neg hv]
    split <;> simp [hv]

theorem quiet_reserve (k : Kernel) : k.Quiet k.reserve.2 := by
  unfold reserve
  split
  · exact .refl k
  · split <;> exact ⟨rfl, fun _ => rfl⟩

theorem quiet_unreserve (k : Kernel) (pid : Pid) : k.Quiet (k.unreserve pid) := by
  unfold unreserve
  split <;> exact ⟨rfl, fun _ => rfl⟩

end Kernel

end Lifecycle
