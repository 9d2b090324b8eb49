import Lifecycle.Proofs.Kernel.Hale
import Lifecycle.Proofs.Session.Wakeup

/-! What a wait comes to, told from the table before it: its checks in their order, and what is
left behind. Whoever is refused leaves no trace, and whoever collects a status takes the table's
reference on the block away, and the block with it if that was the last. -/

namespace Lifecycle

/-- What a wait comes to. -/
inductive Verdict
  | refused (error : ProcessError)
  | collects (b : BlockId)
  | sleeps (b : BlockId)
deriving DecidableEq

/-- A block whose status a wait consumes. -/
def Block.consumed (x : Block) : Block := { x with waiter := true, reaped := true }

namespace Kernel

/-- Whom a target names in a live table; pid 0 cannot be named. -/
def named? (k : Kernel) (target : Int64) : Option BlockId :=
  if k.live ∧ 1 ≤ target.toInt ∧ target.toInt < k.pids.capacity
  then k.pids.lookup (UInt32.ofNat target.toInt.toNat) else none

/-- The first check that fails counts. -/
def verdict (k : Kernel) (caller : Pid) (target : Int64) (options : Int32) : Verdict :=
  if options ≠ 0 then .refused (.invalidOptions options)
  else match k.named? target with
    | none => .refused (.noSuchProcess target)
    | some b =>
      if (k.block b).parent ≠ some caller then .refused (.notChild (k.block b).pid caller)
      else if (k.block b).state = .reaped then .refused (.noSuchProcess target)
      else if (k.block b).waiter then .refused (.alreadyWaited (k.block b).pid)
      else if (k.block b).state = .zombie then .collects b
      else .sleeps b

/-- A block has been torn down: its pid is free, its links are gone, and its task is destroyed. -/
structure TearsDown (k : Kernel) (b : BlockId) (k' : Kernel) : Prop where
  config : k'.config = k.config
  live : k'.live = k.live
  fault : k'.fault = k.fault
  capacity : k'.pids.capacity = k.pids.capacity
  free : k'.pids.free = k.pids.free + 1
  found : ∀ q, k'.pids.lookup q = if q = (k.block b).pid then none else k.pids.lookup q
  taken : ∀ q, k'.pids.isAllocated q =
    (decide (q ≠ (k.block b).pid) && k.pids.isAllocated q)
  childrenOf : ∀ q, k'.family.childrenOf q =
    (k.family.childrenOf q).filter (· ≠ (k.block b).pid)
  parentLink? : ∀ c, k'.family.parentLink? c =
    if c = (k.block b).pid then none else k.family.parentLink? c
  host : k'.host = (k.host.destroyFdTable (k.block b).task).destroyTask (k.block b).task
  destroyed : k'.host.counters =
    { k.host.counters with destroyed := k.host.counters.destroyed + 1 }
  calls : k'.calls = .destroyTask (k.block b).task :: .destroyFdTable (k.block b).task :: k.calls

/-- A wait has consumed the status of a block: it is reaped, and the table's reference on it is
gone. It is torn down if that was the last, and else nothing but the block has changed. -/
structure Consumes (k : Kernel) (b : BlockId) (k' : Kernel) : Prop where
  size : k'.blocks.size = k.blocks.size
  reaped : (k'.block b).state = .reaped
  refCount : (k'.block b).refCount = (k.block b).refCount - 1
  others : ∀ x ≠ b, k'.block x = k.block x
  held : (k.block b).refCount ≠ 1 → k' = k.update b fun x =>
    { x with waiter := true, reaped := true, refCount := x.refCount - 1 }
  torn : (k.block b).refCount = 1 → k.TearsDown b k' ∧ k'.block b =
    { k.block b with waiter := true, reaped := true, refCount := 0, taskReleased := true }

variable {k : Kernel} {r : List Pid} {a : Account} {b : BlockId} {target : Int64}

/-! ### Whom a target names -/

theorem named?_eq_some_iff : k.named? target = some b ↔
    k.live = true ∧ ∃ pid, k.targetPid? target = some pid ∧ k.pids.lookup pid = some b := by
  unfold named? targetPid?
  have hpositive : 1 ≤ target.toInt ↔ 0 < target.toInt := .rfl
  simp only [hpositive]
  by_cases ht : 0 < target.toInt ∧ target.toInt < k.pids.capacity
  · simp [ht]
  · simp [ht]

theorem named?_of_dead (hl : k.live = false) (target : Int64) : k.named? target = none :=
  if_neg fun h => Bool.false_ne_true (hl.symm.trans h.1)

/-- The lookup of a wait finds whom the target names. -/
theorem Intact.found_named (h : k.Intact r) (hb : k.named? target = some b) :
    k.targetPid? target = some (k.block b).pid ∧ k.Found (k.block b).pid b := by
  obtain ⟨hlive, pid, ht, hl⟩ := named?_eq_some_iff.1 hb
  rw [(h.own hl).2]
  exact ⟨ht, hlive, hl, h.counted hl⟩

theorem wait_unnamed (hb : k.named? target = none) (caller : Pid) :
    k.wait caller target 0 = (.done (.error (.noSuchProcess target)), k) := by
  unfold Kernel.wait
  rw [if_neg (fun hne => hne rfl)]
  cases ht : k.targetPid? target with
  | none => rfl
  | some pid =>
    have hl := k.looks pid
    dsimp only
    generalize k.get pid = out at hl ⊢
    cases hl with
    | missed => rfl
    | found found =>
      cases hb.symm.trans (named?_eq_some_iff.2 ⟨found.live, pid, ht, found.installed⟩)

/-- The pid of whom a target names is the target. -/
theorem Intact.signedPid_named (h : k.Intact r) (hb : k.named? target = some b) :
    signedPid (k.block b).pid = target ∧ (k.block b).refCount ≠ 0 := by
  obtain ⟨ht, found⟩ := h.found_named hb
  exact ⟨Session.signedPid_of_targetPid? h.placed.bound ht, found.counted⟩

/-! ### What a wait comes to -/

/-- A wait that collects takes one reference and gives two back: what remains is that the table's
goes, from a block that is reaped. -/
theorem collect_committed (hz : (k.block b).refCount ≠ 0) :
    ((k.update b .retained).update b .committed).collect b =
      (.ok ((k.block b).pid, (k.block b).code), ((k.update b .consumed).release b).2) := by
  have hlt := lt_of_refCount_ne_zero hz
  have hself : ((k.update b .retained).update b .committed).block b =
      (k.block b).retained.committed := by
    rw [block_update_self (by rwa [size_update]), block_update_self hlt]
  have hmerged : ((k.update b .retained).update b .committed).update b .collected =
      (k.update b .consumed).update b .retained := by
    simp only [update_update hlt]
    rfl
  have hconsumed : (k.update b .consumed).block b = (k.block b).consumed := block_update_self hlt _
  rw [collect_eq, hself, hmerged, release_retained (by rw [hconsumed]; exact hz)]
  rfl

theorem Intact.wait_named (h : k.Intact r) (hb : k.named? target = some b) (caller : Pid) :
    k.wait caller target 0 =
      match k.verdict caller target 0 with
      | .refused error => (.done (.error error), k)
      | .collects b =>
        (.done (.ok ((k.block b).pid, (k.block b).code)), ((k.update b .consumed).release b).2)
      | .sleeps b => (.asleep b, k.update b fun x => x.retained.committed) := by
  obtain ⟨named, found⟩ := h.found_named hb
  rw [wait_of_found named found, commitWait_retained found.counted,
    collect_committed found.counted, update_update found.lt, (h.signedPid_named hb).1]
  unfold verdict
  simp only [ne_eq, not_true_eq_false, if_false, hb, Block.state_eq_reaped_iff,
    Block.state_eq_zombie_iff]
  by_cases hp : (k.block b).parent = some caller
  · cases hr : (k.block b).reaped with
    | true => simp [hp]
    | false =>
      cases hw : (k.block b).waiter with
      | true => simp [hp]
      | false => cases he : (k.block b).exited <;> simp [hp]
  · simp [hp]

/-- A wait comes to what the table tells, whether it is live or shut down. -/
theorem Sane.wait_eq (h : k.Sane r) (caller : Pid) (target : Int64) (options : Int32) :
    k.wait caller target options =
      match k.verdict caller target options with
      | .refused error => (.done (.error error), k)
      | .collects b =>
        (.done (.ok ((k.block b).pid, (k.block b).code)), ((k.update b .consumed).release b).2)
      | .sleeps b => (.asleep b, k.update b fun x => x.retained.committed) := by
  by_cases ho : options = 0
  · subst ho
    cases hb : k.named? target with
    | none =>
      unfold verdict
      rw [wait_unnamed hb, if_neg (fun hne => hne rfl), hb]
    | some b =>
      rcases h with h | h
      · exact h.wait_named hb caller
      · cases (named?_of_dead h.down.live target).symm.trans hb
  · unfold Kernel.wait verdict
    rw [if_pos ho, if_pos ho]

/-- What a table shows of a block whose status a wait collects. -/
theorem verdict_collects {caller : Pid} {options : Int32}
    (hv : k.verdict caller target options = .collects b) : k.named? target = some b ∧
      (k.block b).state = .zombie := by
  unfold verdict at hv
  split at hv
  · cases hv
  · split at hv
    · cases hv
    · next c hc =>
      repeat' split at hv
      all_goals cases hv
      exact ⟨hc, by assumption⟩

theorem verdict_sleeps {caller : Pid} {options : Int32}
    (hv : k.verdict caller target options = .sleeps b) : k.named? target = some b ∧
      (k.block b).state = .running := by
  unfold verdict at hv
  split at hv
  · cases hv
  · split at hv
    · cases hv
    · next c hc =>
      repeat' split at hv
      all_goals cases hv
      refine ⟨hc, ?_⟩
      cases hs : (k.block b).state <;> simp_all

/-! ### The last reference -/

/-- A list loses a member exactly if it is forgotten. -/
theorem childrenOf_forget {f : Family} (h : f.Coherent) {pid : Pid}
    (hbarren : f.childrenOf pid = []) (q : Pid) :
    (f.forget pid).childrenOf q = (f.childrenOf q).filter (· ≠ pid) := by
  have hkept : f.parentLink? pid ≠ some q → (f.childrenOf q).filter (· ≠ pid) = f.childrenOf q :=
    fun hq => List.filter_eq_self.2 fun c hc => decide_eq_true fun hcp =>
      hq ((h.mirror pid q).2 (hcp ▸ hc))
  rw [Family.forget, Family.childrenOf_dropList, Family.childrenOf_unlink]
  by_cases hq : q = pid
  · rw [if_pos hq, hq, hbarren]
    rfl
  · rw [if_neg hq]
    split
    · rfl
    · next hl => exact (hkept hl).symm

theorem Intact.tearsDown (h : k.Intact r) (hn : (k.block b).refCount = 1)
    (hbarren : k.family.childrenOf (k.block b).pid = []) : k.TearsDown b (k.release b).2 := by
  have hlt := h.lt_of_refCount (b := b) (by omega)
  have hfound := h.installed b (by omega)
  have hpid : ((k.update b .released).block b).pid = (k.block b).pid :=
    view_update Block.pid rfl b
  have htask : ((k.update b .released).block b).task = (k.block b).task :=
    view_update Block.task rfl b
  have hreleased : ((k.update b .released).block b).taskReleased = false := by
    rw [view_update Block.taskReleased rfl, Bool.eq_false_iff]
    exact fun hr => absurd ((h.released b hlt).1 hr) (by omega)
  have hknown : (k.update b .released).host.tasks.contains (k.block b).task = true :=
    (h.hosted.known _).2 ⟨b, hlt, rfl, (view_update (k := k) (b := b) (f := .released)
      Block.taskReleased rfl b).symm.trans hreleased⟩
  obtain ⟨-, hcapacity, hfree, htaken, hlook, hfamily, hlive, hfault, -⟩ :=
    destroy_spec (k := k.update b .released) (b := b) h.valid (by rw [hpid]; exact hfound)
  rw [hpid] at htaken hlook hfamily
  have hrelease : (k.release b).2 = (k.update b .released).destroy b := by
    rw [release_eq, if_pos hn]
  -- pids and links go first, which the calls to the host do not see
  have hdiscard : ∃ k₁ : Kernel, (k.update b .released).destroy b =
      k₁.discardTask (k.block b).task ∧ k₁.host = k.host ∧ k₁.calls = k.calls ∧
        k₁.config = k.config := by
    obtain ⟨k₁, hk, hblocks, hhost, hcalls, hconfig⟩ : ∃ k₁ : Kernel,
        (k.update b .released).destroy b = k₁.discardTaskOf b ∧
          k₁.blocks = (k.update b .released).blocks ∧ k₁.host = k.host ∧ k₁.calls = k.calls ∧
          k₁.config = k.config := by
      refine ⟨_, rfl, ?_⟩
      unfold freePid
      split <;> exact ⟨rfl, rfl, rfl, rfl⟩
    have hblock : k₁.block b = (k.update b .released).block b :=
      congrArg (BlockStore.get · b) hblocks
    rw [discardTaskOf_eq, hblock, hreleased, htask, if_neg Bool.false_ne_true] at hk
    exact ⟨_, hk, hhost, hcalls, hconfig⟩
  obtain ⟨k₁, hk, hhost, hcalls, hconfig⟩ := hdiscard
  rw [hrelease]
  refine ⟨?_, hlive, hfault, hcapacity, hfree, hlook, htaken, fun q => ?_, fun c => ?_, ?_, ?_, ?_⟩
  · rw [hk]
    exact hconfig
  · rw [hfamily]
    exact childrenOf_forget h.family hbarren q
  · rw [hfamily]
    change (k.family.forget _).parentLink? c = _
    rw [Family.forget, Family.parentLink?_dropList, Family.parentLink?_unlink,
      Family.childrenOf_unlink, hbarren]
    simp
  · rw [hk, ← hhost]
    rfl
  · rw [counters_destroy hreleased (by rw [htask]; exact hknown)]
    rfl
  · rw [hk, ← hcalls]
    rfl

/-- A wait that collects a zombie, which has no children. -/
theorem Hale.consumes (h : k.Hale a) (hz : (k.block b).refCount ≠ 0)
    (hs : (k.block b).state = .zombie) :
    k.Consumes b ((k.update b .consumed).release b).2 := by
  have hlt := h.intact.lt_of_refCount hz
  have hself : (k.update b .consumed).block b = (k.block b).consumed := block_update_self hlt _
  have hquiet := quiet_release (k.update b .consumed) b
  have hcount := refCount_release (k.update b .consumed) b b
  refine ⟨hquiet.size.trans (size_update ..), ?_, ?_, fun x hx => ?_, fun hn => ?_, fun hn => ?_⟩
  · rw [hquiet.state, hself, Block.state_eq_reaped_iff]
    rfl
  · rw [hcount, hself, if_pos rfl]
    rfl
  · rw [release_eq]
    split
    · rw [block_destroy_of_ne hx, block_update_of_ne hx, block_update_of_ne hx]
    · rw [block_update_of_ne hx, block_update_of_ne hx]
  · rw [release_eq, if_neg (by rw [hself]; exact hn), update_update hlt]
    rfl
  · have hi : (k.update b .consumed).Intact a.reserved :=
      h.intact.alike (.of_update b _ fun _ => ⟨rfl, rfl, rfl, rfl⟩)
    have hbarren : k.family.childrenOf (k.block b).pid = [] :=
      List.eq_nil_iff_forall_not_mem.2 fun c hc => by
        obtain ⟨x, rfl, hx⟩ := h.intact.parentLink?_iff.1 ((h.intact.family.mirror c _).2 hc)
        exact h.tidy.tended hs hz x hx
    have hpid : ((k.update b .consumed).block b).pid = (k.block b).pid := by rw [hself]; rfl
    have htask : ((k.update b .consumed).block b).task = (k.block b).task := by rw [hself]; rfl
    have htorn := hi.tearsDown (b := b) (by rw [hself]; exact hn) (by rw [hpid]; exact hbarren)
    refine ⟨⟨htorn.config, htorn.live, htorn.fault, htorn.capacity, htorn.free,
      hpid ▸ htorn.found, hpid ▸ htorn.taken, hpid ▸ htorn.childrenOf, hpid ▸ htorn.parentLink?,
      htask ▸ htorn.host, htorn.destroyed, htask ▸ htorn.calls⟩, ?_⟩
    have hreleased : ((k.update b .consumed).update b .released).block b =
        (k.block b).consumed.released := by
      rw [block_update_self (by rwa [size_update]), hself]
    rw [release_eq, if_pos (by rw [hself]; exact hn),
      block_destroy_self (by rwa [size_update, size_update]), hreleased]
    · simp only [Block.untasked, Block.released, Block.consumed, hn]
    · rw [hreleased]
      exact Bool.eq_false_iff.2 fun hr => absurd ((h.intact.released b hlt).1 hr) hz

end Kernel

end Lifecycle
