import Lifecycle.Proofs.Host
import Lifecycle.Proofs.Kernel.Perishing

/-! The threads attached to the tasks of blocks. The host is called in order, and each task has
the threads that a crew list says: elementary changes that call the host about no task leave
the crews as they are, as long as no block is torn down that has one; the calls about tasks
change the crew of one block at a time. -/

namespace Lifecycle.Kernel

/-- The host was called in order, the task of each block that has one has as many threads as
`crew` says, and the threads started and ended are those in `work`. -/
structure Staffed (k : Kernel) (crew : BlockId → Nat) (work : List HostCall) : Prop where
  hosted : k.Hosted
  host : k.host = .replay k.calls
  heeded : Host.Heeded k.calls
  work : k.calls.filter HostCall.isWork = work
  housed : ∀ b, (k.block b).refCount ≠ 0 → (k.block b).taskReleased = false
  made : ∀ b, crew b ≠ 0 → b < k.blocks.size
  threads : ∀ b < k.blocks.size, ∀ record,
    k.host.task? (k.block b).task = some record → record.threads = crew b

variable {k k' : Kernel} {crew : BlockId → Nat} {work : List HostCall} {r r' : List Pid} {ds : List Release}

namespace Staffed

variable (h : k.Staffed crew work)
include h

/-- A block that has references has its task. -/
theorem contains {b : BlockId} (hz : (k.block b).refCount ≠ 0) :
    k.host.tasks.contains (k.block b).task = true :=
  (h.hosted.known _).2 ⟨b, lt_of_refCount_ne_zero hz, rfl, h.housed b hz⟩

/-- Nothing changes for the tasks, and no block gets its first reference. -/
theorem congr (hs : k'.blocks.size = k.blocks.size)
    (ht : ∀ b, (k'.block b).task = (k.block b).task)
    (hr : ∀ b, (k'.block b).taskReleased = (k.block b).taskReleased)
    (hz : ∀ b, (k'.block b).refCount ≠ 0 → (k.block b).refCount ≠ 0)
    (hh : k'.host = k.host) (hc : k'.calls = k.calls) : k'.Staffed crew work where
  hosted := h.hosted.congr hs ht hr (by rw [hh]) (by simp [hh])
  host := by rw [hh, hc, h.host]
  heeded := hc ▸ h.heeded
  work := hc ▸ h.work
  housed b hb := (hr b).trans (h.housed b (hz b hb))
  made b hb := hs.symm ▸ h.made b hb
  threads b hb := by
    rw [hh, ht]
    exact h.threads b (hs ▸ hb)

theorem tame (ht : k.Tame k') : k'.Staffed crew work :=
  h.congr ht.size ht.task ht.taskReleased (fun b => mt (ht.vacant b).2) ht.host ht.calls

theorem alongside (ha : k.Alongside k') : k'.Staffed crew work := by
  have hb := ha.block
  refine h.congr (congrArg BlockStore.size ha.blocks) ?_ ?_ ?_ ha.host ha.calls
  · exact fun b => congrArg Block.task (hb b)
  · exact fun b => congrArg Block.taskReleased (hb b)
  · exact fun b => hb b ▸ id

theorem forgo (b : BlockId) : (k.update b .released).Staffed crew work := by
  refine h.congr (size_update ..) (view_update Block.task rfl)
    (view_update Block.taskReleased rfl) (fun c hc => ?_) rfl rfl
  rw [refCount_forgone] at hc
  omega

/-- A new block has a task without threads. -/
theorem make (p : Pid) (name : String) : (k.make p name none).2.Staffed crew work := by
  have hhost : (k.make p name none).2.host = (k.host.createTask name).2 :=
    host_install (k.createTask name none).2 (.fresh p name ⟨k.host.nextTask⟩)
  have hcalls : (k.make p name none).2.calls = .createTask name ⟨k.host.nextTask⟩ :: k.calls :=
    calls_install ..
  have hadd := blocks_make k p name
  have hself : (k.make p name none).2.block k.blocks.size = .fresh p name ⟨k.host.nextTask⟩ := by
    rw [block_of_add hadd, if_pos rfl]
  refine ⟨h.hosted.add hadd rfl rfl ?_ ?_, ?_, ?_, ?_, fun b hz => ?_, fun b hb => ?_,
    fun b hb record => ?_⟩
  · rw [hhost]
    rfl
  · intro t
    rw [hhost, contains_createTask]
  · rw [hhost, hcalls, Host.replay, Host.after, ← h.host]
  · rw [hcalls]
    exact ⟨by rw [← h.host]; rfl, h.heeded⟩
  · rw [hcalls]
    exact h.work
  · rcases Nat.lt_or_ge b k.blocks.size with hlt | hge
    · rw [block_of_add_of_lt hadd hlt] at hz ⊢
      exact h.housed b hz
    · have hlt := lt_of_refCount_ne_zero hz
      rw [size_of_add hadd] at hlt
      obtain rfl : b = k.blocks.size := Nat.le_antisymm (Nat.le_of_lt_succ hlt) hge
      rw [hself]
      rfl
  · rw [size_of_add hadd]
    exact Nat.lt_succ_of_lt (h.made b hb)
  · rw [size_of_add hadd] at hb
    rw [hhost, Host.task?_createTask]
    rcases Nat.lt_succ_iff_lt_or_eq.1 hb with hlt | rfl
    · rw [block_of_add_of_lt hadd hlt, if_neg fun he => ?_]
      · exact h.threads b hlt record
      · have hissued := h.hosted.issued b hlt
        rw [he] at hissued
        exact Nat.lt_irrefl _ hissued
    · have hnew : (Block.fresh p name ⟨k.host.nextTask⟩).task = (k.host.createTask name).1 := rfl
      rw [hself, if_pos hnew]
      rintro ⟨rfl⟩
      exact (not_ne_iff.1 fun hz => Nat.lt_irrefl _ (h.made _ hz)).symm

/-- A block without references or threads gives its task up. -/
theorem discardTaskOf {b : BlockId} (hb : b < k.blocks.size) (hcrew : crew b = 0)
    (hz : (k.block b).refCount = 0) : (k.discardTaskOf b).Staffed crew work := by
  have hsize : (k.discardTaskOf b).blocks.size = k.blocks.size := (quiet_discardTaskOf k b).size
  by_cases hr : (k.block b).taskReleased = true
  · rw [discardTaskOf_eq, if_pos hr]
    exact h
  have hknown := (h.hosted.known (k.block b).task).2 ⟨b, hb, rfl, Bool.eq_false_iff.2 hr⟩
  obtain ⟨record, hrecord⟩ := (k.host.contains_iff _).1 hknown
  have hthreads := h.threads b hb record hrecord
  have heq : k.discardTaskOf b = (k.update b Block.untasked).discardTask (k.block b).task := by
    rw [discardTaskOf_eq, if_neg hr]
  have hhost : (k.discardTaskOf b).host =
      (k.host.destroyFdTable (k.block b).task).destroyTask (k.block b).task := by
    rw [heq]
    rfl
  have hcalls : (k.discardTaskOf b).calls =
      .destroyTask (k.block b).task :: .destroyFdTable (k.block b).task :: k.calls := by
    rw [heq]
    rfl
  refine ⟨h.hosted.discardTaskOf hb, ?_, ?_, ?_, fun c hc => ?_, fun c hc => ?_,
    fun c hc rec hrec => ?_⟩
  · rw [hhost, hcalls]
    simp only [Host.replay, Host.after, ← h.host]
  · rw [hcalls]
    refine ⟨⟨{ record with openFiles := 0 }, ?_, by rw [← hcrew]; exact hthreads⟩, fun t ht => ?_,
      h.heeded⟩
    · simp only [Host.replay, Host.after, ← h.host]
      rw [Host.task?_destroyFdTable, if_pos rfl, hrecord]
      rfl
    · rw [List.mem_singleton.1 ht, ← h.host]
      exact hknown
  · rw [hcalls]
    exact h.work
  · rw [refCount_discardTaskOf] at hc
    rw [taskReleased_discardTaskOf hb, h.housed c hc, Bool.or_false, decide_eq_false_iff_not]
    rintro rfl
    exact hc hz
  · rw [hsize]
    exact h.made c hc
  · rw [task_discardTaskOf, h.hosted.task?_discardTaskOf hb] at hrec
    split at hrec
    · cases hrec
    · exact h.threads c (hsize ▸ hc) rec hrec

/-- A block without a crew may lose its last reference. -/
theorem release {b : BlockId} (hz : ((k.release b).2.block b).refCount = 0 → crew b = 0) :
    (k.release b).2.Staffed crew work := by
  rw [refCount_release, if_pos rfl] at hz
  rw [release_eq]
  split
  · next hn =>
    have hfree := alongside_freePid (k.update b .released) b
    have hunlinked : ∀ family : Family, (k.update b .released).Alongside
        { (k.update b .released).freePid b with family := family } :=
      fun family => ⟨hfree.blocks, hfree.host, hfree.calls⟩
    have hlt := lt_of_refCount_ne_zero (hn ▸ Nat.one_ne_zero : (k.block b).refCount ≠ 0)
    refine ((h.forgo b).alongside (hunlinked _)).discardTaskOf ?_ (hz (by omega)) ?_
    · rw [(hunlinked _).blocks, size_update]
      exact hlt
    · rw [(hunlinked _).block, refCount_forgone, if_pos rfl, hn]
  · exact h.forgo b

/-! ### Calls about tasks -/

/-- A call that is in order and makes and destroys no task. -/
theorem call (call : HostCall) {crew' : BlockId → Nat} (ht : k'.table = k.table)
    (hc : k'.calls = call :: k.calls) (hh : k'.host = k.host.after call)
    (ha : k.host.Admits call) (hn : k'.host.nextTask = k.host.nextTask)
    (hin : ∀ t, k'.host.tasks.contains t = k.host.tasks.contains t)
    (hmade : ∀ b, crew' b ≠ 0 → b < k.blocks.size)
    (hthreads : ∀ b < k.blocks.size, ∀ record, k'.host.task? (k.block b).task = some record →
      record.threads = crew' b) : k'.Staffed crew' ([call].filter HostCall.isWork ++ work) := by
  have hb := block_eq_of_table ht
  have hs := size_eq_of_table ht
  have hhosted := h.hosted.congr hs (fun b => congrArg Block.task (hb b))
    (fun b => congrArg Block.taskReleased (hb b)) hn hin
  refine ⟨hhosted, ?_, ?_, ?_, ?_, ?_, ?_⟩
  · rw [hh, hc, Host.replay, ← h.host]
  · rw [hc]
    exact ⟨h.host ▸ ha, h.heeded⟩
  · rw [hc, ← h.work]
    exact List.filter_append [call] k.calls
  · simpa only [hb] using h.housed
  · simpa only [hs] using hmade
  · simpa only [hs, hb] using hthreads

theorem refused (name : String) (errno : Errno) :
    (k.log (.refuseTask name errno)).Staffed crew work :=
  h.call (.refuseTask name errno) rfl rfl rfl (fun _ ht => absurd ht List.not_mem_nil) rfl
    (fun _ => rfl) h.made h.threads

/-- A call after which the tasks are as they were, but for what does not bear on threads. -/
theorem call_still (call : HostCall) (ht : k'.table = k.table)
    (hc : k'.calls = call :: k.calls) (hh : k'.host = k.host.after call)
    (ha : k.host.Admits call) (hn : k'.host.nextTask = k.host.nextTask)
    (hin : ∀ t, (k'.host.task? t).map (·.threads) = (k.host.task? t).map (·.threads)) :
    k'.Staffed crew ([call].filter HostCall.isWork ++ work) := by
  have hcontains : ∀ t, k'.host.tasks.contains t = k.host.tasks.contains t := fun t => by
    have hsome := congrArg Option.isSome (hin t)
    rwa [Option.isSome_map, Option.isSome_map] at hsome
  refine h.call call ht hc hh ha hn hcontains h.made fun b hb record hrecord => ?_
  have hthreads := hin (k.block b).task
  rw [hrecord, eq_comm, Option.map_some, Option.map_eq_some_iff] at hthreads
  obtain ⟨old, hold, heq⟩ := hthreads
  exact heq ▸ h.threads b hb old hold

theorem cloneAddressSpace {src dst : BlockId} (hsrc : (k.block src).refCount ≠ 0)
    (hdst : (k.block dst).refCount ≠ 0) (refusal : Option Errno) :
    (k.cloneAddressSpace (k.block src).task (k.block dst).task refusal).2.Staffed crew work := by
  have hs := h.contains hsrc
  have hd := h.contains hdst
  have hall : ∀ t ∈ [(k.block src).task, (k.block dst).task],
      k.host.tasks.contains t = true := by simp [hs, hd]
  have ht := table_cloneAddressSpace k (k.block src).task (k.block dst).task refusal
  have ha := Alike.cloneAddressSpace k (k.block src).task (k.block dst).task refusal
  cases refusal with
  | some errno =>
    exact h.call_still (.cloneAddressSpace _ _ (some errno)) ht rfl rfl hall rfl
      fun _ => rfl
  | none =>
    have hk : (k.host.cloneAddressSpace (k.block src).task (k.block dst).task).1 = none :=
      (k.host.answer_cloneAddressSpace ..).trans (if_pos ⟨hs, hd⟩)
    refine h.call_still (.cloneAddressSpace _ _ none) ht ?_ rfl hall ha.nextTask
      fun t => ?_
    · simp only [Kernel.cloneAddressSpace, log, hk]
    · change ((k.host.cloneAddressSpace _ _).2.task? t).map _ = _
      rw [Host.task?_cloneAddressSpace]
      split
      · exact Option.map_map ..
      · rfl

theorem cloneFdTable {src dst : BlockId} (hsrc : (k.block src).refCount ≠ 0)
    (hdst : (k.block dst).refCount ≠ 0) (refusal : Option Errno) :
    (k.cloneFdTable (k.block src).task (k.block dst).task refusal).2.Staffed crew work := by
  have hs := h.contains hsrc
  have hd := h.contains hdst
  have hall : ∀ t ∈ [(k.block src).task, (k.block dst).task],
      k.host.tasks.contains t = true := by simp [hs, hd]
  have ht := table_cloneFdTable k (k.block src).task (k.block dst).task refusal
  have ha := Alike.cloneFdTable k (k.block src).task (k.block dst).task refusal
  cases refusal with
  | some errno =>
    exact h.call_still (.cloneFdTable _ _ (some errno)) ht rfl rfl hall rfl fun _ => rfl
  | none =>
    have hk : (k.host.cloneFdTable (k.block src).task (k.block dst).task).1 = none :=
      (k.host.answer_cloneFdTable ..).trans (if_pos ⟨hs, hd⟩)
    refine h.call_still (.cloneFdTable _ _ none) ht ?_ rfl hall ha.nextTask fun t => ?_
    · simp only [Kernel.cloneFdTable, log, hk]
    · change ((k.host.cloneFdTable _ _).2.task? t).map _ = _
      rw [Host.task?_cloneFdTable]
      split
      · exact Option.map_map ..
      · rfl

/-- A thread is started unless the call is refused. -/
theorem spawnThread {b : BlockId} (hz : (k.block b).refCount ≠ 0) (refusal : Option Errno) :
    (k.spawnThread (k.block b).task refusal).2.Staffed crew
      (if refusal = none then .spawn (k.block b).task none :: work else work) := by
  have hb := h.contains hz
  have hall : ∀ t ∈ [(k.block b).task], k.host.tasks.contains t = true := by simp [hb]
  cases refusal with
  | some errno =>
    exact h.call_still (.spawn _ (some errno)) rfl rfl rfl hall rfl fun _ => rfl
  | none =>
    obtain ⟨record, hrecord⟩ := (k.host.contains_iff _).1 hb
    have hspawn : k.host.spawn (k.block b).task = (.ok (Host.threadName record),
        (k.host.spawn (k.block b).task).2) := by
      simp [Host.spawn, hrecord]
    have hk : (k.spawnThread (k.block b).task none).2 =
        { k with host := (k.host.spawn (k.block b).task).2 }.log (.spawn (k.block b).task none) := by
      unfold Kernel.spawnThread
      rw [hspawn]
    rw [hk]
    refine h.call_still (.spawn (k.block b).task none) rfl rfl rfl hall ?_ fun t => ?_
    · change (k.host.spawn _).2.nextTask = _
      simp [Host.spawn, hrecord]
    · change ((k.host.spawn _).2.tasks.get? t).map _ = _
      rw [Host.tasks_spawn]
      rfl

theorem terminateThread (task : TaskHandle) : (k.terminateThread task).Staffed crew
    (.terminate task :: work) :=
  h.call_still (.terminate task) rfl rfl rfl trivial rfl fun _ => rfl

/-- A thread is attached to the task of a block, or detached from it. -/
theorem recrew {b : BlockId} (call : HostCall) {f : TaskRecord → TaskRecord} {n : Nat}
    (hz : (k.block b).refCount ≠ 0) (ht : k'.table = k.table) (hc : k'.calls = call :: k.calls)
    (hh : k'.host = k.host.after call) (hcall : call.tasks = [(k.block b).task])
    (ha : (∀ t ∈ call.tasks, k.host.tasks.contains t = true) → k.host.Admits call)
    (hn : k'.host.nextTask = k.host.nextTask)
    (hf : k'.host.tasks = k.host.tasks.modify (k.block b).task f)
    (hthreads : ∀ record, record.threads = crew b → (f record).threads = n) :
    k'.Staffed (Function.update crew b n) ([call].filter HostCall.isWork ++ work) := by
  have hb := h.contains hz
  have hlt := lt_of_refCount_ne_zero hz
  refine h.call call ht hc hh (ha ?_) hn (fun t => ?_) (fun c hcrew => ?_) fun c hlt' record hrecord => ?_
  · rw [hcall]
    simp [hb]
  · rw [hf]
    exact Assoc.contains_modify ..
  · by_cases hcb : c = b
    · exact hcb ▸ hlt
    · rw [Function.update_of_ne hcb] at hcrew
      exact h.made c hcrew
  · simp only [Host.task?, hf, Assoc.get?_modify] at hrecord
    by_cases hcb : c = b
    · subst hcb
      rw [if_pos rfl, Option.map_eq_some_iff] at hrecord
      obtain ⟨old, hold, rfl⟩ := hrecord
      rw [Function.update_self]
      exact hthreads old (h.threads c hlt' old hold)
    · rw [if_neg fun he => hcb (h.hosted.distinct c hlt' b hlt he)] at hrecord
      rw [Function.update_of_ne hcb]
      exact h.threads c hlt' record hrecord

theorem attachThread {b : BlockId} (hz : (k.block b).refCount ≠ 0) (pid : Pid) :
    (k.attachThread (k.block b).task pid).Staffed (Function.update crew b (crew b + 1)) work :=
  h.recrew (.attach (k.block b).task pid)
    (f := fun record => { record with threads := record.threads + 1, pid := some pid })
    hz rfl rfl rfl rfl id rfl rfl fun _ => congrArg (· + 1)

theorem detachThread {b : BlockId} (hz : (k.block b).refCount ≠ 0) :
    (k.detachThread (k.block b).task).Staffed (Function.update crew b (crew b - 1)) work :=
  h.recrew (.detach (k.block b).task)
    (f := fun record => { record with threads := record.threads - 1 })
    hz rfl rfl rfl rfl id rfl rfl fun _ => congrArg (· - 1)

end Staffed

/-! ### Changes without calls about tasks -/

/-- The crews stay as they are if every block that has one keeps references. -/
theorem Change.staffed (hd : k.Change False r ds k' r') (h : k.Staffed crew work)
    (hz : ∀ b, crew b ≠ 0 → (k'.block b).refCount ≠ 0) : k'.Staffed crew work := by
  cases hd with
  | tame ht => exact h.tame ht
  | called hb hc => exact hb.elim
  | refused => exact h.refused ..
  | reserved got =>
    have hsame := alongside_reserve k
    rw [got] at hsame
    exact h.alongside hsame
  | unreserved => exact h.alongside (alongside_unreserve ..)
  | made => exact h.make ..
  | shut hb => exact hb.elim
  | released => exact h.release fun hlast => not_ne_iff.1 fun hcrew => hz _ hcrew hlast
  | forgone => exact h.forgo _

theorem Does.staffed (hd : k.Does False r ds k' r') (h : k.Staffed crew work)
    (hz : ∀ b, crew b ≠ 0 → (k'.block b).refCount ≠ 0) : k'.Staffed crew work := by
  induction hd with
  | done => exact h
  | @next k k₁ k' _ _ _ _ _ change rest ih =>
    refine ih (change.staffed h fun b hcrew hdead => ?_) hz
    exact hz b hcrew (rest.dead (Nat.lt_of_lt_of_le (h.made b hcrew) change.size_le) hdead).1

theorem Evolves.staffed (he : k.Evolves False k') (h : k.Staffed crew work)
    (hz : ∀ b, crew b ≠ 0 → (k'.block b).refCount ≠ 0) : k'.Staffed crew work :=
  (he []).elim fun _ hd => hd.staffed h hz

/-! ### Forks -/

/-- The crews once a fork has gone on: the child gets its thread with its link, and loses it if
no thread can be started in its task. -/
def crewed (crew : BlockId → Nat) : Pending → Progress → BlockId → Nat
  | .forkFiles _ child, .stopped _ => Function.update crew child (crew child + 1)
  | .forkThread _ child, .failed _ => Function.update crew child (crew child - 1)
  | _, _ => crew

/-- The threads started and ended by then. -/
def worked (k : Kernel) (work : List HostCall) : Pending → Progress → List HostCall
  | .forkThread _ child, .forked _ _ => .spawn (k.block child).task none :: work
  | _, _ => work

/-- A call that the host refuses changes no crew, but the thread that is not started is no longer
in its own. -/
theorem Staffed.of_refused (h : k.Staffed crew work) {pending : Pending} {refusal : Option Errno}
    (refused : k.Refused refusal pending k')
    (hnamed : ∀ b, pending.parent? = some b ∨ pending.child? = some b →
      (k.block b).refCount ≠ 0) (error : ProcessError) :
    k'.Staffed (crewed crew pending (.failed error)) (k.worked work pending (.failed error)) := by
  cases refused with
  | space called =>
    have hcloned := h.cloneAddressSpace (hnamed _ (Or.inl rfl)) (hnamed _ (Or.inr rfl)) refusal
    rw [called] at hcloned
    exact hcloned
  | files called =>
    have hcloned := h.cloneFdTable (hnamed _ (Or.inl rfl)) (hnamed _ (Or.inr rfl)) refusal
    rw [called] at hcloned
    exact hcloned
  | @spawn parent child errno k₁ called =>
    have hchild := hnamed child (Or.inr rfl)
    have hspawn := h.spawnThread hchild refusal
    have hsome : refusal ≠ none := by
      rintro rfl
      obtain ⟨record, hrecord⟩ := (k.host.contains_iff _).1 (h.contains hchild)
      simp [Kernel.spawnThread, Host.spawn, hrecord] at called
    rw [called, if_neg hsome] at hspawn
    refine hspawn.detachThread ?_
    rw [block_eq_of_table (Called.spawn called).table]
    exact hchild

/-- A fork or creation that goes on changes the crew of its child at most, if the blocks that
it names have references and so has at its end every block with a crew. -/
theorem Staffed.resume (h : k.Staffed crew work) (pending : Pending) (refusal : Option Errno)
    (hnamed : ∀ b, pending.parent? = some b ∨ pending.child? = some b →
      (k.block b).refCount ≠ 0)
    (hz : ∀ b, crewed crew pending (k.resume pending refusal).1 b ≠ 0 →
      ((k.resume pending refusal).2.block b).refCount ≠ 0) :
    (k.resume pending refusal).2.Staffed (crewed crew pending (k.resume pending refusal).1)
      (k.worked work pending (k.resume pending refusal).1) := by
  have hr := k.resumes pending refusal
  generalize k.resume pending refusal = out at hr hz ⊢
  cases hr with
  | uncreated made =>
    obtain ⟨ds, hd⟩ := does_make made []
    exact hd.staffed h hz
  | created made =>
    obtain ⟨ds, hd⟩ := does_make made []
    exact hd.staffed h hz
  | @unborn parent _ _ k' made =>
    obtain ⟨ds, hd⟩ := does_make made []
    exact (hd.trans (does_release k' parent [])).staffed h hz
  | born made =>
    obtain ⟨ds, hd⟩ := does_make made []
    exact hd.staffed h hz
  | @unwound _ parent child error k' held flight refused =>
    exact (evolves_unwind k' child parent (.failed error)).staffed
      (h.of_refused refused hnamed error) hz
  | copied space =>
    have hcloned := h.cloneAddressSpace (hnamed _ (Or.inl rfl)) (hnamed _ (Or.inr rfl)) refusal
    rw [space] at hcloned
    exact hcloned
  | @linked parent child k' files =>
    have hchild := hnamed child (Or.inr rfl)
    have hcloned := h.cloneFdTable (hnamed parent (Or.inl rfl)) hchild refusal
    rw [files] at hcloned
    have hl := k'.links parent child
    generalize k'.linkChild parent child = out at hl hz ⊢
    cases hl with
    | @unwound error => exact (evolves_unwind k' child parent (.failed error)).staffed hcloned hz
    | attached =>
      have ht := tame_attach k' child parent
      refine (hcloned.tame ht).attachThread (fun hdead => hchild ?_) _
      rw [← block_eq_of_table (Called.files files).table]
      exact (ht.vacant child).1 hdead
  | @complete parent child _ k' spawned =>
    have hspawn := h.spawnThread (hnamed child (Or.inr rfl)) refusal
    rw [spawned, if_pos (task_of_spawnThread spawned).1] at hspawn
    exact (evolves_release k' parent).staffed hspawn hz

/-! ### Sound tables -/

/-- A thread for the kernel, and one for each forked process from its link until it leaves or
its fork is abandoned. -/
def roster (k : Kernel) (a : Account) (b : BlockId) : Nat :=
  if b = root ∨ (a.forker b).isSome = true ∧ b ∉ a.half ∧ (k.block b).exited = false then 1 else 0

variable {a : Account}

/-- Whoever has a thread has references. -/
theorem Sound.refCount_of_roster (hs : k.Sound a) {b : BlockId} (hb : k.roster a b ≠ 0) :
    (k.block b).refCount ≠ 0 := by
  unfold roster at hb
  split at hb
  · next hc =>
    rcases hc with rfl | ⟨hforked, -, hexited⟩
    · exact hs.counted.counted hs.lookup_root
    · obtain ⟨q, hq⟩ := Option.isSome_iff_exists.1 hforked
      have hr : (k.block b).reaped = false := Bool.eq_false_iff.2 fun hr =>
        absurd (hs.ordered.exited b hr) (Bool.eq_false_iff.1 hexited)
      exact hs.counted.counted (hs.lookup_of_forker hq hr)
  · exact absurd rfl hb

theorem roster_congr {a' : Account} {b : BlockId} (hf : a'.forker b = a.forker b)
    (hh : b ∈ a'.half ↔ b ∈ a.half) (he : (k'.block b).exited = (k.block b).exited) :
    k'.roster a' b = k.roster a b := by
  simp only [roster, hf, hh, he]

/-- While the children of a process that leaves are handed on, everybody has a thread still. -/
theorem Sound.refCount_of_rearranged (hs : k.Sound a) (ha : a.adrift = []) {b q : BlockId}
    (hi : k.pids.lookup (k.block b).pid = some b) (hq : a.forker b = some q) (hh : b ∉ a.half)
    (he : (k.block b).exiting = false) {x : BlockId} (hx : k.roster a x ≠ 0) :
    ((((k.update b .retained).beginExit b).rearrangeChildren (k.block b).pid).block x).refCount
      ≠ 0 := by
  have hq₁ : k.Quiet (k.update b .retained) := .of_update b _ fun _ => rfl
  have hs₁ := hs.retained hi
  have hbegin := hs₁.beginExit hq (by rw [hq₁.pid]; exact hi) ((hq₁.exiting b).trans he)
  have hs₂ := hs₁.rise (f := Block.leaving) (Block.rises_leaving (hs₁.ordered.exited b)) rfl
    fun _ => ⟨hh, q, hq⟩
  have hq₂ := hq₁.update b (f := Block.leaving) fun _ => rfl
  have hpid : (((k.update b .retained).update b .leaving).block b).pid = (k.block b).pid :=
    hq₂.view_of_update Block.pid_of_core rfl b
  have hexiting : (((k.update b .retained).update b .leaving).block b).exiting = true := by
    rw [hq₂.exiting, block_update_self (hs.placed.own hi).1]
    rfl
  have hexited : ∀ y, (((k.update b .retained).update b .leaving).block y).exited =
      (k.block y).exited := fun y =>
    hq₂.view_of_update Block.exited_of_core rfl y
  have hi₂ : ((k.update b .retained).update b .leaving).pids.lookup (k.block b).pid = some b := hi
  rw [hbegin]
  generalize (k.update b .retained).update b .leaving = k₂ at *
  obtain ⟨hs₃, -, hcore⟩ := hs₂.rearrangeChildren ha (hs.ne_root_of_forker hq)
    (by rw [hpid]; exact hi₂) hexiting
  rw [hpid] at hs₃ hcore
  refine hs₃.refCount_of_roster (b := x) ?_
  have hsame : ((k₂.rearrangeChildren (k.block b).pid).block x).exited = (k.block x).exited := by
    rw [Block.exited_of_core (hcore x), ← hexited]
    split
    · exact Block.rehomed_exited _
    · rfl
  have hcrew : (k₂.rearrangeChildren (k.block b).pid).roster (a.owe b) x = k.roster a x :=
    roster_congr rfl .rfl hsame
  rw [hcrew]
  exact hx

/-- A process that leaves loses its thread, which is terminated. -/
theorem Sound.staffed_exitThread (hs : k.Sound a) (ha : a.adrift = []) {pid : Pid}
    {b q : BlockId} (hl : k.pids.lookup pid = some b) (hq : a.forker b = some q)
    (hh : b ∉ a.half) (he : (k.block b).exiting = false) (status : ExitStatus)
    (h : k.Staffed (k.roster a) work) :
    (k.exitThread pid status).2.Staffed (Function.update (k.roster a) b 0)
      (.terminate (k.block b).task :: work) := by
  have found := hs.found hl
  obtain ⟨k₃, hk₃, hs₃, -, hcore⟩ := hs.exit ha hl hq hh he status.encode
  have hleft : k₃.Staffed (Function.update (k.roster a) b 0) work := by
    -- the thread is lost once the children are handed on and the status is published
    obtain ⟨k₁, ht, hpublished⟩ := evolves_publishExit
      (((k.update b .retained).beginExit b).rearrangeChildren (k.block b).pid) b status.encode
    have hheld : ∀ x, k.roster a x ≠ 0 → (k₁.block x).refCount ≠ 0 := fun x hx hdead =>
      hs.refCount_of_rearranged ha (hs.lookup_of_installed hl) hq hh he hx ((ht.vacant x).1 hdead)
    have hone : k.roster a b = 1 := by
      have hx := hs.exited_of_not_exiting he
      simp [roster, hq, hh, hx]
    have h₁ := (((evolves_rearranged found).trans ht.evolves).staffed h hheld).detachThread
      (hheld b (by omega))
    rw [hone] at h₁
    cases published : (((k.update b .retained).beginExit b).rearrangeChildren
        (k.block b).pid).publishExit b status.encode with
    | mk path k₂ =>
      rw [published] at hpublished
      cases hk₃.symm.trans (exit_of_found found published)
      refine (hpublished.trans (evolves_release k₂ b)).staffed h₁ fun x hx => ?_
      refine hs₃.refCount_of_roster (b := x) ?_
      by_cases hxb : x = b
      · exact absurd (hxb ▸ Function.update_self ..) hx
      · rw [Function.update_of_ne hxb] at hx
        have hsame : ((k₂.release b).2.block x).exited = (k.block x).exited :=
          (Block.exited_of_core (hcore x)).trans (departure_exited_of_ne hxb ..)
        rwa [roster_congr rfl .rfl hsame]
  rw [exitThread_of_found found, hk₃]
  exact hleft.terminateThread _

/-- A table comes up with a thread for the kernel, which nobody started. -/
theorem staffed_boot {config : Config} {refusal : Option Errno}
    (hb : Kernel.boot config refusal = .ok k) : k.Staffed (k.roster .initial) [] := by
  obtain ⟨hblocks, hhost⟩ := host_boot hb
  have hcalls := calls_boot hb
  have hroot : k.block root = .kernel config.kernelName ⟨1⟩ := by
    rw [Kernel.block, hblocks]
    rfl
  have hlt : ∀ b, b < k.blocks.size → b = root := by
    intro b hlt
    rw [hblocks] at hlt
    exact Nat.lt_one_iff.1 hlt
  have honly : ∀ b, k.roster .initial b = if b = root then 1 else 0 := fun b => by
    simp [roster, Account.initial]
  have hfirst : ((Host.createTask {} config.kernelName).2.tasks.contains ⟨1⟩) = true :=
    (contains_createTask ..).trans rfl
  refine ⟨(intact_boot hb).hosted, ?_, ?_, ?_, fun b hz => ?_, fun b hne => ?_,
    fun b hlt' record hrecord => ?_⟩
  · rw [hhost, hcalls]
    rfl
  · rw [hcalls]
    refine ⟨fun t ht => ?_, rfl, trivial⟩
    rw [List.mem_singleton.1 ht]
    exact hfirst
  · rw [hcalls]
    rfl
  · rw [hlt b (lt_of_refCount_ne_zero hz), hroot]
    rfl
  · rw [honly] at hne
    rw [hblocks, show b = root from by_contra fun hb => hne (if_neg hb)]
    exact Nat.one_pos
  · have htask : (k.block b).task = ⟨1⟩ := by
      rw [hlt b hlt', hroot]
      rfl
    rw [htask, hhost, Host.task?_attach, if_pos rfl, Option.map_eq_some_iff] at hrecord
    obtain ⟨old, hold, rfl⟩ := hrecord
    have hnew : (⟨1⟩ : TaskHandle) = (Host.createTask {} config.kernelName).1 := rfl
    rw [Host.task?_createTask, if_pos hnew] at hold
    rw [honly, if_pos (hlt b hlt'), ← Option.some.inj hold]

end Lifecycle.Kernel
