import Lifecycle.Proofs.Kernel.Sane

/-! A fork that nothing interrupts either goes through or leaves no trace. It fails with the
error of the first of its stages that fails, and giving its child up then takes back all
that the stages before have done. -/

namespace Lifecycle

/-- How many calls to the host a fork or creation still has before it. -/
def Pending.left : Pending → Nat
  | .create _ _ => 1
  | .forkTask _ _ => 4
  | .forkSpace _ _ => 3
  | .forkFiles _ _ => 2
  | .forkThread _ _ => 1

theorem Pending.left_pos (pending : Pending) : 0 < pending.left := by
  cases pending <;> simp [left]

namespace Kernel

/-- The error of a fork whose call to a service is refused. -/
def refused? (refusal : HostService → Option Errno) (service : HostService) :
    Option ProcessError :=
  (refusal service).map (.host service)

/-- The error of a fork whose parent has begun to exit. -/
def unlinkable? (k : Kernel) (parent : BlockId) : Option ProcessError :=
  if (k.block parent).exiting then some (.noSuchProcess (signedPid (k.block parent).pid)) else none

/-- Why a fork or creation that has stopped fails if nothing comes in between: the stages
left to it in their order, and the first of them that does not go through. -/
def errorFrom? (k : Kernel) (refusal : HostService → Option Errno) :
    Pending → Option ProcessError
  | .create _ _ => refused? refusal .createTask
  | .forkTask parent _ => refused? refusal .createTask <|>
    refused? refusal .cloneAddressSpace <|> refused? refusal .cloneFdTable <|>
    k.unlinkable? parent <|> refused? refusal .spawn
  | .forkSpace parent _ => refused? refusal .cloneAddressSpace <|>
    refused? refusal .cloneFdTable <|> k.unlinkable? parent <|> refused? refusal .spawn
  | .forkFiles parent _ => refused? refusal .cloneFdTable <|> k.unlinkable? parent <|>
    refused? refusal .spawn
  | .forkThread _ _ => refused? refusal .spawn

/-- Why a fork fails that nothing interrupts. -/
def forkError? (k : Kernel) (pid : Pid) (refusal : HostService → Option Errno) :
    Option ProcessError :=
  if !k.live then some .shutDown
  else match k.pids.lookup pid with
    | none => some (.noSuchProcess (signedPid pid))
    | some parent =>
      if k.pids.free = 0 then some k.pids.exhausted
      else refused? refusal .createTask <|> refused? refusal .cloneAddressSpace <|>
        refused? refusal .cloneFdTable <|> k.unlinkable? parent <|> refused? refusal .spawn

/-- The second table is as the first was. A block that was made and torn down in between has
left nothing but two counts of the host. -/
structure Restored (k k' : Kernel) : Prop where
  live : k'.live = k.live
  fault : k'.fault = k.fault
  capacity : k'.pids.capacity = k.pids.capacity
  free : k'.pids.free = k.pids.free
  taken : ∀ p, k'.pids.isAllocated p = k.pids.isAllocated p
  installed : ∀ p, k'.pids.lookup p = k.pids.lookup p
  blocks : ∀ b < k.blocks.size, k'.block b = k.block b
  children : ∀ p, k'.family.childrenOf p = k.family.childrenOf p
  links : ∀ c, k'.family.parentLink? c = k.family.parentLink? c
  tasks : ∀ t, k'.host.task? t = k.host.task? t
  counters : ∃ n, k'.host.counters = { k.host.counters with
    created := k.host.counters.created + n
    destroyed := k.host.counters.destroyed + n }

variable {k k' k'' : Kernel} {r : List Pid} {p : Pid} {parent : BlockId}

theorem Restored.refl (k : Kernel) : k.Restored k :=
  ⟨rfl, rfl, rfl, rfl, fun _ => rfl, fun _ => rfl, fun _ _ => rfl, fun _ => rfl, fun _ => rfl,
    fun _ => rfl, 0, rfl⟩

/-- Given back, a reference that was taken leaves no trace either. -/
theorem Restored.release (hb : parent < k.blocks.size) (hz : (k.block parent).refCount ≠ 0)
    (h : (k.update parent .retained).Restored k') : k.Restored (k'.release parent).2 := by
  have hheld : (k'.block parent).refCount = (k.block parent).refCount + 1 := by
    rw [h.blocks parent (by rwa [size_update]), block_update_self hb]
    rfl
  have hlt : parent < k'.blocks.size := by
    refine Nat.lt_of_not_le fun hle => ?_
    rw [block_of_size_le hle] at hheld
    cases hheld
  rw [release_eq, if_neg (by omega)]
  refine ⟨h.live, h.fault, h.capacity, h.free, h.taken, h.installed, fun b hb' => ?_,
    h.children, h.links, h.tasks, h.counters⟩
  have hsame := h.blocks b (by rwa [size_update])
  by_cases hbp : b = parent
  · subst hbp
    rw [block_update_self hlt, hsame, block_update_self hb']
    rfl
  · rw [block_update_of_ne hbp, hsame, block_update_of_ne hbp]

/-! ### A fork under way -/

/-- A table to which a fork has added its child: there is one block more, at a pid that was
free, with a task that is new. -/
structure Underway (k : Kernel) (p : Pid) (k' : Kernel) : Prop where
  live : k'.live = k.live
  fault : k'.fault = k.fault
  vacant : k.pids.isAllocated p = false
  empty : k.pids.lookup p = none
  unknown : k.host.task? ⟨k.host.nextTask⟩ = none
  capacity : k'.pids.capacity = k.pids.capacity
  free : k'.pids.free + 1 = k.pids.free
  taken : ∀ q, k'.pids.isAllocated q = (decide (q = p) || k.pids.isAllocated q)
  installed : ∀ q, k'.pids.lookup q = if q = p then some k.blocks.size else k.pids.lookup q
  size : k'.blocks.size = k.blocks.size + 1
  blocks : ∀ b < k.blocks.size, k'.block b = k.block b
  pid : (k'.block k.blocks.size).pid = p
  refCount : (k'.block k.blocks.size).refCount = 1
  task : (k'.block k.blocks.size).task = ⟨k.host.nextTask⟩
  tasks : ∀ t ≠ ⟨k.host.nextTask⟩, k'.host.task? t = k.host.task? t
  counters : k'.host.counters = { k.host.counters with
    created := k.host.counters.created + 1 }
  children : ∀ q, (k'.family.forget p).childrenOf q = k.family.childrenOf q
  links : ∀ c, (k'.family.forget p).parentLink? c = k.family.parentLink? c

/-- Calls to the host that concern one task, and neither create nor destroy any. -/
structure Concerns (task : TaskHandle) (k k' : Kernel) : Prop where
  table : k'.table = k.table
  counters : k'.host.counters = k.host.counters
  others : ∀ t ≠ task, k'.host.task? t = k.host.task? t

namespace Concerns

variable {task : TaskHandle}

theorem trans (h : Concerns task k k') (h' : Concerns task k' k'') : Concerns task k k'' where
  table := h'.table.trans h.table
  counters := h'.counters.trans h.counters
  others t ht := (h'.others t ht).trans (h.others t ht)

theorem attachThread (k : Kernel) (task : TaskHandle) (pid : Pid) :
    Concerns task k (k.attachThread task pid) :=
  ⟨rfl, rfl, fun _ ht => (Host.task?_attach ..).trans (if_neg ht)⟩

theorem detachThread (k : Kernel) (task : TaskHandle) : Concerns task k (k.detachThread task) :=
  ⟨rfl, rfl, fun _ ht => (Host.task?_detach ..).trans (if_neg ht)⟩

theorem cloneAddressSpace (k : Kernel) (src task : TaskHandle) (refusal : Option Errno) :
    Concerns task k (k.cloneAddressSpace src task refusal).2 := by
  cases refusal with
  | some errno => exact ⟨rfl, rfl, fun _ _ => rfl⟩
  | none =>
    have hs := k.host.spares_cloneAddressSpace src task
    exact ⟨table_cloneAddressSpace .., hs.counters, hs.others⟩

theorem cloneFdTable (k : Kernel) (src task : TaskHandle) (refusal : Option Errno) :
    Concerns task k (k.cloneFdTable src task refusal).2 := by
  cases refusal with
  | some errno => exact ⟨rfl, rfl, fun _ _ => rfl⟩
  | none =>
    have hs := k.host.spares_cloneFdTable src task
    exact ⟨table_cloneFdTable .., hs.counters, hs.others⟩

end Concerns

/-- At a pid that nobody is linked at or under, there is nothing to forget. -/
theorem forget_of_unlinked {f : Family} {p : Pid}
    (hl : f.parentLink? p = none) (hc : f.childrenOf p = []) :
    (∀ q, (f.forget p).childrenOf q = f.childrenOf q) ∧
      ∀ c, (f.forget p).parentLink? c = f.parentLink? c := by
  refine ⟨fun q => ?_, fun c => ?_⟩
  · rw [Family.forget, Family.childrenOf_dropList, Family.childrenOf_unlink]
    by_cases hq : q = p
    · simp [hq, hc]
    · simp [hq, hl]
  · rw [Family.forget, Family.parentLink?_dropList, Family.childrenOf_unlink,
      Family.parentLink?_unlink]
    by_cases hcp : c = p
    · simp [hcp, hl]
    · simp [hcp, hl, hc]

/-- Linked and forgotten again, a process leaves a family as it was. -/
theorem forget_attach {f g : Family} (hf : f.Coherent) {c p : Pid} (hcp : c ≠ p)
    (hc : f.childrenOf c = []) (ha : f.attach c p = .ok g) :
    (∀ q, (g.forget c).childrenOf q = f.childrenOf q) ∧
      ∀ x, (g.forget c).parentLink? x = f.parentLink? x := by
  have hl : f.parentLink? c = none := (Family.attach_eq_ok_iff.1 ha).1
  have hnot : ∀ q, c ∉ f.childrenOf q := by
    intro q hm
    rw [(hf.mirror c q).2 hm] at hl
    cases hl
  have hlast : ∀ q, (f.childrenOf q).filter (· ≠ c) = f.childrenOf q := by
    intro q
    refine List.filter_eq_self.2 fun x hx => ?_
    rw [decide_eq_true_iff]
    rintro rfl
    exact hnot q hx
  refine ⟨fun q => ?_, fun x => ?_⟩
  · rw [Family.forget, Family.childrenOf_dropList, Family.childrenOf_unlink,
      Family.childrenOf_attach ha, Family.parentLink?_attach ha]
    by_cases hqc : q = c
    · simp [hqc, hc]
    · by_cases hqp : q = p
      · subst hqp
        simpa [hqc] using hlast q
      · simp [hqc, hqp, Ne.symm hqp]
  · rw [Family.forget, Family.parentLink?_dropList, Family.childrenOf_unlink,
      Family.childrenOf_attach ha, Family.parentLink?_unlink, Family.parentLink?_attach ha,
      Family.parentLink?_attach ha]
    by_cases hxc : x = c
    · simp [hxc, hl]
    · simp [hxc, hcp, hc, Ne.symm hcp]

/-! ### The stages of a fork -/

theorem Underway.concerns (h : k.Underway p k')
    (hc : Concerns ⟨k.host.nextTask⟩ k' k'') : k.Underway p k'' := by
  have hb := block_eq_of_table hc.table
  have hpids : k''.pids = k'.pids := congrArg Table.pids hc.table
  have hfamily : k''.family = k'.family := congrArg Table.family hc.table
  refine ⟨(congrArg Table.live hc.table).trans h.live, (congrArg Table.fault hc.table).trans h.fault,
    h.vacant, h.empty, h.unknown, ?_, ?_, ?_, ?_, (size_eq_of_table hc.table).trans h.size, ?_, ?_, ?_, ?_, ?_,
    hc.counters.trans h.counters, ?_, ?_⟩
  · rw [hpids, h.capacity]
  · rw [hpids, h.free]
  · rw [hpids]
    exact h.taken
  · rw [hpids]
    exact h.installed
  · intro b hlt
    rw [hb, h.blocks b hlt]
  · rw [hb, h.pid]
  · rw [hb, h.refCount]
  · rw [hb, h.task]
  · intro t ht
    rw [hc.others t ht, h.tasks t ht]
  · rw [hfamily]
    exact h.children
  · rw [hfamily]
    exact h.links

/-- The child may change in what this does not speak of. -/
theorem Underway.update (h : k.Underway p k') {f : Block → Block}
    (hf : ∀ x, (f x).pid = x.pid ∧ (f x).refCount = x.refCount ∧ (f x).task = x.task) :
    k.Underway p (k'.update k.blocks.size f) := by
  refine ⟨h.live, h.fault, h.vacant, h.empty, h.unknown, h.capacity, h.free, h.taken, h.installed,
    (size_update ..).trans h.size, ?_, ?_, ?_, ?_, h.tasks, h.counters, h.children, h.links⟩
  · intro b hlt
    rw [block_update_of_ne (Nat.ne_of_lt hlt), h.blocks b hlt]
  · rw [view_update Block.pid (hf _).1, h.pid]
  · rw [view_update Block.refCount (hf _).2.1, h.refCount]
  · rw [view_update Block.task (hf _).2.2, h.task]

/-- With the one reference on its child, all that a fork has done is taken back. -/
theorem Underway.release (h : k.Underway p k') (hi : k'.Intact r) :
    k.Restored (k'.release k.blocks.size).2 := by
  have hlt : k.blocks.size < k'.blocks.size := by
    rw [h.size]
    exact Nat.lt_succ_self _
  have hlookup : k'.pids.lookup p = some k.blocks.size := by rw [h.installed, if_pos rfl]
  have hkept : (k'.block k.blocks.size).taskReleased = false := by
    rw [← Bool.not_eq_true, hi.released _ hlt, h.refCount]
    exact Nat.one_ne_zero
  have hknown : k'.host.tasks.contains (k'.block k.blocks.size).task = true :=
    (hi.hosted.known _).2 ⟨_, hlt, rfl, hkept⟩
  have hpid : ((k'.update k.blocks.size .released).block k.blocks.size).pid = p :=
    (view_update Block.pid rfl _).trans h.pid
  have htask : ((k'.update k.blocks.size .released).block k.blocks.size).task =
      (k'.block k.blocks.size).task := view_update Block.task rfl _
  have hhosted : (k'.update k.blocks.size .released).Hosted :=
    hi.hosted.congr (size_update ..) (view_update Block.task rfl)
      (view_update Block.taskReleased rfl) rfl fun _ => rfl
  obtain ⟨-, hcap, hfree, htaken, hlook, hfam, hlive, hfault, -⟩ :=
    destroy_spec (k := k'.update k.blocks.size .released) (b := k.blocks.size) hi.valid
      (by rw [hpid]; exact hlookup)
  obtain ⟨-, -, -, htasks⟩ := destroy_host hhosted
    (show k.blocks.size < (k'.update k.blocks.size .released).blocks.size by rwa [size_update])
  have hcounters := counters_destroy (k := k'.update k.blocks.size .released)
    (b := k.blocks.size) ((view_update Block.taskReleased rfl _).trans hkept)
    (by rw [htask]; exact hknown)
  rw [hpid] at htaken hlook hfam
  rw [htask, h.task] at htasks
  rw [release_eq, if_pos h.refCount]
  refine ⟨hlive.trans h.live, hfault.trans h.fault, hcap.trans h.capacity, hfree.trans h.free,
    fun q => ?_, fun q => ?_, fun b hb => ?_, fun q => ?_, fun c => ?_, fun t => ?_, 1, ?_⟩
  · rw [htaken]
    refine (congrArg _ (h.taken q)).trans ?_
    by_cases hq : q = p <;> simp [hq, h.vacant]
  · rw [hlook]
    refine (if_congr Iff.rfl rfl (h.installed q)).trans ?_
    by_cases hq : q = p <;> simp [hq, h.empty]
  · rw [block_destroy_of_ne (Nat.ne_of_lt hb), block_update_of_ne (Nat.ne_of_lt hb),
      h.blocks b hb]
  · rw [hfam]
    exact h.children q
  · rw [hfam]
    exact h.links c
  · rw [htasks]
    by_cases ht : t = ⟨k.host.nextTask⟩
    · rw [if_pos ht, ht, h.unknown]
    · rw [if_neg ht]
      exact h.tasks t ht
  · rw [hcounters]
    exact congrArg (fun c : HostCounters => { c with destroyed := c.destroyed + 1 }) h.counters

theorem Underway.abandon (h : k.Underway p k') (hi : k'.Intact r) :
    k.Restored (k'.abandon k.blocks.size) :=
  (h.update (f := Block.unwound) fun _ => ⟨rfl, rfl, rfl⟩).release
    (hi.alike (.of_update _ Block.unwound fun _ => ⟨rfl, rfl, rfl, rfl⟩))

/-! ### Resuming a fork under way -/

/-- A process that is installed has a task that the host knows. -/
theorem Intact.known (h : k.Intact r) {q : Pid} {b : BlockId}
    (hb : k.pids.lookup q = some b) : k.host.tasks.contains (k.block b).task = true := by
  have hlt := (h.own hb).1
  refine (h.hosted.known _).2 ⟨b, hlt, rfl, ?_⟩
  rw [← Bool.not_eq_true, h.released b hlt]
  exact h.counted hb

/-- Nobody is linked at a pid without a block. -/
theorem Intact.unlinked (h : k.Intact r) {q : Pid} (he : k.pids.lookup q = none) :
    k.family.parentLink? q = none := by
  refine Option.eq_none_iff_forall_ne_some.2 fun p hp => ?_
  obtain ⟨b, hb⟩ := h.child hp
  rw [he] at hb
  cases hb

/-- Between tasks that it knows the host copies what it is asked to. -/
theorem cloneAddressSpace_of_known {src dst : TaskHandle} (refusal : Option Errno)
    (hs : k.host.tasks.contains src = true) (hd : k.host.tasks.contains dst = true) :
    ∃ k', k.cloneAddressSpace src dst refusal = (refusal, k') ∧ Concerns dst k k' ∧
      k.Alike k' := by
  refine ⟨_, Prod.ext ?_ rfl, .cloneAddressSpace .., .cloneAddressSpace ..⟩
  cases refusal with
  | some errno => rfl
  | none => exact (k.host.answer_cloneAddressSpace src dst).trans (if_pos ⟨hs, hd⟩)

theorem cloneFdTable_of_known {src dst : TaskHandle} (refusal : Option Errno)
    (hs : k.host.tasks.contains src = true) (hd : k.host.tasks.contains dst = true) :
    ∃ k', k.cloneFdTable src dst refusal = (refusal, k') ∧ Concerns dst k k' ∧
      k.Alike k' := by
  refine ⟨_, Prod.ext ?_ rfl, .cloneFdTable .., .cloneFdTable ..⟩
  cases refusal with
  | some errno => rfl
  | none => exact (k.host.answer_cloneFdTable src dst).trans (if_pos ⟨hs, hd⟩)

theorem spawnThread_of_known {task : TaskHandle} (ht : k.host.tasks.contains task = true) :
    ∃ thread k', k.spawnThread task none = (.ok thread, k') ∧ k'.table = k.table := by
  obtain ⟨record, hr⟩ := (k.host.contains_iff task).1 ht
  simp only [Kernel.spawnThread, Host.spawn, hr]
  exact ⟨_, _, rfl, rfl⟩

/-- The pid map of a table after one pid more is taken. -/
structure Takes (k : Kernel) (p : Pid) (m : PidMap) : Prop where
  vacant : k.pids.isAllocated p = false
  empty : k.pids.lookup p = none
  capacity : m.capacity = k.pids.capacity
  free : m.free + 1 = k.pids.free
  lookup : m.lookup = k.pids.lookup
  taken : ∀ q, m.isAllocated q = (decide (q = p) || k.pids.isAllocated q)

/-- A fork that has stopped, and the table it finds when nothing has come in between; `k` is
the table that it has taken its reference in. -/
inductive Ready (k : Kernel) (r : List Pid) (parent : BlockId) (p : Pid) :
    Pending → Kernel → Prop
  | task {m : PidMap} (h : k.Takes p m) (hi : { k with pids := m }.Intact (p :: r)) :
    Ready k r parent p (.forkTask parent p) { k with pids := m }
  | space {k' : Kernel} (h : k.Underway p k') (hi : k'.Intact r) (hf : k'.family = k.family) :
    Ready k r parent p (.forkSpace parent k.blocks.size) k'
  | files {k' : Kernel} (h : k.Underway p k') (hi : k'.Intact r) (hf : k'.family = k.family) :
    Ready k r parent p (.forkFiles parent k.blocks.size) k'
  | thread {k' : Kernel} (h : k.Underway p k') (hi : k'.Intact r) :
    Ready k r parent p (.forkThread parent k.blocks.size) k'

/-- What one more call comes to. -/
inductive Turn (k : Kernel) (r : List Pid) (parent : BlockId) (p : Pid)
    (refusal : HostService → Option Errno) (pending : Pending) : Progress × Kernel → Prop
  | on {next : Pending} {k' : Kernel} (hr : k.Ready r parent p next k') (hn : next.left + 1 = pending.left)
    (he : k.errorFrom? refusal next = k.errorFrom? refusal pending) :
    Turn k r parent p refusal pending (.stopped next, k')
  | failed {error : ProcessError} {k' : Kernel} (hr : k.Restored k')
    (he : k.errorFrom? refusal pending = some error) :
    Turn k r parent p refusal pending (k'.endFork parent (.failed error))
  | forked (child : Pid) (thread : String) {k' : Kernel} (hf : k'.fault = k.fault)
    (hb : ∀ b < k.blocks.size, k'.block b = k.block b)
    (he : k.errorFrom? refusal pending = none) :
    Turn k r parent p refusal pending (k'.endFork parent (.forked child thread))

section Resume

variable {refusal : HostService → Option Errno} {pending : Pending}

theorem Takes.unreserve {m : PidMap} (h : k.Takes p m) (hv : m.Valid) (call : HostCall) :
    k.Restored (({ k with pids := m }.log call).unreserve p) := by
  obtain ⟨m', hm, -, hcap, hroom, hlook, htaken⟩ :=
    unreserve_spec (k := { k with pids := m }.log call) hv
      (show m.isAllocated p = true by simp [h.taken])
      (show m.lookup p = none by rw [h.lookup, h.empty])
  rw [hm]
  refine ⟨rfl, rfl, hcap.trans h.capacity, hroom.trans h.free, fun q => ?_, fun q => ?_,
    fun _ _ => rfl, fun _ => rfl, fun _ => rfl, fun _ => rfl, 0, rfl⟩
  · refine (htaken q).trans ((congrArg _ (h.taken q)).trans ?_)
    by_cases hq : q = p <;> simp [hq, h.vacant]
  · exact (congrFun hlook q).trans (congrFun h.lookup q)

/-- The child comes in at the pid that was taken for it. -/
theorem Takes.make {m : PidMap} (h : k.Takes p m) (hk : k.Intact r) (hv : m.Valid)
    (hu : k.family.childrenOf p = []) (name : String) : ∃ k',
      { k with pids := m }.make p name none = (.ok k.blocks.size, k') ∧
      k.Underway p k' ∧ k'.family = k.family := by
  obtain ⟨k', hmade, hblocks, hhost, hfamily, hlive, hfault, -, hcap, hroom, htaken, hlook⟩ :=
    make_spec (k := { k with pids := m }) hv
      (show m.isAllocated p = true by simp [h.taken])
      (show m.lookup p = none by rw [h.lookup, h.empty]) name
  have hself : k'.block k.blocks.size = .fresh p name ⟨k.host.nextTask⟩ :=
    (block_of_add hblocks _).trans (if_pos rfl)
  obtain ⟨hchildren, hlinks⟩ := forget_of_unlinked (hk.unlinked h.empty) hu
  refine ⟨k', hmade, ⟨hlive, hfault, h.vacant, h.empty, hk.hosted.unknown, hcap.trans h.capacity, ?_, ?_,
    ?_, size_of_add hblocks, fun b hb => block_of_add_of_lt hblocks hb, ?_, ?_, ?_, ?_, ?_, ?_,
    ?_⟩, hfamily⟩
  · rw [hroom]
    exact h.free
  · rw [htaken]
    exact h.taken
  · intro q
    rw [hlook]
    exact if_congr Iff.rfl rfl (congrFun h.lookup q)
  · rw [hself]
    rfl
  · rw [hself]
    rfl
  · rw [hself]
    rfl
  · intro t ht
    rw [hhost]
    exact (Host.task?_createTask ..).trans (if_neg ht)
  · rw [hhost]
    rfl
  · rw [hfamily]
    exact hchildren
  · rw [hfamily]
    exact hlinks

theorem turn_forkTask {m : PidMap} (hk : k.Intact r) (hu : k.family.childrenOf p = [])
    (h : k.Takes p m) (hi : { k with pids := m }.Intact (p :: r)) :
    k.Turn r parent p refusal (.forkTask parent p)
      ({ k with pids := m }.resume (.forkTask parent p) (refusal .createTask)) := by
  cases hr : refusal .createTask with
  | some errno =>
    exact Turn.failed
      (h.unreserve hi.valid (.refuseTask ({ k with pids := m }.block parent).name errno))
      (by simp [errorFrom?, refused?, hr])
  | none =>
    obtain ⟨k', hmade, hu', hfamily⟩ :=
      h.make hk hi.valid hu ({ k with pids := m }.block parent).name
    have hi' := Intact.make (r := r) hi hmade
    unfold resume
    dsimp only
    rw [hmade]
    exact Turn.on (.space hu' hi' hfamily) rfl (by simp [errorFrom?, refused?, hr])

/-- The host knows the tasks of a parent and its child. -/
theorem Underway.known (h : k.Underway p k') (hi : k'.Intact r)
    (hp : k.pids.lookup (k.block parent).pid = some parent) :
    k'.pids.lookup (k.block parent).pid = some parent ∧
      k'.host.tasks.contains (k'.block parent).task = true ∧
      k'.host.tasks.contains (k'.block k.blocks.size).task = true := by
  have hparent : k'.pids.lookup (k.block parent).pid = some parent := by
    rw [h.installed, if_neg, hp]
    intro he
    rw [he, h.empty] at hp
    cases hp
  exact ⟨hparent, hi.known hparent, hi.known (q := p) (by rw [h.installed, if_pos rfl])⟩

theorem turn_forkSpace (hp : k.pids.lookup (k.block parent).pid = some parent)
    (h : k.Underway p k') (hi : k'.Intact r) (hf : k'.family = k.family) :
    k.Turn r parent p refusal (.forkSpace parent k.blocks.size)
      (k'.resume (.forkSpace parent k.blocks.size) (refusal .cloneAddressSpace)) := by
  obtain ⟨-, hsrc, hdst⟩ := h.known hi hp
  obtain ⟨k'', hcall, hc, ha⟩ :=
    cloneAddressSpace_of_known (refusal .cloneAddressSpace) hsrc hdst
  rw [h.task] at hc
  have hu := h.concerns hc
  unfold resume
  simp only [hcall]
  cases hr : refusal .cloneAddressSpace with
  | some errno =>
    exact Turn.failed (hu.abandon (hi.alike ha)) (by simp [errorFrom?, refused?, hr])
  | none =>
    exact Turn.on (.files hu (hi.alike ha) (ha.family.trans hf)) rfl
      (by simp [errorFrom?, refused?, hr])

/-- The child is linked under its parent, to be forgotten again if the fork fails. -/
theorem Underway.attach (h : k.Underway p k') (hk : k.family.Coherent)
    (hf : k'.family = k.family) (hl : k.family.parentLink? p = none)
    (hu : k.family.childrenOf p = []) (hp : (k'.block parent).pid ≠ p) :
    k.Underway p (k'.attach k.blocks.size parent) := by
  obtain ⟨g, hg⟩ : ∃ g, k.family.attach p (k'.block parent).pid = .ok g :=
    ⟨_, Family.attach_eq_ok_iff.2 ⟨hl, rfl⟩⟩
  obtain ⟨hchildren, hlinks⟩ := forget_attach hk hp.symm hu hg
  have hlinked : k.Underway p { k' with family := g } :=
    ⟨h.live, h.fault, h.vacant, h.empty, h.unknown, h.capacity, h.free, h.taken, h.installed,
      h.size, h.blocks, h.pid, h.refCount, h.task, h.tasks, h.counters, hchildren, hlinks⟩
  unfold Kernel.attach
  rw [h.pid, hf, hg]
  exact hlinked.update fun _ => ⟨rfl, rfl, rfl⟩

theorem turn_forkFiles (hk : k.Intact r) (hu : k.family.childrenOf p = [])
    (hp : k.pids.lookup (k.block parent).pid = some parent)
    (h : k.Underway p k') (hi : k'.Intact r) (hf : k'.family = k.family) :
    k.Turn r parent p refusal (.forkFiles parent k.blocks.size)
      (k'.resume (.forkFiles parent k.blocks.size) (refusal .cloneFdTable)) := by
  obtain ⟨hparent, hsrc, hdst⟩ := h.known hi hp
  obtain ⟨k'', hcall, hc, ha⟩ := cloneFdTable_of_known (refusal .cloneFdTable) hsrc hdst
  rw [h.task] at hc
  have hu' := h.concerns hc
  have hi' := hi.alike ha
  have hblock : k''.block parent = k.block parent := hu'.blocks parent (hk.own hp).1
  unfold resume
  simp only [hcall]
  cases hr : refusal .cloneFdTable with
  | some errno =>
    exact Turn.failed (hu'.abandon hi') (by simp [errorFrom?, refused?, hr])
  | none =>
    dsimp only
    unfold linkChild
    rw [hblock]
    by_cases hx : (k.block parent).exiting = true
    · rw [if_pos hx]
      exact Turn.failed (hu'.abandon hi') (by simp [errorFrom?, refused?, unlinkable?, hr, hx])
    · rw [if_neg hx]
      have hpid : (k''.block k.blocks.size).pid = p := hu'.pid
      have hchild : k''.pids.lookup (k''.block k.blocks.size).pid = some k.blocks.size := by
        rw [hpid, hu'.installed, if_pos rfl]
      have hlinked : k''.pids.lookup (k''.block parent).pid = some parent := by
        rw [hblock, ha.pids, hparent]
      have hne : (k''.block parent).pid ≠ p := by
        rw [hblock]
        intro he
        rw [he, h.empty] at hp
        cases hp
      have hattach := hu'.attach hk.family (ha.family.trans hf) (hk.unlinked h.empty) hu hne
      refine Turn.on (.thread (hattach.concerns ?_) ?_) rfl
        (by simp [errorFrom?, refused?, unlinkable?, hr, hx])
      · rw [hattach.task]
        exact .attachThread ..
      · exact (hi'.attach hchild (Or.inr hlinked)).alike (.attachThread ..)

theorem turn_forkThread (hp : k.pids.lookup (k.block parent).pid = some parent)
    (h : k.Underway p k') (hi : k'.Intact r) :
    k.Turn r parent p refusal (.forkThread parent k.blocks.size)
      (k'.resume (.forkThread parent k.blocks.size) (refusal .spawn)) := by
  unfold resume
  dsimp only
  cases hr : refusal .spawn with
  | some errno =>
    have hc : Concerns ⟨k.host.nextTask⟩ k'
        ((k'.spawnThread (k'.block k.blocks.size).task (some errno)).2.detachThread
          (k'.block k.blocks.size).task) := by
      have hrefused : Concerns ⟨k.host.nextTask⟩ k'
          (k'.spawnThread (k'.block k.blocks.size).task (some errno)).2 :=
        ⟨rfl, rfl, fun _ _ => rfl⟩
      rw [← h.task] at hrefused ⊢
      exact hrefused.trans (.detachThread ..)
    have hi' := (hi.alike (.spawnThread k' (k'.block k.blocks.size).task (some errno))).alike
      (.detachThread _ (k'.block k.blocks.size).task)
    exact Turn.failed ((h.concerns hc).abandon hi') (by simp [errorFrom?, refused?, hr])
  | none =>
    obtain ⟨-, -, hknown⟩ := h.known hi hp
    obtain ⟨thread, k'', hcall, ht⟩ := spawnThread_of_known hknown
    rw [hcall]
    refine Turn.forked _ thread ((congrArg Table.fault ht).trans h.fault) (fun b hb => ?_)
      (by simp [errorFrom?, refused?, hr])
    rw [block_eq_of_table ht, h.blocks b hb]

/-- A fork that nothing comes in between of takes one stage after the other. -/
theorem Ready.turn (hk : k.Intact r) (hu : k.family.childrenOf p = [])
    (hp : k.pids.lookup (k.block parent).pid = some parent)
    (h : k.Ready r parent p pending k') :
    k.Turn r parent p refusal pending (k'.resume pending (refusal pending.service)) := by
  cases h with
  | task h hi => exact turn_forkTask hk hu h hi
  | space h hi hf => exact turn_forkSpace hp h hi hf
  | files h hi hf => exact turn_forkFiles hk hu hp h hi hf
  | thread h hi => exact turn_forkThread hp h hi

end Resume

/-! ### Beginning a fork -/

/-- Nobody is left linked under the kernel once its pid is free. That it becomes free takes
somebody who gives back references on the kernel's block that were not his. -/
def Anchored (k : Kernel) : Prop :=
  k.live = true → k.pids.isAllocated kernelPid = false → k.family.childrenOf kernelPid = []

theorem Sound.anchored {a : Account} (h : k.Sound a) : k.Anchored := by
  intro _ hfree
  rw [h.placed.valid.isAllocated_of_lookup h.lookup_root] at hfree
  cases hfree

/-- What beginning a fork comes to: it fails at once, or a reference on its parent and a pid
for its child are taken. -/
inductive Begins (k : Kernel) (r : List Pid) (pid : Pid) (refusal : HostService → Option Errno) :
    Progress × Kernel → Prop
  | failed {error : ProcessError} {k' : Kernel} (hr : k.Restored k')
    (he : k.forkError? pid refusal = some error) : Begins k r pid refusal (.failed error, k')
  | on {parent : BlockId} {p : Pid} {k' : Kernel} (hk : k.Intact r)
    (hp : k.pids.lookup pid = some parent) (hu : k.family.childrenOf p = [])
    (hr : (k.update parent .retained).Ready r parent p (.forkTask parent p) k')
    (he : (k.update parent .retained).errorFrom? refusal (.forkTask parent p) =
      k.forkError? pid refusal) :
    Begins k r pid refusal (.stopped (.forkTask parent p), k')

theorem unlinkable?_retained (k : Kernel) (parent : BlockId) :
    (k.update parent .retained).unlinkable? parent = k.unlinkable? parent := by
  have hexiting : ((k.update parent .retained).block parent).exiting = (k.block parent).exiting :=
    view_update Block.exiting rfl parent
  have hpid : ((k.update parent .retained).block parent).pid = (k.block parent).pid :=
    view_update Block.pid rfl parent
  unfold unlinkable?
  rw [hexiting, hpid]

theorem Intact.begins (h : k.Intact r) (hroot : k.Anchored) (pid : Pid)
    (refusal : HostService → Option Errno) : k.Begins r pid refusal (k.beginFork pid) := by
  cases hl : k.pids.lookup pid with
  | none =>
    rw [beginFork_of_missed h.live hl]
    exact .failed (.refl k) (by simp [forkError?, h.live, hl])
  | some parent =>
    obtain ⟨hlt, hpid⟩ := h.own hl
    have hz := h.counted hl
    have hi := h.alike (.retained hz)
    rw [beginFork_of_found (h.found hl)]
    rcases reserve_spec hi.live hi.valid with
      ⟨hfree, he⟩ | ⟨hfree, p, m, he, hm, hvacant, -, hc, hroom, hlook, htaken⟩
    · rw [he]
      refine .failed (.release hlt hz (.refl _)) ?_
      have hfull : k.pids.free = 0 := hfree
      simp only [forkError?, h.live, hl, hfull]
      rfl
    · rw [he]
      have hplaced := hi.placed.reserve hm hvacant hc hlook htaken
      have htakes : (k.update parent .retained).Takes p m :=
        ⟨hvacant, hplaced.1, hc, by omega, hlook, htaken⟩
      refine .on h hl ?_ (.task htakes (hi.with_pids hplaced.2 hlook)) ?_
      · refine List.eq_nil_iff_forall_not_mem.2 fun c hm => ?_
        rcases h.parent ((h.family.mirror c p).2 hm) with rfl | ⟨q, hq⟩
        · rw [hroot h.live hvacant] at hm
          cases hm
        · have hempty : k.pids.lookup p = none := hplaced.1
          rw [hempty] at hq
          cases hq
      · have hroom : k.pids.free ≠ 0 := hfree
        simp [forkError?, errorFrom?, unlinkable?_retained, h.live, hl, hroom]

theorem Sane.begins (h : k.Sane r) (hroot : k.Anchored) (pid : Pid)
    (refusal : HostService → Option Errno) : k.Begins r pid refusal (k.beginFork pid) := by
  rcases h with h | h
  · exact h.begins hroot pid refusal
  · rw [beginFork_of_dead h.down.live]
    exact .failed (.refl k) (by simp [forkError?, h.down.live])

/-! ### What sleepers see of a fork -/

/-- No check has failed in between, and every process is in the state it was in. -/
structure Steady (k k' : Kernel) : Prop where
  fault : k'.fault = k.fault
  state : ∀ b < k.blocks.size, (k'.block b).state = (k.block b).state

theorem Restored.steady (h : k.Restored k') : k.Steady k' :=
  ⟨h.fault, fun b hb => by rw [h.blocks b hb]⟩

theorem Ready.steady {pending : Pending}
    (h : (k.update parent .retained).Ready r parent p pending k') : k.Steady k' := by
  have hstate : ∀ b, ((k.update parent .retained).block b).state = (k.block b).state :=
    view_update Block.state rfl
  have hmade : ∀ {k' : Kernel}, (k.update parent .retained).Underway p k' → k.Steady k' :=
    fun h => ⟨h.fault, fun b hb => by
      rw [h.blocks b (by rwa [size_update])]
      exact hstate b⟩
  cases h with
  | task => exact ⟨rfl, fun b _ => hstate b⟩
  | space h => exact hmade h
  | files h => exact hmade h
  | thread h => exact hmade h

/-- The reference given back at the end of a fork was not the last. -/
theorem steady_endFork (hlt : parent < k.blocks.size) (hz : (k.block parent).refCount ≠ 0)
    (hf : k'.fault = k.fault)
    (hb : ∀ b < k.blocks.size, k'.block b = (k.update parent .retained).block b)
    (progress : Progress) : k.Steady (k'.endFork parent progress).2 := by
  have hheld : (k'.block parent).refCount = (k.block parent).refCount + 1 := by
    rw [hb parent hlt, block_update_self hlt]
    rfl
  have hreleased : ∀ b, ((k'.update parent .released).block b).state = (k'.block b).state :=
    view_update Block.state rfl
  have hretained : ∀ b, ((k.update parent .retained).block b).state = (k.block b).state :=
    view_update Block.state rfl
  rw [endFork, release_eq, if_neg (by omega)]
  refine ⟨hf, fun b hlt => ?_⟩
  rw [hreleased, hb b hlt, hretained]

end Kernel

end Lifecycle
