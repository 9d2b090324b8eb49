import Lifecycle.Proofs.Kernel.Spacing
import Lifecycle.Proofs.Kernel.Unwinding

/-! A fork that the host refuses nothing, and that nothing interrupts. Stage by stage it adds one
block to the table and one task to the host, and in the end links the block; the rest of both
stays as it is throughout. -/

namespace Lifecycle.Kernel

/-- A table to which one block has been added, at a pid that was free and with a new task. -/
structure Adds (k : Kernel) (p : Pid) (child : Block) (family : Family) (record : TaskRecord)
    (counters : HostCounters) (k' : Kernel) : Prop where
  live : k'.live = k.live
  fault : k'.fault = k.fault
  capacity : k'.pids.capacity = k.pids.capacity
  free : k'.pids.free + 1 = k.pids.free
  taken : ∀ q, k'.pids.isAllocated q = (decide (q = p) || k.pids.isAllocated q)
  installed : ∀ q, k'.pids.lookup q = if q = p then some k.blocks.size else k.pids.lookup q
  size : k'.blocks.size = k.blocks.size + 1
  blocks : ∀ b < k.blocks.size, k'.block b = k.block b
  child : k'.block k.blocks.size = child
  family : k'.family = family
  task : k'.host.task? ⟨k.host.nextTask⟩ = some record
  tasks : ∀ t ≠ ⟨k.host.nextTask⟩, k'.host.task? t = k.host.task? t
  counters : k'.host.counters = counters

variable {k k' k'' : Kernel} {r : List Pid} {p : Pid} {q : BlockId} {child : Block}
  {family : Family} {record : TaskRecord} {counters : HostCounters}

/-! ### Stages -/

/-- A call to the host that concerns the new task alone. -/
theorem Adds.concerns (h : k.Adds p child family record counters k')
    (hc : Concerns ⟨k.host.nextTask⟩ k' k'') {record' : TaskRecord}
    (ht : k''.host.task? ⟨k.host.nextTask⟩ = some record') :
    k.Adds p child family record' counters k'' := by
  have hpids : k''.pids = k'.pids := congrArg Table.pids hc.table
  refine ⟨(congrArg Table.live hc.table).trans h.live,
    (congrArg Table.fault hc.table).trans h.fault, ?_, ?_, ?_, ?_,
    (size_eq_of_table hc.table).trans h.size, fun b hb => ?_, ?_,
    (congrArg Table.family hc.table).trans h.family, ht, fun t hne => ?_,
    hc.counters.trans h.counters⟩
  · rw [hpids, h.capacity]
  · rw [hpids, h.free]
  · rw [hpids]
    exact h.taken
  · rw [hpids]
    exact h.installed
  · rw [block_eq_of_table hc.table, h.blocks b hb]
  · rw [block_eq_of_table hc.table, h.child]
  · rw [hc.others t hne, h.tasks t hne]

/-- The child has its task from the time it is made. -/
theorem Takes.adds {m : PidMap} (h : k.Takes p m) (hi : { k with pids := m }.Intact (p :: r)) :
    ∃ k', { k with pids := m }.resume (.forkTask q p) none =
        (.stopped (.forkSpace q k.blocks.size), k') ∧ k'.Intact r ∧
      k.Adds p (.fresh p (k.block q).name ⟨k.host.nextTask⟩) k.family
        ⟨(k.block q).name, none, 0, none, Host.standardFiles⟩
        { k.host.counters with created := k.host.counters.created + 1 } k' ∧
      k'.host.nextSpace = k.host.nextSpace := by
  obtain ⟨k', hmade, hblocks, hhost, hfamily, hlive, hfault, -, hcap, hroom, htaken, hlook⟩ :=
    make_spec (k := { k with pids := m }) hi.valid
      (show m.isAllocated p = true by simp [h.taken])
      (show m.lookup p = none by rw [h.lookup, h.empty]) (k.block q).name
  have htask : ∀ t, k'.host.task? t = if t = ⟨k.host.nextTask⟩
      then some ⟨(k.block q).name, none, 0, none, Host.standardFiles⟩
      else k.host.task? t := fun t => by
    rw [hhost]
    exact Host.task?_createTask ..
  refine ⟨k', ?_, Intact.make hi hmade, ⟨hlive, hfault, hcap.trans h.capacity, ?_, ?_, fun x => ?_,
    size_of_add hblocks, fun b hb => block_of_add_of_lt hblocks hb,
    (block_of_add hblocks _).trans (if_pos rfl), hfamily, ?_, fun t ht => ?_, ?_⟩, ?_⟩
  · have hname : ({ k with pids := m } : Kernel).block q = k.block q := rfl
    unfold resume
    dsimp only
    rw [hname, hmade]
  · rw [hroom]
    exact h.free
  · rw [htaken]
    exact h.taken
  · rw [hlook]
    exact if_congr Iff.rfl rfl (congrFun h.lookup x)
  · rw [htask, if_pos rfl]
  · rw [htask, if_neg ht]
  · rw [hhost]
    rfl
  · rw [hhost]
    rfl

namespace Adds

variable (h : k.Adds p child family record counters k') (htask : child.task = ⟨k.host.nextTask⟩)
  (hq : q < k.blocks.size) {source : TaskRecord}
  (hsource : k.host.task? (k.block q).task = some source)
  (hnew : k.host.task? ⟨k.host.nextTask⟩ = none)
include h htask hq hsource hnew

/-- The tasks of the parent and the child, as a stage finds them. -/
theorem records : k'.host.task? (k'.block q).task = some source ∧
    (k'.block k.blocks.size).task = ⟨k.host.nextTask⟩ := by
  refine ⟨?_, by rw [h.child, htask]⟩
  rw [h.blocks q hq, h.tasks, hsource]
  intro hs
  rw [hs, hnew] at hsource
  cases hsource

/-- The child has an address space of its own. -/
theorem space (hi : k'.Intact r) : ∃ k'', k'.resume (.forkSpace q k.blocks.size) none =
      (.stopped (.forkFiles q k.blocks.size), k'') ∧ k''.Intact r ∧
    k.Adds p child family { record with addressSpace := some k'.host.nextSpace } counters k'' := by
  obtain ⟨hsrc, hdst⟩ := h.records htask hq hsource hnew
  have hknown : k'.host.tasks.contains (k'.block k.blocks.size).task = true :=
    (Host.contains_iff ..).2 ⟨record, by rw [hdst, h.task]⟩
  obtain ⟨k'', hcall, hc, ha⟩ :=
    cloneAddressSpace_of_known none ((Host.contains_iff ..).2 ⟨source, hsrc⟩) hknown
  have hanswer : (k'.host.cloneAddressSpace (k'.block q).task
      (k'.block k.blocks.size).task).1 = none := congrArg Prod.fst hcall
  have hhost : k''.host = (k'.host.cloneAddressSpace (k'.block q).task
      (k'.block k.blocks.size).task).2 := (congrArg (fun out => out.2.host) hcall).symm
  rw [hdst] at hc
  refine ⟨k'', ?_, hi.alike ha, h.concerns hc ?_⟩
  · unfold resume
    dsimp only
    rw [hcall]
  · rw [hhost, Host.task?_cloneAddressSpace, hdst, if_pos ⟨hdst ▸ hanswer, rfl⟩, h.task]
    rfl

/-- The files are copied before it is seen whether the parent has begun to exit. -/
theorem files (hi : k'.Intact r) : ∃ k₁,
    k'.resume (.forkFiles q k.blocks.size) none = k₁.linkChild q k.blocks.size ∧ k₁.Intact r ∧
      k.Adds p child family { record with openFiles := source.openFiles } counters k₁ := by
  obtain ⟨hsrc, hdst⟩ := h.records htask hq hsource hnew
  have hknown : k'.host.tasks.contains (k'.block k.blocks.size).task = true :=
    (Host.contains_iff ..).2 ⟨record, by rw [hdst, h.task]⟩
  obtain ⟨k₁, hcall, hc, ha⟩ :=
    cloneFdTable_of_known none ((Host.contains_iff ..).2 ⟨source, hsrc⟩) hknown
  have hanswer : (k'.host.cloneFdTable (k'.block q).task (k'.block k.blocks.size).task).1 = none :=
    congrArg Prod.fst hcall
  have hhost : k₁.host = (k'.host.cloneFdTable (k'.block q).task
      (k'.block k.blocks.size).task).2 := (congrArg (fun out => out.2.host) hcall).symm
  rw [hdst] at hc
  refine ⟨k₁, ?_, hi.alike ha, h.concerns hc ?_⟩
  · unfold resume
    dsimp only
    rw [hcall]
  · rw [hhost, Host.task?_cloneFdTable, hdst, if_pos ⟨hdst ▸ hanswer, rfl⟩, h.task, hsrc]
    rfl

omit hsource hnew in
/-- The child is linked, and a thread attached to its task. -/
theorem link (hpid : child.pid = p) (hexiting : (k.block q).exiting = false)
    (hl : family.parentLink? p = none) : ∃ k'' g,
    k'.linkChild q k.blocks.size = (.stopped (.forkThread q k.blocks.size), k'') ∧
      family.attach p (k.block q).pid = .ok g ∧
      k.Adds p (child.adopt (k.block q).pid) g
        { record with threads := record.threads + 1, pid := some p } counters k'' := by
  obtain ⟨g, hg⟩ : ∃ g, family.attach p (k.block q).pid = .ok g :=
    ⟨_, Family.attach_eq_ok_iff.2 ⟨hl, rfl⟩⟩
  have hlt : k.blocks.size < k'.blocks.size := h.size ▸ Nat.lt_succ_self _
  have hblock := h.blocks q hq
  have hattach : k'.attach k.blocks.size q = ({ k' with family := g }.update k.blocks.size
      (·.adopt (k.block q).pid)) := by
    unfold Kernel.attach
    rw [h.family, h.child, hpid, hblock, hg]
  have hself : (k'.attach k.blocks.size q).block k.blocks.size = child.adopt (k.block q).pid := by
    rw [hattach]
    refine (block_update_self (k := { k' with family := g }) hlt _).trans ?_
    exact congrArg (·.adopt (k.block q).pid) h.child
  have hlinked : k.Adds p (child.adopt (k.block q).pid) g record counters
      (k'.attach k.blocks.size q) := by
    rw [hattach] at hself ⊢
    exact ⟨h.live, h.fault, h.capacity, h.free, h.taken, h.installed,
      (size_update ..).trans h.size, fun b hb => by
        rw [block_update_of_ne (Nat.ne_of_lt hb)]
        exact h.blocks b hb, hself, rfl, h.task, h.tasks, h.counters⟩
  refine ⟨(k'.attach k.blocks.size q).attachThread ⟨k.host.nextTask⟩ p, g, ?_, hg,
    hlinked.concerns (.attachThread ..) ?_⟩
  · unfold linkChild
    rw [hblock, if_neg (by rw [hexiting]; exact Bool.false_ne_true)]
    dsimp only
    rw [hself]
    exact congrArg₂ (fun t x => (_, (k'.attach k.blocks.size q).attachThread t x)) htask hpid
  · refine (Host.task?_attach ..).trans ?_
    rw [if_pos rfl, hlinked.task]
    rfl

omit hq hsource hnew in
/-- The child gets its thread, named after its pid. -/
theorem start (hpid : child.pid = p) (hr : record.pid = some p) : ∃ k'',
    k'.resume (.forkThread q k.blocks.size) none =
        k''.endFork q (.forked p s!"pid-{p}") ∧
      k.Adds p child family record { counters with spawned := counters.spawned + 1 } k'' := by
  have hdst : (k'.block k.blocks.size).task = ⟨k.host.nextTask⟩ := by rw [h.child, htask]
  let k₁ : Kernel := { k' with host := { k'.host with counters := { k'.host.counters with
    spawned := k'.host.counters.spawned + 1 } } }.log (.spawn ⟨k.host.nextTask⟩ none)
  have hcall : k'.spawnThread (k'.block k.blocks.size).task none = (.ok s!"pid-{p}", k₁) := by
    rw [hdst]
    simp only [spawnThread, Host.spawn, h.task, Host.threadName, hr, Option.getD_some, k₁]
  have hchild : (k₁.block k.blocks.size).pid = p := (congrArg Block.pid h.child).trans hpid
  refine ⟨k₁, ?_, ⟨h.live, h.fault, h.capacity, h.free, h.taken, h.installed, h.size, h.blocks,
    h.child, h.family, h.task, h.tasks, ?_⟩⟩
  · unfold resume
    dsimp only
    rw [hcall]
    dsimp only
    rw [hchild]
  · rw [← h.counters]
    rfl

end Adds

/-! ### All stages -/

/-- What a fork that goes through makes of a table: everything that was there is as it was, but
for one more member of one list, and the child has the least pid that was free. -/
structure Begets (k : Kernel) (q : BlockId) (p : Pid) (k' : Kernel) : Prop where
  vacant : k.pids.isAllocated p = false
  least : ∀ x < p, k.pids.isAllocated x = true
  live : k'.live = k.live
  fault : k'.fault = k.fault
  capacity : k'.pids.capacity = k.pids.capacity
  free : k'.pids.free + 1 = k.pids.free
  taken : ∀ x, k'.pids.isAllocated x = (decide (x = p) || k.pids.isAllocated x)
  installed : ∀ x, k'.pids.lookup x = if x = p then some k.blocks.size else k.pids.lookup x
  size : k'.blocks.size = k.blocks.size + 1
  blocks : ∀ b < k.blocks.size, k'.block b = k.block b
  child : k'.block k.blocks.size = { Block.fresh p (k.block q).name ⟨k.host.nextTask⟩ with
    parent := some (k.block q).pid }
  children : ∀ x, k'.family.childrenOf x =
    if x = (k.block q).pid then k.family.childrenOf x ++ [p] else k.family.childrenOf x
  links : ∀ x, k'.family.parentLink? x =
    if x = p then some (k.block q).pid else k.family.parentLink? x
  unknown : k.host.task? ⟨k.host.nextTask⟩ = none
  task : ∃ source, k.host.task? (k.block q).task = some source ∧
    k'.host.task? ⟨k.host.nextTask⟩ = some
      { name := (k.block q).name
        pid := some p
        threads := 1
        addressSpace := some k.host.nextSpace
        openFiles := source.openFiles }
  /-- The address space is the child's alone. -/
  space : ∀ t record, k.host.task? t = some record →
    record.addressSpace ≠ some k.host.nextSpace
  tasks : ∀ t ≠ ⟨k.host.nextTask⟩, k'.host.task? t = k.host.task? t
  counters : k'.host.counters = { k.host.counters with
    created := k.host.counters.created + 1
    spawned := k.host.counters.spawned + 1 }
  /-- Unless the kernel's pid has become free, no child gets it, and none has children. -/
  apart : k.pids.isAllocated kernelPid = true → p ≠ kernelPid ∧ k'.family.childrenOf p = []

/-- The stages of a fork that nothing is refused to: up to the link, and then to the end. -/
structure Stages (k : Kernel) (pid : Pid) (q : BlockId) (p : Pid) (k₁ k₂ k₃ : Kernel) : Prop where
  begun : k.beginFork pid = (.stopped (.forkTask q p), k₁)
  made : k₁.resume (.forkTask q p) none = (.stopped (.forkSpace q k.blocks.size), k₂)
  copied : k₂.resume (.forkSpace q k.blocks.size) none =
    (.stopped (.forkFiles q k.blocks.size), k₃)
  steady : k.Steady k₁ ∧ k.Steady k₂ ∧ k.Steady k₃
  failed : (k.block q).exiting = true → ∃ k₄, k₃.resume (.forkFiles q k.blocks.size) none =
    (.failed (.noSuchProcess (signedPid (k.block q).pid)), k₄) ∧ k.Steady k₄
  linked : (k.block q).exiting = false → ∃ k₄ k₅, k₃.resume (.forkFiles q k.blocks.size) none =
      (.stopped (.forkThread q k.blocks.size), k₄) ∧ k.Steady k₄ ∧
    k₄.resume (.forkThread q k.blocks.size) none = (.forked p s!"pid-{p}", k₅) ∧ k.Begets q p k₅

theorem Begets.steady (h : k.Begets q p k') : k.Steady k' :=
  ⟨h.fault, fun b hb => by rw [h.blocks b hb]⟩

/-- A fork has a reference on its parent, which changes no state. -/
theorem Adds.steady (h : (k.update q .retained).Adds p child family record counters k') :
    k.Steady k' := by
  refine ⟨h.fault, fun b hb => ?_⟩
  rw [h.blocks b (by rwa [size_update])]
  exact view_update Block.state rfl b

/-- The child of a parent that has begun to exit is given up. -/
theorem Adds.unlinked (h : (k.update q .retained).Adds p child family record counters k')
    (hi : k'.Intact r) (hq : q < k.blocks.size) (hexiting : (k.block q).exiting = true) : ∃ k'',
    k'.linkChild q k.blocks.size =
      (.failed (.noSuchProcess (signedPid (k.block q).pid)), k'') ∧ k.Steady k'' := by
  have hblock : k'.block q = (k.block q).retained := by
    rw [h.blocks q (by rwa [size_update]), block_update_self hq]
  have hunwound : (k'.update k.blocks.size Block.unwound).Intact r :=
    hi.alike (.of_update _ Block.unwound fun _ => ⟨rfl, rfl, rfl, rfl⟩)
  have habandoned : (k'.abandon k.blocks.size).fault = k'.fault := by
    unfold abandon
    exact (hunwound.seated.release k.blocks.size).2
  have hreleased := ((hi.abandon k.blocks.size).seated.release q).2
  refine ⟨((k'.abandon k.blocks.size).release q).2, ?_,
    (hreleased.trans habandoned).trans h.steady.fault, fun b hb => ?_⟩
  · unfold linkChild
    rw [hblock, if_pos (show (k.block q).retained.exiting = true from hexiting)]
    rfl
  · rw [(quiet_release ..).state, (quiet_abandon ..).state, block_update_of_ne (Nat.ne_of_lt hb)]
    exact h.steady.state b hb

/-- Nobody is linked under a pid without a block, unless it is the kernel's. -/
theorem Intact.childless (h : k.Intact r) (hne : p ≠ kernelPid) (he : k.pids.lookup p = none) :
    k.family.childrenOf p = [] := by
  refine List.eq_nil_iff_forall_not_mem.2 fun c hm => ?_
  rcases h.parent ((h.family.mirror c p).2 hm) with hroot | ⟨b, hb⟩
  · exact hne hroot
  · rw [he] at hb
    cases hb

/-- With the reference on the parent given back, all but the child is as it was. -/
theorem Adds.begets {pid : Pid} (hi : k.Intact r) (hs : k.host.Spaced)
    (hl : k.pids.lookup pid = some q) (hvacant : k.pids.isAllocated p = false)
    (hleast : ∀ x < p, k.pids.isAllocated x = true) {source : TaskRecord}
    (hsource : k.host.task? (k.block q).task = some source)
    (hfamily : k.family.attach p (k.block q).pid = .ok family)
    (h : (k.update q .retained).Adds p
      { Block.fresh p (k.block q).name ⟨k.host.nextTask⟩ with parent := some (k.block q).pid }
      family ⟨(k.block q).name, some p, 1, some k.host.nextSpace, source.openFiles⟩
      { k.host.counters with
        created := k.host.counters.created + 1
        spawned := k.host.counters.spawned + 1 } k') : k.Begets q p (k'.release q).2 := by
  obtain ⟨hlt, hpid⟩ := hi.own hl
  have hz := hi.counted hl
  have hempty : k.pids.lookup p = none := hi.valid.lookup_of_free hvacant
  have hchildren := Family.childrenOf_attach hfamily
  have hsize : k'.blocks.size = k.blocks.size + 1 := by rw [h.size, size_update]
  have hheld : k'.block q = (k.block q).retained := by
    rw [h.blocks q (by rwa [size_update]), block_update_self hlt]
  have hqp : (k.block q).pid ≠ p := by
    rw [hpid]
    rintro rfl
    rw [hempty] at hl
    cases hl
  rw [release_eq, if_neg (show ¬(k'.block q).refCount = 1 by rw [hheld]; simpa [Block.retained])]
  refine ⟨hvacant, hleast, h.live, h.fault, h.capacity, h.free, h.taken, fun x => ?_,
    (size_update ..).trans hsize, fun b hb => ?_, ?_, fun x => ?_, fun x => ?_,
    hi.hosted.unknown, ⟨source, hsource, h.task⟩, fun t record ht => hs.next ht, h.tasks,
    h.counters, fun hroot => ?_⟩
  · refine (h.installed x).trans ?_
    rw [size_update]
    rfl
  · by_cases hbq : b = q
    · subst hbq
      rw [block_update_self (hsize ▸ Nat.lt_succ_of_lt hlt), hheld]
      rfl
    · rw [block_update_of_ne hbq, h.blocks b (by rwa [size_update]), block_update_of_ne hbq]
  · rw [block_update_of_ne (Nat.ne_of_gt hlt)]
    have hchild := h.child
    rwa [size_update] at hchild
  · exact (congrArg (·.childrenOf x) h.family).trans (hchildren x)
  · exact (congrArg (·.parentLink? x) h.family).trans (Family.parentLink?_attach hfamily x)
  · have hne : p ≠ kernelPid := by
      rintro rfl
      rw [hvacant] at hroot
      cases hroot
    refine ⟨hne, (congrArg (·.childrenOf p) h.family).trans ?_⟩
    rw [hchildren, if_neg hqp.symm]
    exact hi.childless hne hempty

/-- The lowest free place is that of the least free pid. -/
theorem least_of_lowest (hlt : p.toNat < k.pids.capacity)
    (hlow : ∀ i < p.toNat, k.pids.isTaken i = true) :
    ∀ x < p, k.pids.isAllocated x = true := fun x hx => by
  have hxp : x.toNat < p.toNat := UInt32.lt_iff_toNat_lt.1 hx
  simp [PidMap.isAllocated, hlow _ hxp, Nat.lt_trans hxp hlt]

/-- A fork that is refused nothing goes through, or comes to the link if its parent has begun to
exit. -/
theorem Intact.stages (hi : k.Intact r) (hs : k.host.Spaced) {pid : Pid}
    (hl : k.pids.lookup pid = some q) (hfree : k.pids.free ≠ 0) :
    ∃ p k₁ k₂ k₃, k.Stages pid q p k₁ k₂ k₃ := by
  obtain ⟨hlt, hpid⟩ := hi.own hl
  have hlt' : q < (k.update q .retained).blocks.size := by rwa [size_update]
  have hz := hi.counted hl
  have hbase := hi.alike (.retained hz)
  obtain ⟨source, hsource⟩ := (Host.contains_iff ..).1 (hi.known hl)
  have hsource' : k.host.task? ((k.update q .retained).block q).task = some source := by
    rwa [view_update Block.task rfl q]
  have hnew := hi.hosted.unknown
  rcases reserve_spec hbase.live hbase.valid with
    ⟨hfull, -⟩ | ⟨-, p, m, hreserve, hm, hvacant, hlow, hcap, hroom, hlook, htaken⟩
  · exact absurd hfull hfree
  obtain ⟨hempty, hplaced⟩ := hbase.placed.reserve hm hvacant hcap hlook htaken
  have htakes : (k.update q .retained).Takes p m :=
    ⟨hvacant, hempty, hcap, Nat.succ_pred_eq_of_ne_zero hfree ▸ congrArg (· + 1) hroom, hlook,
      htaken⟩
  have hm₁ := hbase.with_pids hplaced hlook
  have hleast : ∀ x < p, k.pids.isAllocated x = true := by
    have hin : m.isAllocated p = true := by simp [htaken]
    have hlt := (Bool.and_eq_true_iff.1 hin).1
    rw [hcap] at hlt
    exact least_of_lowest (of_decide_eq_true hlt) hlow
  obtain ⟨k₂, hmade, hi₂, h₂, hspace⟩ := htakes.adds (q := q) hm₁
  obtain ⟨k₃, hcopied, hi₃, h₃⟩ := h₂.space rfl hlt' hsource' hnew hi₂
  obtain ⟨k₃', hfiles, hi₃', h₃'⟩ := h₃.files rfl hlt' hsource' hnew hi₃
  rw [size_update] at hmade hcopied hfiles
  refine ⟨p, _, k₂, k₃, ?_, hmade, hcopied, ⟨⟨rfl, fun b _ => view_update Block.state rfl b⟩,
    h₂.steady, h₃.steady⟩, fun hexiting => ?_, fun hexiting => ?_⟩
  · rw [beginFork_of_found (hi.found hl), hreserve]
  · obtain ⟨k₄, hlink, hsteady⟩ := h₃'.unlinked hi₃' hlt hexiting
    exact ⟨k₄, hfiles.trans hlink, hsteady⟩
  · have hrunning : ((k.update q .retained).block q).exiting = false := by
      rwa [view_update Block.exiting rfl q]
    obtain ⟨k₄, g, hlink, hg, h₄⟩ := h₃'.link rfl hlt' rfl hrunning (hi.unlinked hempty)
    obtain ⟨k₅, hstart, h₅⟩ := h₄.start rfl rfl rfl
    rw [size_update] at hlink hstart
    refine ⟨k₄, _, hfiles.trans hlink, h₄.steady, hstart, ?_⟩
    rw [view_update Block.pid rfl q, view_update Block.name rfl q, hpid,
      Block.adopt_of_lookup hi.valid hi.placed.bound hl, hspace] at h₅
    rw [view_update Block.pid rfl q] at hg
    refine Adds.begets hi hs hl hvacant hleast hsource hg ?_
    rw [hpid]
    exact h₅

end Lifecycle.Kernel
