import Lifecycle.Proofs.Kernel.Commuting
import Lifecycle.Proofs.Kernel.Exiting

/-! What the exit of a process makes of its table, seen by blocks, lists, pids and tasks: the
process and its children are the only ones that change, and pids and tasks go with the blocks
that are torn down. -/

namespace Lifecycle

/-- A block after a reference on it has been given back; with the last one it gives up its task. -/
def Block.surrendered (x : Block) : Block :=
  if x.refCount = 1 then x.released.untasked else x.released

namespace Block

variable (x : Block)

theorem refCount_surrendered : x.surrendered.refCount = x.refCount - 1 := by
  unfold surrendered
  split <;> rfl

theorem pid_surrendered : x.surrendered.pid = x.pid := by
  unfold surrendered
  split <;> rfl

theorem task_surrendered : x.surrendered.task = x.task := by
  unfold surrendered
  split <;> rfl

end Block

namespace TableEntry

variable {e : TableEntry} {p : Pid} {status : RawStatus}

theorem block_released (e : TableEntry) : e.released.block = e.block.surrendered := by
  unfold released Block.surrendered
  split <;> rfl

theorem block_departed (status : RawStatus) (e : TableEntry) : (e.departed status).block =
    if e.block.parent = some kernelPid ∧ e.block.waiter = false
    then (e.block.leaving.published status).collected.surrendered
    else e.block.leaving.published status := by
  unfold departed
  dsimp only
  split
  · rw [block_released]
    rfl
  · rfl

/-- A child that runs changes its parent and nothing else. -/
theorem handedOn_of_running (hs : e.block.state = .running) :
    e.handedOn = ⟨{ e.block with parent := some kernelPid }, some kernelPid, e.record⟩ := by
  have hexited := ((Block.state_eq_running_iff _).1 hs).2
  rw [handedOn, if_pos hexited]
  rfl

theorem block_handedOn_of_zombie (hs : e.block.state = .zombie) :
    e.handedOn.block = e.block.collected.surrendered := by
  obtain ⟨hreaped, hexited⟩ := (Block.state_eq_zombie_iff _).1 hs
  rw [handedOn, if_neg (by simp [hexited]), if_pos hreaped,
    block_released]
  rfl

theorem block_handedOn_of_reaped (hs : e.block.reaped = true) (hx : e.block.exited = true) :
    e.handedOn.block = e.block := by
  rw [handedOn, if_neg (by simp [hx]), if_neg (by simp [hs])]
  rfl

/-- A child that does not run is in no list afterwards. -/
theorem link_handedOn_of_exited (hx : e.block.exited = true) : e.handedOn.link = none := by
  rw [handedOn, if_neg (by simp [hx])]
  split
  · unfold released
    split <;> rfl
  · rfl

/-- What the host records of a task goes with its block. -/
theorem record_handedOn (e : TableEntry) (hz : e.block.refCount ≠ 0) : e.handedOn.record =
    if e.handedOn.block.refCount = 0 then none else e.record := by
  unfold handedOn
  split
  · exact (if_neg hz).symm
  · split
    · unfold released
      split
      · next hn =>
        have hlast : e.block.refCount = 1 := hn
        exact (if_pos (show e.block.refCount - 1 = 0 by omega)).symm
      · next hn =>
        have hmore : e.block.refCount ≠ 1 := hn
        exact (if_neg (show e.block.refCount - 1 ≠ 0 by omega)).symm
    · exact (if_neg hz).symm

/-- A process that has exited stays where it was unless it is torn down. -/
theorem departed_eq (status : RawStatus) (hz : e.block.refCount ≠ 0) :
    (e.departed status).link =
        (if (e.departed status).block.refCount = 0 then none else e.link) ∧
      (e.departed status).record = if (e.departed status).block.refCount = 0 then none
        else e.record.map fun record => { record with threads := record.threads - 1 } := by
  unfold departed
  dsimp only
  split
  · unfold released
    split
    · next hn =>
      have hlast : e.block.refCount = 1 := hn
      have hzero : e.block.refCount - 1 = 0 := by omega
      exact ⟨(if_pos hzero).symm, (if_pos hzero).symm⟩
    · next hn =>
      have hmore : e.block.refCount ≠ 1 := hn
      have hkept : e.block.refCount - 1 ≠ 0 := by omega
      exact ⟨(if_neg hkept).symm, (if_neg hkept).symm⟩
  · exact ⟨(if_neg hz).symm, (if_neg hz).symm⟩

end TableEntry

namespace Kernel

variable {k k' : Kernel} {a : Account} {p : Pid} {b : BlockId} {status : RawStatus}

/-- The exit of the process at `p`, whose block is `b`, changes it and its children. Whoever is
left without references is torn down: pid, links and task are gone, and all others are kept. -/
structure Parts (k : Kernel) (p : Pid) (b : BlockId) (status : RawStatus) (k' : Kernel) :
    Prop where
  size : k'.blocks.size = k.blocks.size
  /-- Reaped, the process loses the table's reference. -/
  reaped : k.exitPath b = .reaped → k'.block b =
    { k.block b with exiting := true, exited := true, code := status, reaped := true }.surrendered
  zombie : k.exitPath b = .zombie →
    k'.block b = { k.block b with exiting := true, exited := true, code := status }
  runningChild : ∀ c ∈ k.childBlocks p, (k.block c).state = .running →
    k'.block c = { k.block c with parent := some kernelPid }
  zombieChild : ∀ c ∈ k.childBlocks p, (k.block c).state = .zombie →
    k'.block c = { k.block c with reaped := true }.surrendered
  reapedChild : ∀ c ∈ k.childBlocks p, (k.block c).state = .reaped → k'.block c = k.block c
  others : ∀ c ≠ b, c ∉ k.childBlocks p → k'.block c = k.block c
  torn : ∀ x, (k'.block x).refCount = 0 ↔ (k.block x).refCount = 0 ∨ (k.block x).refCount = 1 ∧
    (x = b ∧ k.exitPath b = .reaped ∨ x ∈ k.childBlocks p ∧ (k.block x).state = .zombie)
  installed : ∀ q x, k'.pids.lookup q = some x ↔
    k.pids.lookup q = some x ∧ (k'.block x).refCount ≠ 0
  taken : ∀ q, k'.pids.isAllocated q = true ↔ k.pids.isAllocated q = true ∧
    ∀ x, k.pids.lookup q = some x → (k'.block x).refCount ≠ 0
  emptied : k'.family.childrenOf p = []
  /-- The children that run come to the end of the kernel's list. -/
  kernelList : k'.family.childrenOf kernelPid =
    (k.family.childrenOf kernelPid).filter (fun c => c ≠ p ∨ (k'.block b).refCount ≠ 0) ++
      ((k.childBlocks p).filter fun c => (k.block c).state = .running).map
        fun c => (k.block c).pid
  lists : ∀ q ≠ p, q ≠ kernelPid → k'.family.childrenOf q =
    (k.family.childrenOf q).filter fun c => c ≠ p ∨ (k'.block b).refCount ≠ 0
  links : ∀ c q, k'.family.parentLink? c = some q ↔ c ∈ k'.family.childrenOf q
  task : k'.host.task? (k.block b).task =
    if (k'.block b).refCount = 0 then none
    else (k.host.task? (k.block b).task).map fun record =>
      { record with threads := record.threads - 1 }
  tasks : ∀ t ≠ (k.block b).task, k'.host.task? t =
    if ∃ c ∈ k.childBlocks p, (k.block c).task = t ∧ (k'.block c).refCount = 0 then none
    else k.host.task? t
  books : k.SameBooks k'

/-- A table that a process which runs has left by its exit, in entries. -/
structure Quits (k : Kernel) (a : Account) (p : Pid) (b : BlockId) (status : RawStatus)
    (k' : Kernel) : Prop where
  hale : k.Hale a
  found : k.pids.lookup p = some b
  user : p ≠ kernelPid
  running : (k.block b).state = .running
  intact : k'.Intact a.reserved
  entry : ∀ x, k'.entry x =
    if x = b then (k.entry x).departed status else (k.entry x).bereft p
  appends : k.Appends (fun q => if q = kernelPid then k.childBlocks p else []) k'

/-- A block is that of the process that exits, that of a child, or another. -/
theorem cases_of_exit (k : Kernel) (p : Pid) (b x : BlockId) :
    x = b ∨ x ≠ b ∧ x ∈ k.childBlocks p ∨ x ≠ b ∧ x ∉ k.childBlocks p := by
  by_cases hx : x = b
  · exact Or.inl hx
  · exact Or.inr ((em (x ∈ k.childBlocks p)).imp (And.intro hx) (And.intro hx))

namespace Quits

variable (h : k.Quits a p b status k')
include h

theorem counted : (k.block b).refCount ≠ 0 := h.hale.intact.counted h.found

theorem pid_self : (k.block b).pid = p := (h.hale.intact.lookup_iff.1 h.found).1

theorem mem_childBlocks {c : BlockId} : c ∈ k.childBlocks p ↔ (k.entry c).link = some p :=
  h.hale.intact.mem_childBlocks

/-- A process is not its own child. -/
theorem not_own_child : b ∉ k.childBlocks p := by
  have hpid := h.pid_self
  rw [h.mem_childBlocks, ← hpid]
  exact h.hale.tidy.loop (by rw [hpid]; exact h.user)

/-! ### Blocks -/

theorem entry_self : k'.entry b = (k.entry b).departed status :=
  (h.entry b).trans (if_pos rfl)

theorem entry_child {c : BlockId} (hc : c ∈ k.childBlocks p) :
    k'.entry c = (k.entry c).handedOn := by
  have hne : c ≠ b := by
    rintro rfl
    exact h.not_own_child hc
  rw [h.entry, if_neg hne, TableEntry.bereft, if_pos (h.mem_childBlocks.1 hc)]

theorem entry_other {c : BlockId} (hne : c ≠ b) (hc : c ∉ k.childBlocks p) :
    k'.entry c = k.entry c := by
  rw [h.entry, if_neg hne, TableEntry.bereft, if_neg (mt h.mem_childBlocks.2 hc)]

theorem block_reaped (hpath : k.exitPath b = .reaped) : k'.block b =
    { k.block b with exiting := true, exited := true, code := status, reaped := true }.surrendered
    := by
  have hforsaken : (k.block b).parent = some kernelPid ∧ (k.block b).waiter = false := by
    unfold exitPath at hpath
    split at hpath
    · assumption
    · cases hpath
  rw [← block_entry, h.entry_self, TableEntry.block_departed, block_entry, if_pos hforsaken]
  rfl

theorem block_zombie (hpath : k.exitPath b = .zombie) :
    k'.block b = { k.block b with exiting := true, exited := true, code := status } := by
  have hwanted : ¬((k.block b).parent = some kernelPid ∧ (k.block b).waiter = false) := by
    unfold exitPath at hpath
    split at hpath
    · cases hpath
    · assumption
  rw [← block_entry, h.entry_self, TableEntry.block_departed, block_entry, if_neg hwanted]
  rfl

section Child

variable {c : BlockId} (hc : c ∈ k.childBlocks p)
include hc

theorem block_runningChild (hs : (k.block c).state = .running) :
    k'.block c = { k.block c with parent := some kernelPid } := by
  have hstate : (k.entry c).block.state = .running := by rwa [block_entry]
  rw [← block_entry, h.entry_child hc, TableEntry.handedOn_of_running hstate]
  dsimp only
  rw [block_entry]

theorem block_zombieChild (hs : (k.block c).state = .zombie) :
    k'.block c = { k.block c with reaped := true }.surrendered := by
  have hstate : (k.entry c).block.state = .zombie := by rwa [block_entry]
  rw [← block_entry, h.entry_child hc, TableEntry.block_handedOn_of_zombie hstate, block_entry]
  rfl

theorem block_reapedChild (hs : (k.block c).state = .reaped) : k'.block c = k.block c := by
  have hreaped := (Block.state_eq_reaped_iff _).1 hs
  have hexited := h.hale.tidy.reaped c hreaped
  rw [← block_entry, h.entry_child hc,
    TableEntry.block_handedOn_of_reaped (by rwa [block_entry]) (by rwa [block_entry]), block_entry]

theorem counted_child : (k.block c).refCount ≠ 0 :=
  (link_entry.1 (h.mem_childBlocks.1 hc)).1

end Child

theorem block_other {c : BlockId} (hne : c ≠ b) (hc : c ∉ k.childBlocks p) :
    k'.block c = k.block c := by
  rw [← block_entry, h.entry_other hne hc, block_entry]

/-- No block changes its pid or its task. -/
theorem pid_task (x : BlockId) : (k'.block x).pid = (k.block x).pid ∧
    (k'.block x).task = (k.block x).task := by
  rcases cases_of_exit k p b x with rfl | ⟨-, hc⟩ | ⟨hne, hc⟩
  · cases hpath : k.exitPath x with
    | zombie => rw [h.block_zombie hpath]; exact ⟨rfl, rfl⟩
    | reaped =>
      rw [h.block_reaped hpath]
      exact ⟨Block.pid_surrendered _, Block.task_surrendered _⟩
  · cases hs : (k.block x).state with
    | running => rw [h.block_runningChild hc hs]; exact ⟨rfl, rfl⟩
    | zombie =>
      rw [h.block_zombieChild hc hs]
      exact ⟨Block.pid_surrendered _, Block.task_surrendered _⟩
    | reaped => rw [h.block_reapedChild hc hs]; exact ⟨rfl, rfl⟩
  · rw [h.block_other hne hc]
    exact ⟨rfl, rfl⟩

/-- Nobody is torn down but those who are reaped with nobody holding them. -/
theorem torn (x : BlockId) : (k'.block x).refCount = 0 ↔ (k.block x).refCount = 0 ∨
    (k.block x).refCount = 1 ∧ (x = b ∧ k.exitPath b = .reaped ∨
      x ∈ k.childBlocks p ∧ (k.block x).state = .zombie) := by
  rcases cases_of_exit k p b x with rfl | ⟨hne, hc⟩ | ⟨hne, hc⟩
  · have hz := h.counted
    have hown := h.not_own_child
    cases hpath : k.exitPath x with
    | zombie => simp [h.block_zombie hpath, hown, hz]
    | reaped =>
      rw [h.block_reaped hpath, Block.refCount_surrendered]
      simp only [hz, and_true, true_or, false_or]
      omega
  · have hz := h.counted_child hc
    cases hs : (k.block x).state with
    | running => simp [h.block_runningChild hc hs, hne, hz]
    | zombie =>
      rw [h.block_zombieChild hc hs, Block.refCount_surrendered]
      simp only [hz, hc, and_true, or_true, false_or]
      omega
    | reaped => simp [h.block_reapedChild hc hs, hne, hz]
  · simp [h.block_other hne hc, hne, hc]

theorem counted_of_counted {x : BlockId} (hz : (k'.block x).refCount ≠ 0) :
    (k.block x).refCount ≠ 0 :=
  fun hzero => hz ((h.torn x).2 (Or.inl hzero))

/-! ### Pids -/

theorem installed (q : Pid) (x : BlockId) : k'.pids.lookup q = some x ↔
    k.pids.lookup q = some x ∧ (k'.block x).refCount ≠ 0 := by
  rw [h.intact.lookup_iff, h.hale.intact.lookup_iff, (h.pid_task x).1]
  exact ⟨fun ⟨hpid, hz⟩ => ⟨⟨hpid, h.counted_of_counted hz⟩, hz⟩, fun ⟨⟨hpid, _⟩, hz⟩ => ⟨hpid, hz⟩⟩

theorem taken (q : Pid) : k'.pids.isAllocated q = true ↔ k.pids.isAllocated q = true ∧
    ∀ x, k.pids.lookup q = some x → (k'.block x).refCount ≠ 0 := by
  rw [h.intact.taken, h.hale.intact.taken]
  constructor
  · rintro (⟨x, hx⟩ | hq)
    · obtain ⟨hx, hz⟩ := (h.installed q x).1 hx
      refine ⟨Or.inl ⟨x, hx⟩, fun y hy => ?_⟩
      obtain rfl := Option.some.inj (hx.symm.trans hy)
      exact hz
    · refine ⟨Or.inr hq, fun x hx => ?_⟩
      rw [h.hale.intact.empty hq] at hx
      cases hx
  · rintro ⟨⟨x, hx⟩ | hq, hkept⟩
    · exact Or.inl ⟨x, (h.installed q x).2 ⟨hx, hkept x hx⟩⟩
    · exact Or.inr hq

/-! ### Lists -/

/-- Who is linked afterwards: those who were, but for the process if it is torn down, and the
children that run. -/
theorem link_iff {x : BlockId} {q : Pid} : (k'.entry x).link = some q ↔
    (x ≠ b ∨ (k'.block b).refCount ≠ 0) ∧ q ≠ p ∧ (k.entry x).link = some q ∨
      q = kernelPid ∧ x ∈ k.childBlocks p ∧ (k.block x).state = .running := by
  rcases cases_of_exit k p b x with rfl | ⟨hne, hc⟩ | ⟨hne, hc⟩
  · have hlink := (TableEntry.departed_eq (e := k.entry x) status
      (by rw [block_entry]; exact h.counted)).1
    rw [← h.entry_self, block_entry] at hlink
    have hown : (k.entry x).link = some q → q ≠ p := by
      rintro hl rfl
      exact h.not_own_child (h.mem_childBlocks.2 hl)
    rw [hlink]
    by_cases hz : (k'.block x).refCount = 0
    · simp [hz, h.not_own_child]
    · simpa [hz, h.not_own_child] using hown
  · have hl := h.mem_childBlocks.1 hc
    rw [h.entry_child hc, hl]
    by_cases hs : (k.block x).state = .running
    · rw [TableEntry.handedOn_of_running (by rwa [block_entry])]
      simp only [Option.some.injEq, hc, hs, and_self, and_true]
      constructor
      · exact fun hq => Or.inr hq.symm
      · rintro (⟨-, hqp, hpq⟩ | hq)
        · exact absurd hpq.symm hqp
        · exact hq.symm
    · have hexited : (k.entry x).block.exited = true := by
        rw [block_entry]
        by_contra hx
        refine hs ((Block.state_eq_running_iff _).2 ⟨?_, Bool.eq_false_iff.2 hx⟩)
        exact Bool.eq_false_iff.2 fun hreaped => hx (h.hale.tidy.reaped x hreaped)
      rw [TableEntry.link_handedOn_of_exited hexited]
      simp only [reduceCtorEq, hs, and_false, or_false, Option.some.injEq, false_iff]
      rintro ⟨-, hqp, hpq⟩
      exact hqp hpq.symm
  · rw [h.entry_other hne hc]
    have hnot := mt h.mem_childBlocks.2 hc
    constructor
    · intro hl
      refine Or.inl ⟨Or.inl hne, ?_, hl⟩
      rintro rfl
      exact hnot hl
    · rintro (⟨-, -, hl⟩ | ⟨-, hm, -⟩)
      · exact hl
      · exact absurd hm hc

theorem childBlocks_eq {q : Pid} (hq : q ≠ p) : k'.childBlocks q =
    ((k.childBlocks q).filter fun x => x ≠ b ∨ (k'.block b).refCount ≠ 0) ++
      if q = kernelPid then (k.childBlocks p).filter fun c => (k.block c).state = .running
      else [] := by
  have hi := h.hale.intact
  have hnodup : (k.childBlocks q ++ if q = kernelPid then k.childBlocks p else []).Nodup := by
    split
    · refine List.nodup_append.2 ⟨hi.nodup_childBlocks q, hi.nodup_childBlocks p, ?_⟩
      rintro x hx _ hx' rfl
      rw [hi.mem_childBlocks] at hx hx'
      exact hq (Option.some.inj (hx.symm.trans hx'))
    · simpa using hi.nodup_childBlocks q
  refine eq_of_sublist hnodup (h.appends q) (List.filter_sublist.append ?_) fun x => ?_
  · split
    · exact List.filter_sublist
    · exact .refl _
  · rw [h.intact.mem_childBlocks, h.link_iff, List.mem_append, List.mem_filter]
    by_cases hk : q = kernelPid
    · simp only [hk, hk ▸ hq, if_true, List.mem_filter, hi.mem_childBlocks, decide_eq_true_eq,
        true_and, ne_eq, not_false_eq_true, and_comm]
    · simp only [hk, hq, if_false, List.not_mem_nil, hi.mem_childBlocks, decide_eq_true_eq,
        false_and, true_and, ne_eq, not_false_eq_true, and_comm]

/-- A list without the process, by blocks and by pids. -/
theorem pids_filter (q : Pid) (kept : Prop) [Decidable kept] :
    ((k.childBlocks q).filter fun x => x ≠ b ∨ kept).map (fun x => (k.block x).pid) =
      (k.family.childrenOf q).filter fun c => c ≠ p ∨ kept := by
  have hi := h.hale.intact
  rw [hi.childrenOf_eq, List.filter_map]
  refine congrArg _ (List.filter_congr fun x hx => ?_)
  have hz : (k.block x).refCount ≠ 0 := (link_entry.1 (hi.mem_childBlocks.1 hx)).1
  have hself : x = b ↔ (k.block x).pid = p := by
    rw [← h.pid_self]
    exact ⟨fun hxb => congrArg (fun x => (k.block x).pid) hxb, hi.eq_of_pid hz h.counted⟩
  simp [hself]

theorem childrenOf_eq {q : Pid} (hq : q ≠ p) : k'.family.childrenOf q =
    ((k.family.childrenOf q).filter fun c => c ≠ p ∨ (k'.block b).refCount ≠ 0) ++
      if q = kernelPid then ((k.childBlocks p).filter fun c => (k.block c).state = .running).map
        fun c => (k.block c).pid
      else [] := by
  have hpids : (fun x => (k'.block x).pid) = fun x => (k.block x).pid :=
    funext fun x => (h.pid_task x).1
  rw [h.intact.childrenOf_eq, hpids, h.childBlocks_eq hq, List.map_append, h.pids_filter]
  split <;> rfl

theorem emptied : k'.family.childrenOf p = [] := by
  rw [h.intact.childrenOf_eq, List.map_eq_nil_iff, List.eq_nil_iff_forall_not_mem]
  intro x hx
  rw [h.intact.mem_childBlocks, h.link_iff] at hx
  rcases hx with ⟨-, hne, -⟩ | ⟨hroot, -⟩
  · exact hne rfl
  · exact h.user hroot

/-! ### Tasks -/

/-- The host knows what the entry of a block shows of its task. -/
theorem task?_eq {x : BlockId} (hz : (k.block x).refCount ≠ 0) :
    k'.host.task? (k.block x).task = (k'.entry x).record := by
  by_cases hz' : (k'.block x).refCount = 0
  · rw [entry_of_vacant hz']
    refine Option.eq_none_iff_forall_ne_some.2 fun record hrecord => ?_
    obtain ⟨y, hy, hfound⟩ := h.intact.task?_iff.1 hrecord
    have hcounted : (k'.block y).refCount ≠ 0 := fun hzero => by
      rw [entry_of_vacant hzero] at hfound
      cases hfound
    rw [(h.pid_task y).2] at hy
    obtain rfl := h.hale.intact.eq_of_task (h.counted_of_counted hcounted) hz hy
    exact hcounted hz'
  · rw [entry_of_counted hz', (h.pid_task x).2]

theorem task_self : k'.host.task? (k.block b).task =
    if (k'.block b).refCount = 0 then none
    else (k.host.task? (k.block b).task).map fun record =>
      { record with threads := record.threads - 1 } := by
  have hz := h.counted
  have hrecord := (TableEntry.departed_eq (e := k.entry b) status (by rwa [block_entry])).2
  rw [← h.entry_self, block_entry, entry_of_counted hz] at hrecord
  exact (h.task?_eq hz).trans hrecord

theorem tasks {t : TaskHandle} (ht : t ≠ (k.block b).task) : k'.host.task? t =
    if ∃ c ∈ k.childBlocks p, (k.block c).task = t ∧ (k'.block c).refCount = 0 then none
    else k.host.task? t := by
  have hi := h.hale.intact
  by_cases hknown : ∃ x, (k.block x).refCount ≠ 0 ∧ (k.block x).task = t
  · obtain ⟨x, hz, rfl⟩ := hknown
    have hne : x ≠ b := fun hx => ht (congrArg (fun x => (k.block x).task) hx)
    have hrecord : (k.entry x).record = k.host.task? (k.block x).task := by
      rw [entry_of_counted hz]
    rw [h.task?_eq hz]
    by_cases hc : x ∈ k.childBlocks p
    · have hchild := TableEntry.record_handedOn (k.entry x) (by rwa [block_entry])
      rw [← h.entry_child hc, block_entry, hrecord] at hchild
      rw [hchild]
      refine if_congr ⟨fun hzero => ⟨x, hc, rfl, hzero⟩, ?_⟩ rfl rfl
      rintro ⟨y, hy, htask, hzero⟩
      obtain rfl := hi.eq_of_task (h.counted_child hy) hz htask
      exact hzero
    · rw [h.entry_other hne hc, hrecord, if_neg]
      rintro ⟨y, hy, htask, -⟩
      obtain rfl := hi.eq_of_task (h.counted_child hy) hz htask
      exact hc hy
  · have hnone : ∀ {k₁ : Kernel}, k₁.Intact a.reserved →
        (∀ x, (k₁.block x).refCount ≠ 0 → (k.block x).refCount ≠ 0) →
        (∀ x, (k₁.block x).task = (k.block x).task) → k₁.host.task? t = none :=
      fun {k₁} hi₁ hz₁ ht₁ => Option.eq_none_iff_forall_ne_some.2 fun record hrecord => by
        obtain ⟨x, hx, hfound⟩ := hi₁.task?_iff.1 hrecord
        refine hknown ⟨x, hz₁ x fun hzero => ?_, (ht₁ x).symm.trans hx⟩
        rw [entry_of_vacant hzero] at hfound
        cases hfound
    rw [hnone h.intact (fun x => h.counted_of_counted) fun x => (h.pid_task x).2,
      hnone hi (fun _ => id) fun _ => rfl, ite_self]

/-! ### The whole table -/

theorem parts (hsize : k'.blocks.size = k.blocks.size) (hbooks : k.SameBooks k') :
    k.Parts p b status k' where
  size := hsize
  reaped := h.block_reaped
  zombie := h.block_zombie
  runningChild _ := h.block_runningChild
  zombieChild _ := h.block_zombieChild
  reapedChild _ := h.block_reapedChild
  others _ := h.block_other
  torn := h.torn
  installed := h.installed
  taken := h.taken
  emptied := h.emptied
  kernelList := (h.childrenOf_eq h.user.symm).trans (by rw [if_pos rfl])
  lists q hq hk := (h.childrenOf_eq hq).trans (by rw [if_neg hk, List.append_nil])
  links c q := h.intact.family.mirror c q
  task := h.task_self
  tasks _ := h.tasks
  books := hbooks

end Quits

theorem Hale.exiting_of_running (h : k.Hale a) (hr : (k.block b).state = .running) :
    (k.block b).exiting = false := by
  rw [h.even b]
  exact ((Block.state_eq_running_iff _).1 hr).2

theorem Hale.quits (h : k.Hale a) (hb : k.pids.lookup p = some b) (hp : p ≠ kernelPid)
    (hr : (k.block b).state = .running) (status : RawStatus) :
    k.Quits a p b status (k.exit p status).2 ∧ k.SameBooks (k.exit p status).2 := by
  obtain ⟨hbooks, hentry⟩ := h.intact.entry_exit h.tidy hb hp (h.exiting_of_running hr) status
  exact ⟨⟨h, hb, hp, hr, h.intact.exit p status, hentry, h.intact.appends_exit p status⟩, hbooks⟩

theorem publishExit_fst (k : Kernel) (b : BlockId) (status : RawStatus) :
    (k.publishExit b status).1 = k.exitPath b := by
  have hparent : ((k.update b (·.published status)).block b).parent = (k.block b).parent :=
    view_update Block.parent rfl b
  have hwaiter : ((k.update b (·.published status)).block b).waiter = (k.block b).waiter :=
    view_update Block.waiter rfl b
  unfold publishExit exitPath
  dsimp only
  rw [← hparent, ← hwaiter]
  exact apply_ite Prod.fst _ _ _

/-- An exit ends the way that the process shows before. -/
theorem Hale.exit_fst (h : k.Hale a) (hb : k.pids.lookup p = some b) (hp : p ≠ kernelPid)
    (hr : (k.block b).state = .running) (status : RawStatus) :
    (k.exit p status).1 = some (k.exitPath b) := by
  obtain ⟨hpid, -⟩ := h.intact.lookup_iff.1 hb
  obtain ⟨hbegun, htidy, hentry⟩ := h.intact.entry_beginExit h.tidy hb hp (h.exiting_of_running hr)
  have hown : (((k.entry b).update .retained).update .leaving).link ≠ some p := by
    have hloop := h.tidy.loop (x := b) (by rwa [hpid])
    rwa [hpid] at hloop
  have hself := (hbegun.intact.entry_rearrangeChildren htidy p).2 b
  rw [hentry, if_pos rfl, TableEntry.bereft, if_neg hown] at hself
  have hblock : (((k.update b .retained).beginExit b).rearrangeChildren p).block b =
      (k.block b).retained.leaving := by
    simpa using congrArg TableEntry.block hself
  have hpath := publishExit_fst (((k.update b .retained).beginExit b).rearrangeChildren p) b status
  unfold exitPath at hpath ⊢
  rw [hblock] at hpath
  rw [(h.intact.exit_eq hb status).1, hpath]
  rfl

/-- A process that runs exits. -/
theorem Hale.parts (h : k.Hale a) (hb : k.pids.lookup p = some b) (hp : p ≠ kernelPid)
    (hr : (k.block b).state = .running) (status : RawStatus) :
    ∃ k', k.exit p status = (some (k.exitPath b), k') ∧ k.Parts p b status k' := by
  obtain ⟨hquits, hbooks⟩ := h.quits hb hp hr status
  exact ⟨_, Prod.ext (h.exit_fst hb hp hr status) rfl,
    hquits.parts (size_exit k p status) hbooks⟩

end Kernel

end Lifecycle
