import Lifecycle.Proofs.PidMap.Live
import Lifecycle.Proofs.Session.Staffing

/-! Pids, blocks, tasks and threads are accounted for. In a lawful session, with forks stopped
at any of their calls, the pids taken are those of installed blocks and of creations under way,
the tasks of the host are those of installed blocks, and its counters tell how many there are. -/

namespace Lifecycle

namespace Kernel

variable {k : Kernel} {a : Account}

/-! ### Installed blocks -/

namespace Placed

variable (h : k.Placed a)
include h

theorem mem_installed {b : BlockId} :
    b ∈ k.installed ↔ k.pids.lookup (k.block b).pid = some b := by
  simp only [installed, List.mem_filterMap, h.valid.peek_eq]
  refine ⟨fun ⟨p, _, hp⟩ => ?_, fun hb => ⟨_, h.valid.mem_livePids.2 ⟨b, hb⟩, hb⟩⟩
  rw [(h.own hp).2]
  exact hp

/-- Each pid in use is that of the block installed there. -/
theorem pids_installed : (k.installed.map fun b => (k.block b).pid) = k.livePids := by
  rw [installed, List.map_filterMap]
  refine (List.filterMap_congr fun p hp => ?_).trans List.filterMap_some
  obtain ⟨b, hb⟩ := h.valid.mem_livePids.1 hp
  rw [h.valid.peek_eq, hb, Option.map_some, (h.own hb).2]

theorem nodup_installed : k.installed.Nodup := by
  refine .of_map (fun b => (k.block b).pid) ?_
  rw [h.pids_installed]
  exact h.valid.nodup_livePids

end Placed

namespace Intact

variable {r : List Pid} (h : k.Intact r)
include h

/-- A block is installed as long as it has not given up its task. -/
theorem mem_installed {b : BlockId} :
    b ∈ k.installed ↔ b < k.blocks.size ∧ (k.block b).taskReleased = false := by
  have hinstalled : b ∈ k.installed ↔ k.pids.lookup (k.block b).pid = some b :=
    h.placed.mem_installed
  rw [hinstalled]
  constructor
  · intro hl
    have hlt := (h.own hl).1
    exact ⟨hlt, Bool.eq_false_iff.2 (mt (h.released b hlt).1 (h.counted hl))⟩
  · rintro ⟨hlt, hr⟩
    exact h.installed b (mt (h.released b hlt).2 (Bool.eq_false_iff.1 hr))

/-- The tasks there are belong to installed blocks. -/
theorem contains_task (t : TaskHandle) :
    k.host.tasks.contains t = true ↔ ∃ b ∈ k.installed, (k.block b).task = t := by
  simp only [h.hosted.known, h.mem_installed, and_assoc, and_comm (a := (k.block _).task = t)]

/-- No two blocks share a task. -/
theorem nodup_tasks : (k.installed.map fun b => (k.block b).task).Nodup :=
  h.placed.nodup_installed.map_on fun b hb c hc =>
    h.hosted.distinct b (h.mem_installed.1 hb).1 c (h.mem_installed.1 hc).1

theorem size_tasks : k.host.tasks.size = k.installed.length := by
  have hperm : (k.host.tasks.entries.map Prod.fst).Perm
      (k.installed.map fun b => (k.block b).task) := by
    refine (List.perm_ext_iff_of_nodup k.host.tasks.nodup h.nodup_tasks).2 fun t => ?_
    rw [← Assoc.contains_iff_mem, h.contains_task, List.mem_map]
  have hlength := hperm.length_eq
  rwa [List.length_map, List.length_map] at hlength

end Intact

namespace Staffed

variable {crew : BlockId → Nat} {work : List HostCall} (h : k.Staffed crew work)
include h

theorem mem_work {t : TaskHandle} : .spawn t none ∈ work ↔ .spawn t none ∈ k.calls := by
  rw [← h.work, List.mem_filter]
  exact and_iff_left rfl

theorem counted : k.host.Counted k.calls := by
  rw [h.host]
  exact Host.counted_of_heeded h.heeded

theorem spawned : k.host.counters.spawned = work.countP HostCall.isStart := by
  rw [h.counted.spawned, ← h.work, List.countP_filter]
  refine List.countP_congr fun call _ => ?_
  rw [HostCall.isWork]
  cases call.isStart <;> simp

theorem terminated : k.host.counters.terminated = work.countP HostCall.isTermination := by
  rw [h.counted.terminated, ← h.work, List.countP_filter]
  refine List.countP_congr fun call _ => ?_
  rw [HostCall.isWork]
  cases call.isTermination <;> simp

end Staffed

end Kernel

namespace Session

variable {s : Session} {h : List Event}

/-- What a stopped fork or creation has taken a pid for is a task to be created. -/
theorem length_taken (s : Session) :
    s.taken.length = s.frames.countP fun f => f.pending.service == .createTask := by
  rw [taken, List.length_filterMap_eq_countP]
  refine List.countP_congr fun f _ => ?_
  obtain ⟨pending, purpose⟩ := f
  cases pending <;> simp [Pending.reserved?, Pending.service]

/-- The processes whose thread was started and that have not exited. -/
def started (s : Session) (h : List Event) : Finset BlockId :=
  (Finset.range s.kernel.blocks.size).filter fun b => (forkerOf h b).isSome = true ∧
    .spawn (s.kernel.block b).task none ∈ s.kernel.calls ∧ (s.kernel.block b).exited = false

/-- The kernel has a thread, and so has a forked process from its link until it exits or its
fork is abandoned. -/
def Attached (s : Session) (h : List Event) (b : BlockId) : Prop :=
  b = Kernel.root ∨
    (∃ q, forkerOf h b = some q) ∧ b ∉ s.halfForked ∧ (s.kernel.block b).exited = false

structure Tallied (s : Session) (h : List Event) : Prop where
  /-- The pids taken are those of installed blocks and one for each task that is being
  created. -/
  pids : ∀ p, s.kernel.pids.isAllocated p = true ↔ p ∈ s.kernel.livePids ++ s.taken
  distinct : (s.kernel.livePids ++ s.taken).Nodup
  creating : s.taken.length = s.frames.countP fun f => f.pending.service == .createTask
  free : s.kernel.pids.free = s.kernel.pids.capacity - (s.kernel.livePids ++ s.taken).length
  fits : (s.kernel.livePids ++ s.taken).length ≤ s.kernel.pids.capacity
  own : (s.kernel.installed.map fun b => (s.kernel.block b).pid) = s.kernel.livePids
  /-- The tasks of the host are those of the installed blocks, each with its own. -/
  tasks : (s.kernel.installed.map fun b => (s.kernel.block b).task).Nodup
  hosted : ∀ t, s.kernel.host.tasks.contains t = true ↔
    ∃ b ∈ s.kernel.installed, (s.kernel.block b).task = t
  created : s.kernel.host.counters.created =
    s.kernel.host.counters.destroyed + s.kernel.installed.length
  threads : ∀ b ∈ s.kernel.installed, ∃ record,
    s.kernel.host.task? (s.kernel.block b).task = some record ∧
      (s.Attached h b → record.threads = 1) ∧ (¬s.Attached h b → record.threads = 0)
  spawned : s.kernel.host.counters.spawned =
    s.kernel.host.counters.terminated + (s.started h).card
  /-- The log holds every call, the newest first: the host is what they make of it. -/
  replayed : s.kernel.host = .replay s.kernel.calls
  /-- A task is destroyed when it is there, without threads. -/
  destroyed : ∀ {newer task older}, s.kernel.calls = newer ++ .destroyTask task :: older →
    ∃ record, (Host.replay older).task? task = some record ∧ record.threads = 0
  /-- Only a termination names a task that has been destroyed. -/
  named : ∀ {newer call older task}, s.kernel.calls = newer ++ call :: older →
    .destroyTask task ∈ older → task ∈ call.tasks → call = .terminate task

variable {work : List HostCall}

/-- The threads started for processes that run on belong to those that work. -/
theorem Manned.started_eq (m : s.Manned h work) (hs : s.Sound h) : s.started h = s.workers h := by
  ext b
  rw [hs.mem_workers, started, Finset.mem_filter, Finset.mem_range, ← m.staffed.mem_work]
  constructor
  · rintro ⟨hb, hforked, hspawned, he⟩
    obtain ⟨c, hc, htask, hl⟩ := m.employs.started _ hspawned
    obtain rfl := m.staffed.hosted.distinct c hc b hb htask
    exact ⟨hl, he⟩
  · intro hw
    obtain ⟨q, hq⟩ := Option.isSome_iff_exists.1 hw.1.1
    exact ⟨hs.forker_lt hq, hw.1.1, m.employs.running b hw, hw.2⟩

theorem Manned.tallied (m : s.Manned h work) (hs : s.Sound h) (hi : s.kernel.Intact s.taken) :
    s.Tallied h := by
  have hp := hs.kernel.placed
  have hpids : ∀ p, s.kernel.pids.isAllocated p = true ↔ p ∈ s.kernel.livePids ++ s.taken :=
    fun p => by
      rw [hp.taken, List.mem_append, Kernel.livePids, hp.valid.mem_livePids]
      rfl
  have hdistinct : (s.kernel.livePids ++ s.taken).Nodup := by
    refine List.nodup_append.2 ⟨hp.valid.nodup_livePids, hp.nodup, fun p hl q hq he => ?_⟩
    subst he
    obtain ⟨b, hb⟩ := hp.valid.mem_livePids.1 hl
    rw [hp.empty p hq] at hb
    cases hb
  have hfree := hp.valid.free_add_length hdistinct hpids
  exact {
    pids := hpids
    distinct := hdistinct
    creating := s.length_taken
    free := by omega
    fits := by omega
    own := hp.pids_installed
    tasks := hi.nodup_tasks
    hosted := hi.contains_task
    created := hi.size_tasks ▸ m.staffed.counted.created
    threads := fun b hb => by
      have hmem := (hi.contains_task (s.kernel.block b).task).2 ⟨b, hb, rfl⟩
      obtain ⟨record, hrecord⟩ := (s.kernel.host.contains_iff _).1 hmem
      have hthreads := m.staffed.threads b (hi.mem_installed.1 hb).1 record hrecord
      refine ⟨record, hrecord, fun ha => hthreads.trans (if_pos ?_), fun ha =>
        hthreads.trans (if_neg ?_)⟩
      · exact ha.imp_right (.imp_left Option.isSome_iff_exists.2)
      · exact mt (Or.imp_right (.imp_left Option.isSome_iff_exists.1)) ha
    spawned := by
      rw [m.staffed.spawned, m.staffed.terminated, m.started_eq hs]
      exact m.employs.balanced
    replayed := m.staffed.host
    destroyed := fun {newer task older} hc => Host.unmanned_of_destroyed (hc ▸ m.staffed.heeded)
    named := fun {newer call older task} hc => Host.terminate_of_destroyed (hc ▸ m.staffed.heeded)
  }

theorem intact_run {config : Config} {refusal : Option Errno} {moves : List Move}
    (hb : boot config refusal = .ok s) (hl : s.lawful [] moves = true) :
    (s.run moves).kernel.Intact (s.run moves).taken := by
  have hplaced := ((sound_boot hb).1.run hl).kernel.placed
  obtain ⟨hfirm, hsettled⟩ := firm_boot hb
  rcases (hfirm.run hsettled moves).1.kernel hplaced.fault with hi | hspent
  · exact hi
  · cases hspent.down.live.symm.trans hplaced.live

/-- Pids, blocks, tasks and threads are accounted for wherever a lawful run leads. -/
theorem tallied_run {config : Config} {refusal : Option Errno} {moves : List Move}
    (hb : boot config refusal = .ok s) (hl : s.lawful [] moves = true) :
    (s.run moves).Tallied (s.history [] moves) := by
  obtain ⟨work, m⟩ := manned_run hb hl
  exact m.tallied ((sound_boot hb).1.run hl) (intact_run hb hl)

/-- A created block has been released, a fork has failed, one of two processes has left, and a
fork is about to create a task. -/
theorem tallied_amid_fork : ∃ s : Session, ∃ moves : List Move,
    boot { maxProcesses := 8 } none = .ok s ∧ s.lawful [] moves = true ∧
      (s.run moves).taken = [1] ∧ (s.run moves).kernel.livePids = [0, 2] ∧
      (s.run moves).kernel.host.counters =
        { created := 5, destroyed := 3, spawned := 2, terminated := 1 } ∧
      (s.run moves).Attached (s.history [] moves) 3 ∧
      (s.run moves).Tallied (s.history [] moves) := by
  let moves : List Move :=
    [.create "a" 0, .resume none, .release 0,
      .fork 0 .context, .resume none, .resume none, .resume none, .resume none,
      .fork 0 .context, .resume none, .resume none, .resume none, .resume none,
      .fork 1 .context, .resume none, .resume none, .resume none, .resume (some .enomem),
      .wait 0 1 0 .context none, .exit 1 ⟨.exited, 7⟩, .fork 2 .context]
  obtain ⟨s, hb, hl, ht, hp, hc, ha⟩ : ∃ s : Session,
      boot { maxProcesses := 8 } none = .ok s ∧ s.lawful [] moves = true ∧
        (s.run moves).taken = [1] ∧ (s.run moves).kernel.livePids = [0, 2] ∧
        (s.run moves).kernel.host.counters =
          { created := 5, destroyed := 3, spawned := 2, terminated := 1 } ∧
        forkerOf (s.history [] moves) 3 = some 0 ∧ 3 ∉ (s.run moves).halfForked ∧
        ((s.run moves).kernel.block 3).exited = false :=
    ⟨_, rfl, by decide +kernel⟩
  exact ⟨s, moves, hb, hl, ht, hp, hc, Or.inr ⟨⟨0, ha.1⟩, ha.2⟩, tallied_run hb hl⟩

end Session

end Lifecycle
