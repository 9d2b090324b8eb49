import Lifecycle.Proofs.Kernel.Closing
import Lifecycle.Proofs.Kernel.Perishing
import Lifecycle.Proofs.Session.Firm
import Lifecycle.Proofs.Session.Stranding

/-! Sessions whose table is shut down. A fork that has stopped fails at the call it goes on with,
unless the host gives its child a task. Once no fork is left, nothing is done to the table or its
host any more: every call that needs the table is refused, and references that are given back
change no more than their counts. -/

namespace Lifecycle.Session

/-- A session whose table is shut down, with no fork left in it. -/
structure Sealed (s : Session) : Prop where
  kernel : s.kernel.Spent
  frames : s.frames = []

/-- What is answered to calls that need the table. -/
structure Refuses (s : Session) : Prop where
  fork : ∀ pid via, (s.step (.fork pid via)).1 =
    if s.canCall via pid then .forked via (.error .shutDown) else .noContext
  create : ∀ name slot, (s.step (.create name slot)).1 = .created (.error .shutDown)
  get : ∀ pid slot, (s.step (.get pid slot)).1 = .got none
  wait : ∀ caller target via destination,
    (s.step (.wait caller target 0 via destination)).1 = if s.canCall via caller
      then .waited ⟨via, .error (.noSuchProcess target), destination⟩ else .noContext
  exit : ∀ pid status, (s.step (.exit pid status)).1 =
    match s.contexts.get? pid with
    | none => .noContext
    | some context => if s.isBusy context then .busy else .exited pid none
  shutdown : (s.step .shutdown).1 = .leaked []

/-- What a shutdown comes to, and what remains so. -/
structure Closes (s : Session) : Prop where
  /-- The processes that are left are those installed, by ascending pid. -/
  leaked : (s.step .shutdown).1 = .leaked (s.kernel.livePids.filter (· ≠ kernelPid)) ∧
    (s.kernel.livePids.filter (· ≠ kernelPid)).Pairwise (· < ·)
  /-- The tasks that the host has are destroyed, each once. -/
  destroyed : ∃ new, (s.step .shutdown).2.2.kernel.calls = new ++ s.kernel.calls ∧
    (new.filterMap (·.destroyed?)).Nodup ∧
    ∀ t, t ∈ new.filterMap (·.destroyed?) ↔ ∃ record, s.kernel.host.task? t = some record
  cleared : (s.step .shutdown).2.2.kernel.Cleared
  /-- Unless a fork or creation is stopped, later moves do not touch the table, and make no
  calls of its host. -/
  rests : s.frames = [] → ∀ moves,
    (s.step .shutdown).2.2.kernel.Rests ((s.step .shutdown).2.2.run moves).kernel
  refuses : s.frames = [] → ∀ moves, ((s.step .shutdown).2.2.run moves).Refuses

/-- What becomes of a stopped fork when the call that it has stopped before is made or refused. -/
structure Undoes (s : Session) (pending : Pending) (via : Via) (frames : List Frame)
    (refusal : Option Errno) : Prop where
  /-- A check fails exactly if the host gives the child a task. -/
  faults : (s.step (.resume refusal)).2.2.kernel.fault ≠ none ↔
    pending.service = .createTask ∧ refusal = none
  undone : (s.step (.resume refusal)).2.2.kernel.fault = none →
    (∃ error, (s.step (.resume refusal)).1 = .forked via (.error error)) ∧
      (s.step (.resume refusal)).2.2.frames = frames ∧
      (s.step (.resume refusal)).2.2.kernel.Cleared

variable {s : Session}

/-! ### Nothing is done any more -/

theorem Sealed.refuses (h : s.Sealed) : s.Refuses := by
  have hl := h.kernel.down.live
  refine ⟨fun pid via => ?_, fun name slot => ?_, fun pid slot => ?_,
    fun caller target via destination => ?_, fun pid status => ?_, ?_⟩
  all_goals simp only [step, act]
  · rw [Kernel.beginFork_of_dead hl]
    cases s.canCall via pid <;> rfl
  · rw [Kernel.beginCreate_of_dead hl]
    rfl
  · rw [Kernel.get_of_dead hl]
  · have hw : s.kernel.wait caller target 0 =
        (.done (.error (.noSuchProcess target)), s.kernel) := by
      unfold Kernel.wait
      rw [if_neg (by decide)]
      cases s.kernel.targetPid? target with
      | none => rfl
      | some pid =>
        dsimp only
        rw [Kernel.get_of_dead hl]
    rw [wait, hw]
    cases s.canCall via caller <;> rfl
  · cases hc : s.contexts.get? pid with
    | none => simp only [exit, hc]
    | some context =>
      simp only [exit, hc, Kernel.exitThread_of_dead hl]
      cases s.isBusy context <;> rfl
  · rw [Kernel.shutdown_of_dead hl]

/-- A move leaves the table as it is, but for blocks. -/
theorem Sealed.act (h : s.Sealed) (move : Move) :
    (s.kernel.Rests (s.act move).2.kernel ∧ (s.act move).2.kernel.Spent) ∧
      (s.act move).2.frames = [] := by
  have hp := performsDown h.kernel.down.live move
  generalize s.act move = out at hp ⊢
  cases hp with
  | refused => exact ⟨⟨.refl _, h.kernel⟩, h.frames⟩
  | exit => exact ⟨⟨.refl _, h.kernel⟩, h.frames⟩
  | resume stopped => cases h.frames.symm.trans stopped
  | slot handles =>
    refine ⟨handles.kernel_of (P := fun k => s.kernel.Rests k ∧ k.Spent) ⟨.refl _, h.kernel⟩
      (fun k b hk => ⟨hk.1.trans (hk.2.rests_release b), hk.2.release b⟩)
      fun b => ⟨Kernel.rests_retain .., ?_⟩, handles.frames.trans h.frames⟩
    rw [Kernel.retain_eq]
    split
    · exact h.kernel.alike (.halt ..)
    · next hz => exact h.kernel.alike (.retained hz)

theorem Sealed.step (h : s.Sealed) (move : Move) :
    s.kernel.Rests (s.step move).2.2.kernel ∧ (s.step move).2.2.Sealed := by
  obtain ⟨hk, hf⟩ := h.act move
  have hsettled := settle_of (s := (s.act move).2) (P := fun k => s.kernel.Rests k ∧ k.Spent)
    (fun b hk => ⟨hk.1.trans (hk.2.rests_wake b), hk.2.wake b⟩) hk
  exact ⟨hsettled.1, hsettled.2, (frames_settle _).trans hf⟩

theorem Sealed.run (h : s.Sealed) (moves : List Move) :
    s.kernel.Rests (s.run moves).kernel ∧ (s.run moves).Sealed := by
  induction moves generalizing s with
  | nil => exact ⟨.refl _, h⟩
  | cons move moves ih =>
    rw [run_cons]
    split
    · exact ih h
    · obtain ⟨hrests, hsealed⟩ := h.step move
      obtain ⟨hrest, hend⟩ := ih hsealed
      exact ⟨hrests.trans hrest, hend⟩

/-! ### Shutting down -/

/-- Unless a check has failed, a shutdown closes a session, the second one as the first. -/
theorem Firm.closes (h : s.Firm) (hd : s.Settled) (hf : s.kernel.fault = none) : s.Closes := by
  obtain ⟨hspent, hquiet, hleaked, new, hcalls, hnodup, hnew⟩ : s.kernel.shutdown.2.Spent ∧
      s.kernel.Quiet s.kernel.shutdown.2 ∧
      s.kernel.shutdown.1 = s.kernel.livePids.filter (· ≠ kernelPid) ∧
      ∃ new, s.kernel.shutdown.2.calls = new ++ s.kernel.calls ∧
        (new.filterMap (·.destroyed?)).Nodup ∧
        ∀ t, t ∈ new.filterMap (·.destroyed?) ↔ s.kernel.host.tasks.contains t = true := by
    rcases h.kernel hf with hlive | hspent
    · exact ⟨hlive.shutdown, (Kernel.shutdown_spec hlive.live hlive.valid).2.1, hlive.leaked_eq,
        hlive.destroyed_shutdown⟩
    · rw [Kernel.shutdown_of_dead hspent.down.live]
      refine ⟨hspent, .refl _, ?_, [], rfl, List.nodup_nil, fun t => ?_⟩
      · rw [hspent.livePids]
        rfl
      · rw [s.kernel.host.contains_iff, hspent.task?_eq_none]
        simp
  have hvalid : s.kernel.pids.Valid := (h.kernel hf).elim (·.valid) (·.down.valid)
  have hstep := step_shutdown hd hquiet
  have hsealed : s.frames = [] → Sealed { s with kernel := s.kernel.shutdown.2 } :=
    fun hframes => ⟨hspent, hframes⟩
  refine ⟨⟨?_, hvalid.ascending_livePids.filter _⟩, ⟨new, ?_, hnodup, fun t => ?_⟩, ?_, ?_, ?_⟩
  · rw [hstep, hleaked]
  · rw [hstep]
    exact hcalls
  · rw [hnew, s.kernel.host.contains_iff]
  · rw [hstep]
    exact hspent.cleared
  · rw [hstep]
    exact fun hframes moves => ((hsealed hframes).run moves).1
  · rw [hstep]
    exact fun hframes moves => ((hsealed hframes).run moves).2.refuses

/-- In any run in which no check fails, a shutdown is complete and final. -/
theorem shutdown_final {config : Config} {refusal : Option Errno} {moves : List Move}
    (hb : boot config refusal = .ok s) (hf : (s.run moves).kernel.fault = none) :
    (s.run moves).Closes := by
  obtain ⟨hfirm, hsettled⟩ := firm_boot hb
  obtain ⟨hrun, hend⟩ := hfirm.run hsettled moves
  exact hrun.closes hend hf

/-- Of two processes that are left at the shutdown, one has exited: a reference is held on its
block, and is given back later. -/
theorem shutdown_final_of_two : ∃ s : Session, ∃ moves : List Move,
    boot { maxProcesses := 8 } none = .ok s ∧ (s.run moves).kernel.fault = none ∧
      (s.run moves).frames = [] ∧ (s.run moves).slots.get? 0 = some (.ref 1) ∧
      ((s.run moves).kernel.block 1).reaped = true ∧
      (s.run moves).kernel.livePids = [0, 1, 2] ∧ (s.run moves).Closes := by
  let moves : List Move :=
    [.fork 0 .context, .resume none, .resume none, .resume none, .resume none,
      .get 1 0, .fork 0 .context, .resume none, .resume none, .resume none, .resume none,
      .exit 1 ⟨.exited, 7⟩]
  obtain ⟨s, hb, hf, hframes, hslot, hreaped, hpids⟩ : ∃ s : Session,
      boot { maxProcesses := 8 } none = .ok s ∧ (s.run moves).kernel.fault = none ∧
        (s.run moves).frames = [] ∧ (s.run moves).slots.get? 0 = some (.ref 1) ∧
        ((s.run moves).kernel.block 1).reaped = true ∧
        (s.run moves).kernel.livePids = [0, 1, 2] :=
    ⟨_, rfl, by decide +kernel⟩
  exact ⟨s, moves, hb, hf, hframes, hslot, hreaped, hpids, shutdown_final hb hf⟩

/-! ### Forks under way -/

theorem fault_settle {fault : Fault} (hf : s.kernel.fault = some fault) :
    s.settle.2.kernel.fault = some fault :=
  settle_of (P := (·.fault = some fault)) (fun _ hk => Kernel.fault_wake_of_some hk) hf

theorem undoes_of_spent (hk : s.kernel.Spent) (hf : s.kernel.fault = none) {pending : Pending}
    {via : Via} {context : Option Nat} {fs : List Frame}
    (hframes : s.frames = ⟨pending, .fork via context⟩ :: fs) (refusal : Option Errno) :
    s.Undoes pending via fs refusal := by
  have hact := act_resume_of_cons hframes refusal
  by_cases hr : pending.service = .createTask ∧ refusal = none
  · obtain ⟨hservice, rfl⟩ := hr
    obtain ⟨fault, hfault⟩ := Option.ne_none_iff_exists'.1 (hk.resume_breaks hservice)
    have hbroken : (s.step (.resume none)).2.2.kernel.fault = some fault := by
      refine fault_settle (s := (s.act (.resume none)).2) ?_
      rw [hact]
      cases (s.kernel.resume pending none).1 <;> exact hfault
    exact ⟨iff_of_true (by simp [hbroken]) ⟨hservice, rfl⟩, fun hn => by cases hbroken.symm.trans hn⟩
  · obtain ⟨error, hfailed, hspent, hsame⟩ := hk.resume_fails hr
    let failed : Session :=
      { s with kernel := (s.kernel.resume pending refusal).2, frames := fs }
    have hfailure : s.act (.resume refusal) = (.forked via (.error error), failed) := by
      rw [hact]
      dsimp only
      rw [hfailed]
      rfl
    have hstep : s.step (.resume refusal) = (.forked via (.error error), failed.settle) := by
      rw [step, hfailure]
    have hend := settle_of (s := failed) (P := Kernel.Spent) (fun b hk => hk.wake b) hspent
    have hfault := (down_settle (s := failed) hspent.down).2.trans (hsame.trans hf)
    refine ⟨iff_of_false (fun hn => hn ?_) hr, fun _ => ⟨⟨error, ?_⟩, ?_, ?_⟩⟩
    · rw [hstep]
      exact hfault
    · rw [hstep]
    · rw [hstep]
      exact frames_settle failed
    · rw [hstep]
      exact hend.cleared

/-- In any run, a fork that is stopped while the table is shut down is undone when it goes on, if
it is not its child's task that it asks for and gets. -/
theorem shutdown_undoes_fork {config : Config} {answer refusal : Option Errno} {moves : List Move}
    {pending : Pending} {via : Via} {context : Option Nat} {fs : List Frame}
    (hb : boot config answer = .ok s) (hf : (s.run moves).kernel.fault = none)
    (hl : (s.run moves).kernel.live = false)
    (hframes : (s.run moves).frames = ⟨pending, .fork via context⟩ :: fs) :
    (s.run moves).Undoes pending via fs refusal := by
  obtain ⟨hfirm, hsettled⟩ := firm_boot hb
  rcases (hfirm.run hsettled moves).1.kernel hf with hlive | hspent
  · cases hl.symm.trans hlive.live
  · exact undoes_of_spent hspent hf hframes refusal

/-- A fork by a half-forked child, with the table shut down in its last call of the host. -/
theorem shutdown_undoes_nested_fork : ∃ s : Session, ∃ moves : List Move, ∃ fs : List Frame,
    boot { maxProcesses := 8 } none = .ok s ∧ (s.run moves).kernel.fault = none ∧
      (s.run moves).kernel.live = false ∧
      (s.run moves).frames = ⟨.forkThread 1 2, .fork .table none⟩ :: fs ∧ fs ≠ [] ∧
      (s.run moves).Undoes (.forkThread 1 2) .table fs none := by
  let moves : List Move :=
    [.fork 0 .context, .resume none, .fork 1 .table, .resume none, .resume none, .resume none,
      .shutdown]
  obtain ⟨s, hb, hf, hl, hframes⟩ : ∃ s : Session, boot { maxProcesses := 8 } none = .ok s ∧
      (s.run moves).kernel.fault = none ∧ (s.run moves).kernel.live = false ∧
      (s.run moves).frames = [⟨.forkThread 1 2, .fork .table none⟩,
        ⟨.forkSpace 0 1, .fork .context none⟩] :=
    ⟨_, rfl, by decide +kernel⟩
  exact ⟨s, moves, _, hb, hf, hl, hframes, List.cons_ne_nil _ _,
    shutdown_undoes_fork hb hf hl hframes⟩

/-- A fork asks for its child's task, the table is shut down, and the host gives the task: the
pid for its block has been freed, and the task is not destroyed. -/
theorem fault_of_shutdown_in_fork : ∃ s : Session,
    boot { maxProcesses := 8 } none = .ok s ∧
      (s.run [.fork 0 .context, .shutdown]).kernel.fault = none ∧
      (s.run [.fork 0 .context, .shutdown, .resume none]).kernel.fault =
        some (.neverAllocated 1) ∧
      (s.run [.fork 0 .context, .shutdown, .resume none]).kernel.host.liveTasks = 1 :=
  ⟨_, rfl, by decide +kernel⟩

end Lifecycle.Session
