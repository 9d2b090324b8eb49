import Lifecycle.Proofs.Kernel.Unwinding
import Lifecycle.Proofs.Session.Firm
import Lifecycle.Session.Script

/-! A step of a script that forks without further work in between. The fork goes through, or
it fails and everything is as it was. -/

namespace Lifecycle

/-- Which calls to the host are refused. -/
def Refusals.refusal? (refusals : Refusals) : HostService → Option Errno
  | .createTask => refusals.createTask
  | .cloneAddressSpace => refusals.cloneAddressSpace
  | .cloneFdTable => refusals.cloneFdTable
  | .spawn => refusals.spawn

/-- A step that no check has failed in and that has woken nobody tells its last reply. -/
theorem Ongoing.report_of_reply {reply : Reply} {hooks : List (HostService × List Report)}
    {calls : List HostCall} {s : Session} (hf : s.kernel.fault = none) (detail : Detail) :
    report ⟨reply, ⟨[], hooks, calls⟩, s⟩ detail =
      .mk (.reply reply) [] hooks calls (s.view detail) := by
  simp only [report, hf, List.isEmpty_nil, if_true]

namespace Session

/-- A session as it was, whatever its table has been through. -/
structure Restored (s s' : Session) : Prop where
  kernel : s.kernel.Restored s'.kernel
  contexts : s'.contexts = s.contexts
  nextContext : s'.nextContext = s.nextContext
  slots : s'.slots = s.slots
  parked : s'.parked = s.parked
  nextWait : s'.nextWait = s.nextWait
  frames : s'.frames = s.frames

variable {s s' : Session}

/-- Nobody is woken as long as every process is in the state it was in. -/
theorem settled_of_steady (hd : s.Settled) (h : s.Firm) (hk : s.kernel.Steady s'.kernel)
    (hp : s'.parked = s.parked) : s'.Settled := by
  intro w hw
  rw [hp] at hw
  have hrunning : ¬(s.kernel.block w.block).state ≠ .running := by
    rw [← isDue_iff, hd w hw]
    exact Bool.false_ne_true
  rw [← hk.state w.block (h.parked w hw), ← isDue_iff, Bool.not_eq_true] at hrunning
  exact hrunning

/-- A move that leaves nobody to be woken. -/
theorem advance_of_settled (g : Gathered) {move : Move} {reply : Reply}
    (ha : s.act move = (reply, s')) (hd : s'.Settled) :
    s.advance g move = ⟨reply, { g with calls := g.calls ++ callsSince s s' }, s'⟩ := by
  simp only [advance, step, ha, settle_of_settled hd, List.append_nil]

/-- The call that comes when so many are left. -/
def callAt : Nat → HostService
  | 4 => .createTask
  | 3 => .cloneAddressSpace
  | 2 => .cloneFdTable
  | _ => .spawn

theorem service_eq_callAt {k k' : Kernel} {r : List Pid} {parent : BlockId} {p : Pid}
    {pending : Pending} (h : k.Ready r parent p pending k') :
    pending.service = callAt pending.left := by
  cases h <;> rfl

/-- How far a step that forks has come, with no more than `n` calls to the host before it;
`error?` is what its fork ends with. -/
inductive Forks (s : Session) (via : Via) (context : Option Nat)
    (refusal : HostService → Option Errno) (error? : Option ProcessError) : Nat → Ongoing → Prop
  | stopped {parent : BlockId} {p : Pid} {k' : Kernel} {pending : Pending} (calls : List HostCall)
    (hk : s.kernel.Intact s.taken)
    (hp : s.kernel.pids.lookup (s.kernel.block parent).pid = some parent)
    (hu : s.kernel.family.childrenOf p = [])
    (hr : (s.kernel.update parent .retained).Ready s.taken parent p pending k')
    (he : (s.kernel.update parent .retained).errorFrom? refusal pending = error?) :
    Forks s via context refusal error? pending.left
      { reply := .stopped pending.service
        gathered := { calls := calls }
        session := { s with
          kernel := k'
          frames := ⟨pending, .fork via context⟩ :: s.frames } }
  | failed {n : Nat} {error : ProcessError} {s' : Session} (calls : List HostCall)
    (hs : s.Restored s') (he : error? = some error) :
    Forks s via context refusal error? n
      { reply := .forked via (.error error), gathered := { calls := calls }, session := s' }
  | forked {n : Nat} {child : Pid} {thread : String} {s' : Session} (calls : List HostCall)
    (hf : s'.kernel.fault = none) (he : error? = none) :
    Forks s via context refusal error? n
      { reply := .forked via (.ok (child, thread)), gathered := { calls := calls }, session := s' }

section Steps

variable {via : Via} {context : Option Nat} {refusal : HostService → Option Errno}
  {error? : Option ProcessError} (hs : s.Firm) (hd : s.Settled) (hf : s.kernel.fault = none)
include hs hd hf

/-- The call that a fork has stopped before is made, or refused. -/
theorem Forks.resume {n : Nat} {parent : BlockId} {p : Pid} {k' : Kernel} {pending : Pending}
    (calls : List HostCall) (hk : s.kernel.Intact s.taken)
    (hp : s.kernel.pids.lookup (s.kernel.block parent).pid = some parent)
    (hu : s.kernel.family.childrenOf p = [])
    (hr : (s.kernel.update parent .retained).Ready s.taken parent p pending k')
    (he : (s.kernel.update parent .retained).errorFrom? refusal pending = error?)
    (hn : pending.left = n + 1) :
    Forks s via context refusal error? n
      (advance { s with kernel := k', frames := ⟨pending, .fork via context⟩ :: s.frames }
        { calls := calls } (.resume (refusal pending.service))) := by
  have hlt : parent < s.kernel.blocks.size := (hk.own hp).1
  have hz := hk.counted hp
  have hi : (s.kernel.update parent .retained).Intact s.taken := hk.alike (.retained hz)
  have hturn : (s.kernel.update parent .retained).Turn s.taken parent p refusal pending
      (k'.resume pending (refusal pending.service)) :=
    hr.turn hi hu (by rw [Kernel.view_update Block.pid rfl]; exact hp)
  have hact := act_resume_of_cons (s := { s with
    kernel := k', frames := ⟨pending, .fork via context⟩ :: s.frames }) rfl
    (refusal pending.service)
  dsimp only at hact
  generalize k'.resume pending (refusal pending.service) = out at hact hturn
  cases hturn with
  | on hr' hleft he' =>
    rename_i next k''
    have hsettled : Settled { s with
        kernel := k'', frames := ⟨next, .fork via context⟩ :: s.frames } :=
      settled_of_steady hd hs hr'.steady rfl
    rw [advance_of_settled _ hact hsettled]
    obtain rfl : n = next.left := by omega
    exact .stopped _ hk hp hu hr' (he'.trans he)
  | failed hr' he' =>
    rename_i error k''
    have hrestored : s.Restored { s with kernel := (k''.release parent).2 } :=
      ⟨hr'.release hlt hz, rfl, rfl, rfl, rfl, rfl, rfl⟩
    have hsettled := settled_of_steady hd hs hrestored.kernel.steady hrestored.parked
    rw [advance_of_settled _ hact hsettled]
    exact .failed _ hrestored (he.symm.trans he')
  | forked child thread hfault hb he' =>
    rename_i k''
    have hsteady := Kernel.steady_endFork hlt hz hfault (by rwa [Kernel.size_update] at hb)
      (.forked child thread)
    have hsettled : Settled { s with
        kernel := (k''.release parent).2
        contexts := s.contexts.insert child s.nextContext
        nextContext := s.nextContext + 1 } :=
      settled_of_steady hd hs hsteady rfl
    rw [advance_of_settled _ hact hsettled]
    exact .forked _ (hsteady.fault.trans hf) (he.symm.trans he')

/-- At a call, with nothing to be done before it, the fork goes on by one. -/
theorem Forks.atCall {n : Nat} {p : Ongoing} (h : Forks s via context refusal error? (n + 1) p)
    (detail : Detail) : Forks s via context refusal error? n
      (p.atCall (callAt (n + 1)) (refusal (callAt (n + 1))) (runHook detail none)) := by
  generalize hn : n + 1 = m at h
  cases h with
  | stopped calls hk hp hu hr he =>
    rename_i parent q k' pending
    have hfault : k'.fault = none := hr.steady.fault.trans hf
    have hgo : Forks s via context refusal error? n _ :=
      .resume hs hd hf calls hk hp hu hr he hn.symm
    rw [service_eq_callAt hr] at hgo ⊢
    simp only [Ongoing.atCall, Ongoing.isStopped, hfault, runHook, Option.isNone_none, if_true,
      Option.map_none, Option.toList_none, List.append_nil, Option.isSome_none,
      Bool.false_eq_true, if_false]
    exact hgo
  | failed calls hs he => exact .failed calls hs he
  | forked calls hf he => exact .forked calls hf he

/-- A fork is begun. -/
theorem forks_begin (hroot : s.kernel.Anchored) (pid : Pid) (hv : s.canCall via pid = true) :
    Forks s via (s.forkContext? via pid) refusal (s.kernel.forkError? pid refusal) 4
      (s.advance {} (.fork pid via)) := by
  have hbegins := (hs.kernel hf).begins hroot pid refusal
  have hact : s.act (.fork pid via) =
      proceed { s with kernel := (s.kernel.beginFork pid).2 }
        (.fork via (s.forkContext? via pid)) (s.kernel.beginFork pid).1 := by
    rw [act, hv]
    rfl
  generalize s.kernel.beginFork pid = out at hact hbegins
  cases hbegins with
  | failed hr he =>
    rename_i error k'
    have hrestored : s.Restored { s with kernel := k' } :=
      ⟨hr, rfl, rfl, rfl, rfl, rfl, rfl⟩
    rw [advance_of_settled _ hact (settled_of_steady hd hs hr.steady rfl)]
    exact .failed _ hrestored he
  | on hk hp hu hr he =>
    rename_i parent p k'
    have hsettled : Settled { s with
        kernel := k'
        frames := ⟨.forkTask parent p, .fork via (s.forkContext? via pid)⟩ :: s.frames } :=
      settled_of_steady hd hs hr.steady rfl
    rw [advance_of_settled _ hact hsettled]
    exact .stopped _ hk (by rw [(hk.own hp).2]; exact hp) hu hr he

/-- A step that forks, without further work in between, undoes all that it has done if the
fork fails. -/
theorem runOp_fork (hroot : s.kernel.Anchored) {pid : Pid} (hv : s.canCall via pid = true)
    (refusals : Refusals) (detail : Detail) :
    match s.kernel.forkError? pid refusals.refusal? with
    | some error => ∃ calls view s',
      s.runOp detail (.fork pid via refusals none none none none) =
        (.mk (.reply (.forked via (.error error))) [] [] calls view, s') ∧ s.Restored s'
    | none => ∃ child thread calls view s',
      s.runOp detail (.fork pid via refusals none none none none) =
        (.mk (.reply (.forked via (.ok (child, thread)))) [] [] calls view, s') := by
  have hbegin : Forks s via (s.forkContext? via pid) refusals.refusal?
    (s.kernel.forkError? pid refusals.refusal?) 4 _ := forks_begin hs hd hf hroot pid hv
  have hforks := (((hbegin.atCall hs hd hf detail).atCall hs hd hf detail).atCall
    hs hd hf detail).atCall hs hd hf detail
  have hrun : s.runOp detail (.fork pid via refusals none none none none) =
      let p := ((((s.advance {} (.fork pid via)).atCall (callAt 4) (refusals.refusal? (callAt 4))
        (runHook detail none)).atCall (callAt 3) (refusals.refusal? (callAt 3))
        (runHook detail none)).atCall (callAt 2) (refusals.refusal? (callAt 2))
        (runHook detail none)).atCall (callAt 1) (refusals.refusal? (callAt 1))
        (runHook detail none)
      (p.report detail, p.session) := by
    rw [runOp]
    rfl
  rw [hrun]
  generalize Ongoing.atCall _ (callAt 1) _ _ = p at hforks
  generalize hn : 0 = n at hforks
  generalize s.kernel.forkError? pid refusals.refusal? = error? at hforks
  cases hforks with
  | stopped calls hk hp hu hr he =>
    rename_i pending
    have hleft := pending.left_pos
    omega
  | failed calls hr he =>
    subst he
    refine ⟨_, _, _, Prod.ext (Ongoing.report_of_reply ?_ detail) rfl, hr⟩
    exact hr.kernel.fault.trans hf
  | forked calls hfault he =>
    subst he
    exact ⟨_, _, _, _, _, Prod.ext (Ongoing.report_of_reply hfault detail) rfl⟩

end Steps

/-- After any moves, permitted or not, a fork that nothing comes in between of goes through,
or it fails with the error of its first stage that fails, and everything is as before. -/
theorem fork_all_or_nothing {config : Config} {refusal : Option Errno} {moves : List Move}
    (hb : boot config refusal = .ok s) (hf : (s.run moves).kernel.fault = none)
    (hroot : (s.run moves).kernel.Anchored) {pid : Pid} {via : Via}
    (hv : (s.run moves).canCall via pid = true) (refusals : Refusals) (detail : Detail) :
    match (s.run moves).kernel.forkError? pid refusals.refusal? with
    | some error => ∃ calls view s',
      (s.run moves).runOp detail (.fork pid via refusals none none none none) =
        (.mk (.reply (.forked via (.error error))) [] [] calls view, s') ∧
      (s.run moves).Restored s'
    | none => ∃ child thread calls view s',
      (s.run moves).runOp detail (.fork pid via refusals none none none none) =
        (.mk (.reply (.forked via (.ok (child, thread)))) [] [] calls view, s') := by
  obtain ⟨hfirm, hsettled⟩ := firm_boot hb
  obtain ⟨hfirm, hsettled⟩ := hfirm.run hsettled moves
  exact runOp_fork hfirm hsettled hf hroot hv refusals detail

/-- Among a sleeper and a lookup, a fork that the host refuses to copy the files for. -/
theorem fork_undone_at_files : ∃ s : Session, ∃ moves : List Move,
    boot { maxProcesses := 8 } none = .ok s ∧ (s.run moves).kernel.fault = none ∧
      (s.run moves).kernel.Anchored ∧ (s.run moves).canCall .context 1 = true ∧
      (s.run moves).parked.length = 1 ∧ (s.run moves).slots.size = 1 ∧
      ∃ calls view s', (s.run moves).runOp .none
          (.fork 1 .context { cloneFdTable := some .enomem } none none none none) =
        (.mk (.reply (.forked .context (.error (.host .cloneFdTable .enomem)))) [] [] calls view,
          s') ∧ (s.run moves).Restored s' := by
  let moves : List Move :=
    [.fork 0 .context, .resume none, .resume none, .resume none, .resume none,
      .wait 0 1 0 .context none, .get 1 0]
  obtain ⟨s, hb, hf, hroot, hv, hparked, hslots, herror⟩ : ∃ s : Session,
      boot { maxProcesses := 8 } none = .ok s ∧ (s.run moves).kernel.fault = none ∧
        (s.run moves).kernel.pids.isAllocated kernelPid = true ∧
        (s.run moves).canCall .context 1 = true ∧ (s.run moves).parked.length = 1 ∧
        (s.run moves).slots.size = 1 ∧
        (s.run moves).kernel.forkError? 1 (Refusals.refusal? { cloneFdTable := some .enomem }) =
          some (.host .cloneFdTable .enomem) :=
    ⟨_, rfl, by decide +kernel⟩
  have hanchored : (s.run moves).kernel.Anchored := by
    intro _ hfree
    rw [hroot] at hfree
    cases hfree
  have hfork := fork_all_or_nothing hb hf hanchored hv { cloneFdTable := some .enomem } .none
  rw [herror] at hfork
  exact ⟨s, moves, hb, hf, hanchored, hv, hparked, hslots, hfork⟩

/-- The error that a step reports of its fork. -/
def reportedError? : Report → Option ProcessError
  | .mk (.reply (.forked _ (.error error))) _ _ _ _ => some error
  | _ => none

/-- The kernel's own block has been released beyond what was held, and an orphan has been
linked under it. A fork that fails takes the kernel's pid and gives it back, and with it
the link of the orphan. -/
theorem orphan_unlinked_by_failed_fork : ∃ s : Session, ∃ moves : List Move,
    boot { maxProcesses := 8 } none = .ok s ∧ (s.run moves).kernel.fault = none ∧
      (s.run moves).kernel.family.childrenOf kernelPid = [2] ∧
      let out := (s.run moves).runOp .none
        (.fork 2 .table { cloneFdTable := some .enomem } none none none none)
      reportedError? out.1 = some (.host .cloneFdTable .enomem) ∧
        out.2.kernel.family.childrenOf kernelPid = [] ∧ ¬(s.run moves).Restored out.2 := by
  let moves : List Move :=
    [.fork 0 .context, .resume none, .resume none, .resume none, .resume none,
      .fork 1 .context, .resume none, .resume none, .resume none, .resume none,
      .get 0 0, .overRelease 0, .overRelease 0, .exit 1 ⟨.exited, 0⟩]
  obtain ⟨s, hb, hf, hbefore, herror, hafter⟩ : ∃ s : Session,
      boot { maxProcesses := 8 } none = .ok s ∧ (s.run moves).kernel.fault = none ∧
        (s.run moves).kernel.family.childrenOf kernelPid = [2] ∧
        reportedError? ((s.run moves).runOp .none (.fork 2 .table
          { cloneFdTable := some .enomem } none none none none)).1 =
            some (.host .cloneFdTable .enomem) ∧
        ((s.run moves).runOp .none (.fork 2 .table { cloneFdTable := some .enomem } none none none
          none)).2.kernel.family.childrenOf kernelPid = [] :=
    ⟨_, rfl, by decide +kernel⟩
  refine ⟨s, moves, hb, hf, hbefore, herror, hafter, fun hr => ?_⟩
  have hkept := hr.kernel.children kernelPid
  rw [hafter, hbefore] at hkept
  cases hkept

end Session

end Lifecycle
