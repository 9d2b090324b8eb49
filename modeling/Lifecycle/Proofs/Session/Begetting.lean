import Lifecycle.Proofs.Kernel.Begetting
import Lifecycle.Proofs.Session.Atomic
import Lifecycle.Proofs.Session.Perishing
import Lifecycle.Session.Syscall

/-! A fork that the host does not refuse and nothing comes in between of. Whether it goes
through can be told from the table it begins with; and if it does, the child has the least free
pid, a fresh block and a fresh task, and nothing else has changed but its parent's list. -/

namespace Lifecycle

namespace Kernel

variable {k : Kernel} {r : List Pid} {pid : Pid}

/-- Why a fork fails that the host does not refuse. -/
def obstacle? (k : Kernel) (pid : Pid) : Option ProcessError :=
  if !k.live then some .shutDown
  else match k.pids.lookup pid with
    | none => some (.noSuchProcess (signedPid pid))
    | some q =>
      if k.pids.free = 0 then some k.pids.exhausted
      else if (k.block q).exiting then some (.noSuchProcess (signedPid pid))
      else none

theorem obstacle?_eq_none_iff : k.obstacle? pid = none ↔ k.live = true ∧
    (∃ q, k.pids.lookup pid = some q ∧ (k.block q).exiting = false) ∧ 0 < k.pids.free := by
  unfold obstacle?
  cases k.live with
  | false => simp
  | true =>
    cases k.pids.lookup pid with
    | none => simp
    | some q =>
      cases hx : (k.block q).exiting <;> by_cases hf : k.pids.free = 0 <;>
        simp [hf, hx, Nat.pos_iff_ne_zero]

/-- A fork fails at once, or it takes what it needs and goes on from stage to stage. -/
theorem Sane.beginFork_cases (h : k.Sane r) (hs : k.host.Spaced) (pid : Pid) :
    (∃ error k', k.beginFork pid = (.failed error, k') ∧ k.Restored k' ∧
      k.obstacle? pid = some error) ∨
    ∃ q p k₁ k₂ k₃, k.pids.lookup pid = some q ∧ (k.block q).pid = pid ∧
      k.Stages pid q p k₁ k₂ k₃ ∧ k.obstacle? pid =
        if (k.block q).exiting then some (.noSuchProcess (signedPid pid)) else none := by
  rcases h with h | h
  · cases hl : k.pids.lookup pid with
    | none =>
      refine Or.inl ⟨.noSuchProcess (signedPid pid), k, ?_, .refl k, ?_⟩
      · exact beginFork_of_missed h.live hl
      · simp [obstacle?, h.live, hl]
    | some q =>
      obtain ⟨hlt, hpid⟩ := h.own hl
      by_cases hfree : k.pids.free = 0
      · have hi := h.alike (.retained (h.counted hl))
        refine Or.inl ⟨k.pids.exhausted, ((k.update q .retained).release q).2, ?_,
          Restored.release hlt (h.counted hl) (.refl _), ?_⟩
        · have hfull : (k.update q .retained).pids.free = 0 := hfree
          have hreserve : (k.update q .retained).reserve =
              (.error k.pids.exhausted, k.update q .retained) := by
            unfold Kernel.reserve
            rw [hi.live, PidMap.allocate_none hfull]
            rfl
          rw [beginFork_of_found (h.found hl), hreserve]
          rfl
        · simp [obstacle?, h.live, hl, hfree]
      · obtain ⟨p, k₁, k₂, k₃, hstages⟩ := h.stages hs hl hfree
        refine Or.inr ⟨q, p, k₁, k₂, k₃, rfl, hpid, hstages, ?_⟩
        simp [obstacle?, h.live, hl, hfree]
  · refine Or.inl ⟨.shutDown, k, beginFork_of_dead h.down.live pid, .refl k, ?_⟩
    simp [obstacle?, h.down.live]

end Kernel

namespace Session

variable {s s' : Session}

/-! ### Address spaces -/

theorem spaced_proceed (hs : s.kernel.host.Spaced) (purpose : Purpose) (progress : Progress) :
    (s.proceed purpose progress).2.kernel.host.Spaced :=
  proceed_of (P := (·.host.Spaced)) hs (fun b => Kernel.spaced_release hs b) purpose progress

theorem spaced_act (hs : s.kernel.host.Spaced) (move : Move) :
    (s.act move).2.kernel.host.Spaced := by
  by_cases hbusy : move.busy
  · have hp := s.performs move
    generalize s.act move = out at hp ⊢
    cases hp with
    | declined => exact hs
    | @resume f fs =>
      exact spaced_proceed (s := { s with kernel := _, frames := fs })
        (Kernel.spaced_resume hs ..) ..
    | exit => exact Kernel.spaced_exitThread hs ..
    | slot handles => cases handles <;> cases hbusy
    | shutdown => exact Kernel.spaced_shutdown hs
    | _ => cases hbusy
  · obtain ⟨ds, hd⟩ := comes_act s move
    exact (hd.mono hbusy).spaced hs

theorem spaced_run (hs : s.kernel.host.Spaced) (moves : List Move) :
    (s.run moves).kernel.host.Spaced := by
  induction moves generalizing s with
  | nil => exact hs
  | cons move moves ih =>
    rw [run_cons]
    split
    · exact ih hs
    · obtain ⟨ds, hd⟩ := comes_settle (s.act move).2
      exact ih (hd.spaced (spaced_act hs move))

theorem spaced_boot {config : Config} {refusal : Option Errno}
    (hb : boot config refusal = .ok s) : s.kernel.host.Spaced := by
  obtain ⟨k, hk, rfl⟩ := boot_eq hb
  exact Kernel.spaced_boot hk

/-! ### From call to call -/

/-- With at most so many calls to the host, all of which go through, the fork is over. Nobody is
woken on the way. -/
inductive Finishes (via : Via) (result : Except ProcessError (Pid × String)) (s' : Session) :
    Nat → Reply → Session → Prop
  | ended {n : Nat} : Finishes via result s' n (.forked via result) s'
  | on {n : Nat} {reply : Reply} {s s₁ : Session} (hf : s.kernel.fault = none)
      (hstep : s.step (.resume none) = (reply, [], s₁))
      (rest : Finishes via result s' n reply s₁) :
      Finishes via result s' (n + 1) (.stopped (callAt (n + 1))) s

namespace Finishes

variable {via : Via} {result : Except ProcessError (Pid × String)} {n : Nat} {reply : Reply}

theorem finishFork (h : Finishes via result s' n reply s) (woke : List Woken) :
    Session.finishFork n (reply, woke, s) = (.forked via result, woke, s') := by
  induction h with
  | @ended n => cases n <;> rfl
  | on hf hstep rest ih =>
    rw [Session.finishFork, hstep]
    simpa using ih

theorem atCall (h : Finishes via result s' (n + 1) reply s) (calls : List HostCall)
    (detail : Detail) : ∃ calls' reply' s₁,
      Ongoing.atCall ⟨reply, { calls := calls }, s⟩ (callAt (n + 1)) none (runHook detail none) =
        ⟨reply', { calls := calls' }, s₁⟩ ∧ Finishes via result s' n reply' s₁ := by
  cases h with
  | ended => exact ⟨_, _, _, rfl, .ended⟩
  | @on _ reply' _ s₁ hf hstep rest =>
    refine ⟨calls ++ callsSince s s₁, reply', s₁, ?_, rest⟩
    simp only [Ongoing.atCall, Ongoing.isStopped, hf, runHook, Option.isNone_none, if_true,
      Option.map_none, Option.toList_none, List.append_nil, Option.isSome_none,
      Bool.false_eq_true, if_false, advance, hstep]

/-- A step of a script that forks reports how the fork has ended. -/
theorem runOp {pid : Pid} (hstep : s.step (.fork pid via) = (reply, [], s'))
    {t : Session} (h : Finishes via result t 4 reply s') (hf : t.kernel.fault = none)
    (detail : Detail) : ∃ calls view, s.runOp detail (.fork pid via {} none none none none) =
      (.mk (.reply (.forked via result)) [] [] calls view, t) := by
  obtain ⟨calls₃, reply₃, s₃, h₃, hrest₃⟩ := h.atCall (callsSince s s') detail
  obtain ⟨calls₂, reply₂, s₂, h₂, hrest₂⟩ := hrest₃.atCall calls₃ detail
  obtain ⟨calls₁, reply₁, s₁, h₁, hrest₁⟩ := hrest₂.atCall calls₂ detail
  obtain ⟨calls₀, reply₀, s₀, h₀, hrest₀⟩ := hrest₁.atCall calls₁ detail
  have hbegin : s.advance {} (.fork pid via) = ⟨reply, { calls := callsSince s s' }, s'⟩ := by
    simp [advance, hstep]
  have hrun : s.runOp detail (.fork pid via {} none none none none) =
      let p := ((((s.advance {} (.fork pid via)).atCall (callAt 4) none
        (runHook detail none)).atCall (callAt 3) none (runHook detail none)).atCall (callAt 2)
        none (runHook detail none)).atCall (callAt 1) none (runHook detail none)
      (p.report detail, p.session) := by
    rw [Session.runOp]
    rfl
  rw [hrun, hbegin, h₃, h₂, h₁, h₀]
  cases hrest₀ with
  | ended => exact ⟨_, _, Prod.ext (Ongoing.report_of_reply hf detail) rfl⟩

end Finishes

/-! ### The whole fork -/

/-- What a fork that goes through makes of a session: the child has a context of its own, and
what sleepers, slots and stopped forks hold is as it was. -/
structure Begets (s : Session) (q : BlockId) (p : Pid) (s' : Session) : Prop where
  kernel : s.kernel.Begets q p s'.kernel
  contexts : s'.contexts = s.contexts.insert p s.nextContext
  nextContext : s'.nextContext = s.nextContext + 1
  slots : s'.slots = s.slots
  parked : s'.parked = s.parked
  nextWait : s'.nextWait = s.nextWait
  frames : s'.frames = s.frames

/-- A session whose innermost fork has stopped. -/
def halted (s : Session) (k : Kernel) (pending : Pending) (via : Via) (context : Option Nat) :
    Session :=
  { s with kernel := k, frames := ⟨pending, .fork via context⟩ :: s.frames }

/-- A move that leaves nobody to be woken. -/
theorem step_of_settled {move : Move} {reply : Reply} (ha : s.act move = (reply, s'))
    (hd : s'.Settled) : s.step move = (reply, [], s') := by
  rw [step, ha]
  exact congrArg (reply, ·) (settle_of_settled hd)

section Steps

variable (hs : s.Firm) (hd : s.Settled) (via : Via) (context : Option Nat)
include hs hd

/-- A call that goes through, and changes no state. -/
theorem step_halted {k k' : Kernel} {pending : Pending} {progress : Progress} {reply : Reply}
    (hr : k.resume pending none = (progress, k'))
    (hp : proceed { s with kernel := k' } (.fork via context) progress = (reply, s'))
    (hk : s.kernel.Steady s'.kernel) (hparked : s'.parked = s.parked) :
    (s.halted k pending via context).step (.resume none) = (reply, [], s') := by
  refine step_of_settled ?_ (settled_of_steady hd hs hk hparked)
  have hact := act_resume_of_cons (s := s.halted k pending via context) rfl none
  rw [hact]
  change proceed { s with kernel := (k.resume pending none).2 } _ (k.resume pending none).1 = _
  rw [hr]
  exact hp

/-- A fork that gets beyond its first stage goes through, unless its parent has begun to exit. -/
theorem Finishes.of_stages {pid p : Pid} {q : BlockId} {k₁ k₂ k₃ : Kernel}
    (hf : s.kernel.fault = none) (h : s.kernel.Stages pid q p k₁ k₂ k₃) :
    ((s.kernel.block q).exiting = true → ∃ s', s'.kernel.fault = none ∧
      Finishes via (.error (.noSuchProcess (signedPid (s.kernel.block q).pid))) s' 4
        (.stopped .createTask) (s.halted k₁ (.forkTask q p) via context)) ∧
    ((s.kernel.block q).exiting = false → ∃ s', s.Begets q p s' ∧
      Finishes via (.ok (p, s!"pid-{p}")) s' 4 (.stopped .createTask)
        (s.halted k₁ (.forkTask q p) via context)) := by
  obtain ⟨hsteady₁, hsteady₂, hsteady₃⟩ := h.steady
  have hmade := step_halted hs hd via context h.made rfl hsteady₂ rfl
  have hcopied := step_halted hs hd via context h.copied rfl hsteady₃ rfl
  refine ⟨fun hx => ?_, fun hx => ?_⟩
  · obtain ⟨k₄, hfailed, hsteady₄⟩ := h.failed hx
    have hlast := step_halted hs hd via context hfailed rfl hsteady₄ rfl
    exact ⟨{ s with kernel := k₄ }, hsteady₄.fault.trans hf,
      .on (hsteady₁.fault.trans hf) hmade <| .on (hsteady₂.fault.trans hf) hcopied <|
        .on (hsteady₃.fault.trans hf) hlast .ended⟩
  · obtain ⟨k₄, k₅, hlinked, hsteady₄, hstarted, hbegets⟩ := h.linked hx
    have hlink := step_halted hs hd via context hlinked rfl hsteady₄ rfl
    have hlast := step_halted hs hd via context hstarted rfl
      hbegets.steady rfl
    exact ⟨{ s with
        kernel := k₅
        contexts := s.contexts.insert p s.nextContext
        nextContext := s.nextContext + 1 }, ⟨hbegets, rfl, rfl, rfl, rfl, rfl, rfl⟩,
      .on (hsteady₁.fault.trans hf) hmade <| .on (hsteady₂.fault.trans hf) hcopied <|
        .on (hsteady₃.fault.trans hf) hlink <| .on (hsteady₄.fault.trans hf) hlast .ended⟩

/-- A fork begins, and ends as its table foretells. -/
theorem fork_finishes (hspaced : s.kernel.host.Spaced) (hf : s.kernel.fault = none) {pid : Pid}
    (hv : s.canCall via pid = true) : ∃ reply s₁ result s',
      s.step (.fork pid via) = (reply, [], s₁) ∧ Finishes via result s' 4 reply s₁ ∧
      s'.kernel.fault = none ∧
      match s.kernel.obstacle? pid with
      | some error => result = .error error ∧ (s.Restored s' ∨
        ∃ q, s.kernel.pids.lookup pid = some q ∧ (s.kernel.block q).exiting = true)
      | none => ∃ q p, s.kernel.pids.lookup pid = some q ∧ result = .ok (p, s!"pid-{p}") ∧
        s.Begets q p s' := by
  have hact : s.act (.fork pid via) =
      proceed { s with kernel := (s.kernel.beginFork pid).2 }
        (.fork via (s.forkContext? via pid)) (s.kernel.beginFork pid).1 := by
    rw [act, hv]
    rfl
  rcases (hs.kernel hf).beginFork_cases hspaced pid with
    ⟨error, k', hbegin, hrestored, hwhy⟩ | ⟨q, p, k₁, k₂, k₃, hl, hpid, hstages, hwhy⟩
  · rw [hbegin] at hact
    exact ⟨_, _, _, { s with kernel := k' },
      step_of_settled hact (settled_of_steady hd hs hrestored.steady rfl), .ended,
      hrestored.fault.trans hf, by
        rw [hwhy]
        exact ⟨rfl, Or.inl ⟨hrestored, rfl, rfl, rfl, rfl, rfl, rfl⟩⟩⟩
  · rw [hstages.begun] at hact
    have hstep := step_of_settled hact (settled_of_steady hd hs hstages.steady.1 rfl)
    obtain ⟨hfailed, hlinked⟩ := Finishes.of_stages hs hd via
      (s.forkContext? via pid) hf hstages
    cases hx : (s.kernel.block q).exiting with
    | true =>
      obtain ⟨s', hfault, hfinishes⟩ := hfailed hx
      exact ⟨_, _, _, s', hstep, hfinishes, hfault, by
        rw [hwhy, hx, hpid]
        exact ⟨rfl, Or.inr ⟨q, hl, hx⟩⟩⟩
    | false =>
      obtain ⟨s', hbegets, hfinishes⟩ := hlinked hx
      exact ⟨_, _, _, s', hstep, hfinishes, hbegets.kernel.fault.trans hf,
        by rw [hwhy, hx]; exact ⟨q, p, hl, rfl, hbegets⟩⟩

end Steps

/-- The child that a step reports of its fork. -/
def reportedChild? : Report → Option Pid
  | .mk (.reply (.forked _ (.ok (child, _)))) _ _ _ _ => some child
  | _ => none

/-- After any moves, permitted or not, a fork that the host does not refuse and nothing comes
in between of goes through exactly if the table is live, the parent is installed and has not
begun to exit, and there is a pid. The child has the least one, and nothing else has changed. -/
theorem fork_begets {config : Config} {refusal : Option Errno} {moves : List Move}
    (hb : boot config refusal = .ok s) (hf : (s.run moves).kernel.fault = none) {pid : Pid}
    {via : Via} (hv : (s.run moves).canCall via pid = true) (detail : Detail) :
    let t := s.run moves
    ∃ result calls view s',
      t.runOp detail (.fork pid via {} none none none none) =
        (.mk (.reply (.forked via result)) [] [] calls view, s') ∧
      (result.isOk = true ↔ t.kernel.live = true ∧
        (∃ q, t.kernel.pids.lookup pid = some q ∧ (t.kernel.block q).exiting = false) ∧
        0 < t.kernel.pids.free) ∧
      match t.kernel.obstacle? pid with
      | some error => result = .error error
      | none => ∃ q p, t.kernel.pids.lookup pid = some q ∧ result = .ok (p, s!"pid-{p}") ∧
        t.Begets q p s' := by
  obtain ⟨hfirm, hsettled⟩ := firm_boot hb
  obtain ⟨hfirm, hsettled⟩ := hfirm.run hsettled moves
  obtain ⟨reply, s₁, result, s', hstep, hfinishes, hfault, hends⟩ :=
    fork_finishes hfirm hsettled via (spaced_run (spaced_boot hb) moves) hf hv
  obtain ⟨calls, view, hrun⟩ := hfinishes.runOp hstep hfault detail
  refine ⟨result, calls, view, s', hrun, ?_⟩
  rw [← Kernel.obstacle?_eq_none_iff]
  cases hwhy : (s.run moves).kernel.obstacle? pid with
  | some error =>
    rw [hwhy] at hends
    exact ⟨by simp [hends.1, Except.isOk, Except.toBool], hends.1⟩
  | none =>
    rw [hwhy] at hends
    obtain ⟨q, p, hl, rfl, hbegets⟩ := hends
    exact ⟨by simp [Except.isOk, Except.toBool], q, p, hl, rfl, hbegets⟩

/-- The first process has gone and somebody sleeps on a third one, which forks: the child gets
the pid that the first one had. -/
theorem fork_begets_at_first_free : ∃ s : Session, ∃ moves : List Move,
    boot { maxProcesses := 8 } none = .ok s ∧ (s.run moves).kernel.fault = none ∧
      (s.run moves).canCall .syscall 3 = true ∧ (s.run moves).parked.length = 1 ∧
      ∃ q calls view s', (s.run moves).kernel.pids.lookup 3 = some q ∧
        (s.run moves).runOp .none (.fork 3 .syscall {} none none none none) =
          (.mk (.reply (.forked .syscall (.ok (1, "pid-1")))) [] [] calls view, s') ∧
        (s.run moves).Begets q 1 s' := by
  let moves : List Move :=
    [.fork 0 .context, .resume none, .resume none, .resume none, .resume none,
      .fork 0 .context, .resume none, .resume none, .resume none, .resume none,
      .fork 2 .context, .resume none, .resume none, .resume none, .resume none,
      .wait 2 3 0 .context none, .exit 1 ⟨.exited, 0⟩]
  obtain ⟨s, hb, hf, hv, hparked, hwhy, hchild⟩ : ∃ s : Session,
      boot { maxProcesses := 8 } none = .ok s ∧ (s.run moves).kernel.fault = none ∧
        (s.run moves).canCall .syscall 3 = true ∧ (s.run moves).parked.length = 1 ∧
        (s.run moves).kernel.obstacle? 3 = none ∧
        reportedChild? ((s.run moves).runOp .none
          (.fork 3 .syscall {} none none none none)).1 = some 1 :=
    ⟨_, rfl, by decide +kernel⟩
  obtain ⟨result, calls, view, s', hrun, -, hends⟩ := fork_begets hb hf hv .none
  rw [hwhy] at hends
  obtain ⟨q, p, hl, rfl, hbegets⟩ := hends
  obtain rfl : p = 1 := by
    rw [hrun] at hchild
    exact Option.some.inj hchild
  exact ⟨s, moves, hb, hf, hv, hparked, q, calls, view, s', hl, hrun, hbegets⟩

/-- The kernel's own block has been released beyond what was held, and an orphan has been
linked under it. The child of the orphan gets the kernel's pid, and with it the list that the
orphan is in. -/
theorem orphan_under_its_own_child : ∃ s : Session, ∃ moves : List Move,
    boot { maxProcesses := 8 } none = .ok s ∧ (s.run moves).kernel.fault = none ∧
      (s.run moves).canCall .table 2 = true ∧
      let out := (s.run moves).runOp .none (.fork 2 .table {} none none none none)
      reportedChild? out.1 = some 0 ∧ out.2.kernel.family.childrenOf 0 = [2] := by
  let moves : List Move :=
    [.fork 0 .context, .resume none, .resume none, .resume none, .resume none,
      .fork 1 .context, .resume none, .resume none, .resume none, .resume none,
      .get 0 0, .overRelease 0, .overRelease 0, .exit 1 ⟨.exited, 0⟩]
  exact ⟨_, moves, rfl, by decide +kernel⟩

end Session

end Lifecycle
