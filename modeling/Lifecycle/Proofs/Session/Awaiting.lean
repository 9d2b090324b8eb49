import Lifecycle.Proofs.Kernel.Awaiting
import Lifecycle.Proofs.Session.Answering
import Lifecycle.Proofs.Session.Commuting

/-! A wait that sleeps until its target exits, and a wait for a target that has exited. Both are
told the same and leave the same table, unless the kernel is the parent: it reaps a process that
exits while nobody waits, and there is nothing to be told any more. -/

namespace Lifecycle.Session

/-- A wait has gone to sleep on a block. -/
def awaiting (s : Session) (p : Pid) (b : BlockId) (via : Via)
    (destination : Option RawStatus) : Session :=
  { s with
    kernel := s.kernel.update b .awaited
    parked := s.parked ++ [⟨s.nextWait, b, p, via, s.contexts.get? p, destination⟩]
    nextWait := s.nextWait + 1 }

/-- The process at `c`, whose block is `b`, exits before or after its parent at `p` waits for it. -/
structure Meets (s : Session) (p c : Pid) (b : BlockId) (status : ExitStatus) (via : Via)
    (destination : Option RawStatus) : Prop where
  /-- A wait that comes first sleeps, and the exit wakes it and nobody else. -/
  sleeps : s.step (.wait p (signedPid c) 0 via destination) =
    (.blocked s.nextWait, [], s.awaiting p b via destination)
  wakes : ((s.awaiting p b via destination).leave c status).1 =
    [⟨s.nextWait, ⟨via, .ok (c, status.encode), destination.map fun _ => status.encode⟩⟩]
  /-- An exit that comes first wakes nobody. -/
  silent : (s.leave c status).1 = []
  /-- The wait then is told the same at once, and what is left is the same. -/
  user : p ≠ kernelPid → (s.leave c status).2.step (.wait p (signedPid c) 0 via destination) =
    (.waited ⟨via, .ok (c, status.encode), destination.map fun _ => status.encode⟩, [],
      { ((s.awaiting p b via destination).leave c status).2 with nextWait := s.nextWait })
  /-- The kernel comes too late. -/
  late : p = kernelPid → (s.leave c status).2.step (.wait p (signedPid c) 0 via destination) =
    (.waited ⟨via, .error (.noSuchProcess (signedPid c)), destination⟩, [], (s.leave c status).2)
  /-- What is left then differs in the flag of the block, and in the order in which the host was
  called. -/
  marked : p = kernelPid → ∃ calls, ((s.awaiting p b via destination).leave c status).2 =
      { (s.leave c status).2 with
        kernel := { (s.leave c status).2.kernel.update b fun x => { x with waiter := true } with
          calls := calls }
        nextWait := s.nextWait + 1 } ∧
    calls.Perm (s.leave c status).2.kernel.calls
  /-- The block is nobody's any more unless it was held. -/
  gone : p = kernelPid → (s.kernel.block b).refCount = 1 →
    (s.leave c status).2.kernel.pids.lookup c = none
  /-- The moves come to that, if the process can exit when it is to. -/
  waitThenExit : (s.awaiting p b via destination).CanExit c →
    s.run [.wait p (signedPid c) 0 via destination, .exit c status] =
      ((s.awaiting p b via destination).leave c status).2
  exitThenWait : s.CanExit c →
    s.run [.exit c status, .wait p (signedPid c) 0 via destination] =
      ((s.leave c status).2.step (.wait p (signedPid c) 0 via destination)).2.2

variable {s : Session} {p c : Pid} {b : BlockId} {status : ExitStatus} {via : Via}
  {destination : Option RawStatus}

/-- Somebody who can call after another has left could call before. -/
theorem canCall_of_leave (hs : s.Hale) (hb : s.kernel.pids.lookup c = some b)
    (hc : c ≠ kernelPid) (hr : (s.kernel.block b).state = .running) (status : ExitStatus)
    (hcan : (s.leave c status).2.canCall via p = true) : s.canCall via p = true := by
  obtain ⟨-, hsession, -⟩ := hs.left hb hc hr status
  have hcontexts : (s.leave c status).2.contexts = s.contexts.erase c := by rw [hsession]
  have hkept : (s.contexts.erase c).contains p = true → s.contexts.contains p = true := by
    unfold Assoc.contains
    rw [Assoc.get?_erase]
    split
    · exact fun hnone => by cases hnone
    · exact id
  cases via with
  | table => rfl
  | context =>
    simp only [canCall, hcontexts, Bool.or_eq_true] at hcan ⊢
    exact hcan.imp_right hkept
  | syscall =>
    simp only [canCall, hcontexts] at hcan ⊢
    exact hkept hcan

section Meeting

variable (hs : s.Hale) (hr : (s.kernel.block b).state = .running)
  (hw : (s.kernel.block b).waiter = false)
include hs hr hw

theorem parked_without_waiter : s.parked.filter (·.block == b) = [] ∧
    s.parked.filter (·.block != b) = s.parked := by
  have hnone : s.parked.filter (·.block == b) = [] := by
    have hlength := hs.sleepers_of_running hr
    rw [hw] at hlength
    exact List.length_eq_zero_iff.1 hlength
  refine ⟨hnone, List.filter_eq_self.2 fun w hwp => ?_⟩
  have hne := List.filter_eq_nil_iff.1 hnone w hwp
  simpa using hne

variable (hb : s.kernel.pids.lookup c = some b) (hc : c ≠ kernelPid)
include hb hc

/-- A process that nobody waits for leaves. -/
theorem leave_of_not_waiter (status : ExitStatus) : s.leave c status =
    ([], { s with
      kernel := (s.kernel.exitThread c status).2
      contexts := s.contexts.erase c }) := by
  obtain ⟨hnone, hall⟩ := parked_without_waiter hs hr hw
  rw [hs.leave_eq hb hc hr, hnone, hall]
  rfl

/-- A wait for it sleeps. -/
theorem step_wait_sleeps (hp : (s.kernel.block b).parent = some p)
    (hcan : s.canCall via p = true) (destination : Option RawStatus) :
    s.step (.wait p (signedPid c) 0 via destination) =
      (.blocked s.nextWait, [], s.awaiting p b via destination) := by
  have hnamed : s.kernel.named? (signedPid c) = some b :=
    Kernel.named?_eq_some_iff.2 ⟨hs.intact.live, c,
      targetPid?_signedPid hs.intact.valid hb hc, hb⟩
  have hverdict : s.kernel.verdict p (signedPid c) 0 = .sleeps b := by
    unfold Kernel.verdict
    rw [if_neg (fun hne => hne rfl), hnamed]
    simp [hp, hr, hw]
  exact (answers (.inl hs.intact) hs.settled (fun _ => hs) hcan _ _ destination).sleeps b hverdict

/-- Asleep, it is told the status by the exit, and by nothing else. -/
theorem leave_awaiting (hp : (s.kernel.block b).parent = some p) (hcan : s.canCall via p = true)
    (destination : Option RawStatus) (status : ExitStatus) :
    (s.awaiting p b via destination).leave c status =
      ([⟨s.nextWait, ⟨via, .ok (c, status.encode), destination.map fun _ => status.encode⟩⟩],
        { s with
          kernel := (((s.kernel.forsake c b status.encode).update b .consumed).release b).2
          contexts := s.contexts.erase c
          nextWait := s.nextWait + 1 }) := by
  have hstep := step_wait_sleeps hs hr hw hb hc hp hcan destination
  have hale : (s.awaiting p b via destination).Hale := by
    have hsettled := (hs.waits (s.performs (.wait p (signedPid c) 0 via destination))).settle
    have hlast : (s.act (.wait p (signedPid c) 0 via destination)).2.settle.2 =
        s.awaiting p b via destination := congrArg (·.2.2) hstep
    rw [hlast] at hsettled
    exact hsettled hs.fault
  have hrunning : ((s.kernel.update b .awaited).block b).state = .running :=
    (Kernel.view_update Block.state rfl b).trans hr
  obtain ⟨hnone, hall⟩ := parked_without_waiter hs hr hw
  have hwoken : (s.awaiting p b via destination).parked.filter (·.block == b) =
      [⟨s.nextWait, b, p, via, s.contexts.get? p, destination⟩] := by
    rw [awaiting, List.filter_append, hnone]
    simp
  have hasleep : (s.awaiting p b via destination).parked.filter (·.block != b) = s.parked := by
    rw [awaiting, List.filter_append, hall]
    simp
  have hwake := (hs.kernel.exits hb hc hr).wake_awaited
    ((Block.state_eq_running_iff _).1 hr).1 status
  rw [hale.leave_eq (b := b) hb hc hrunning, hwoken, hasleep]
  simp only [List.foldl_cons, List.foldl_nil, wakeOne, awaiting, hwake, List.reverse_cons,
    List.reverse_nil, List.nil_append, copyOut]

/-- Whoever waits for a zombie of a user's collects the status at once. -/
theorem step_wait_collects_left (hp : (s.kernel.block b).parent = some p) (hu : p ≠ kernelPid)
    (status : ExitStatus) (hcan : (s.leave c status).2.canCall via p = true)
    (destination : Option RawStatus) :
    (s.leave c status).2.step (.wait p (signedPid c) 0 via destination) =
      (.waited ⟨via, .ok (c, status.encode), destination.map fun _ => status.encode⟩, [],
        { s with
          kernel := (((s.kernel.forsake c b status.encode).update b .consumed).release b).2
          contexts := s.contexts.erase c }) := by
  have hexits := hs.kernel.exits hb hc hr
  have hpath : s.kernel.exitPath b = .zombie := by
    unfold Kernel.exitPath
    rw [hp]
    exact if_neg fun hk => hu (Option.some.inj hk.1)
  have hale := hs.leave hb hc hr status
  have hleave := leave_of_not_waiter hs hr hw hb hc status
  rw [hexits.exitThread_zombie hpath] at hleave
  rw [hleave] at hale hcan ⊢
  dsimp only at hale hcan ⊢
  have hblock := hexits.block_forsake status.encode
  have hpid : (s.kernel.block b).pid = c := (hs.intact.lookup_iff.1 hb).1
  have hfound : (s.kernel.forsake c b status.encode).pids.lookup c = some b := by
    refine hale.intact.lookup_iff.2 ?_
    dsimp only
    rw [hblock]
    exact ⟨hpid, hexits.counted⟩
  have hverdict : (s.kernel.forsake c b status.encode).verdict p (signedPid c) 0 =
      .collects b := by
    unfold Kernel.verdict
    rw [if_neg (fun hne => hne rfl), Kernel.named?_eq_some_iff.2 ⟨hale.intact.live, c,
      targetPid?_signedPid hale.intact.valid hfound hc, hfound⟩]
    have hreaped := ((Block.state_eq_running_iff _).1 hr).1
    simp [hblock, Block.quit, Block.state, hp, hw, hreaped]
  have hstep := (hale.step_wait_collects hcan destination hverdict).1
  dsimp only at hstep
  rw [hblock] at hstep
  rw [hstep]
  simp only [Block.quit, hpid]

/-- A process of the kernel's that exits is gone or reaped. -/
theorem step_wait_late (hp : (s.kernel.block b).parent = some kernelPid) (status : ExitStatus)
    (hcan : (s.leave c status).2.canCall via kernelPid = true)
    (destination : Option RawStatus) :
    (s.leave c status).2.step (.wait kernelPid (signedPid c) 0 via destination) =
      (.waited ⟨via, .error (.noSuchProcess (signedPid c)), destination⟩, [],
        (s.leave c status).2) := by
  have hpath : s.kernel.exitPath b = .reaped := if_pos ⟨hp, hw⟩
  obtain ⟨hquits, -⟩ := hs.kernel.quits hb hc hr status.encode
  have hale := hs.leave hb hc hr status
  have hkernel : (s.leave c status).2.kernel = (s.kernel.exit c status.encode).2.terminateThread
      (s.kernel.block b).task := by
    rw [leave_of_not_waiter hs hr hw hb hc, Kernel.exitThread_of_found (hs.intact.found hb)]
  have hverdict : (s.leave c status).2.kernel.verdict kernelPid (signedPid c) 0 =
      .refused (.noSuchProcess (signedPid c)) := by
    unfold Kernel.verdict
    rw [if_neg (fun hne => hne rfl)]
    cases hn : (s.leave c status).2.kernel.named? (signedPid c) with
    | none => rfl
    | some x =>
      obtain ⟨-, pid, ht, hx⟩ := Kernel.named?_eq_some_iff.1 hn
      obtain rfl := pid_of_targetPid?_signedPid ht
      -- whoever is found there is the process itself, which is reaped
      rw [hkernel] at hx ⊢
      obtain rfl := Option.some.inj (((hquits.installed _ x).1 hx).1.symm.trans hb)
      have hblock : ((s.kernel.exit pid status.encode).2.terminateThread
          (s.kernel.block x).task).block x = _ := hquits.block_reaped hpath
      have hsurrendered : ∀ y : Block, y.surrendered.parent = y.parent ∧
          y.surrendered.reaped = y.reaped := fun y => by
        unfold Block.surrendered
        split <;> exact ⟨rfl, rfl⟩
      have hparent := (hsurrendered { s.kernel.block x with
        exiting := true, exited := true, code := status.encode, reaped := true }).1.trans hp
      have hreaped := (hsurrendered { s.kernel.block x with
        exiting := true, exited := true, code := status.encode, reaped := true }).2
      dsimp only
      rw [hblock, hparent, if_neg (fun hne => hne rfl),
        if_pos ((Block.state_eq_reaped_iff _).2 hreaped)]
  exact (answers (.inl hale.intact) hale.settled (fun _ => hale) hcan _ _ destination).refused _
    hverdict

theorem meets (hp : (s.kernel.block b).parent = some p) (status : ExitStatus)
    (hcan : (s.leave c status).2.canCall via p = true) (destination : Option RawStatus) :
    s.Meets p c b status via destination := by
  have hbefore := canCall_of_leave hs hb hc hr status hcan
  have hawaiting := leave_awaiting hs hr hw hb hc hp hbefore destination status
  have hleave := leave_of_not_waiter hs hr hw hb hc status
  have hsleeps := step_wait_sleeps hs hr hw hb hc hp hbefore destination
  refine ⟨hsleeps, ?_, ?_, fun hu => ?_, fun hk => ?_, fun hk => ?_, fun hk hn => ?_,
    fun hcan => ?_, fun hcan => ?_⟩
  · rw [hawaiting]
  · rw [hleave]
  · rw [step_wait_collects_left hs hr hw hb hc hp hu status hcan, hawaiting]
  · subst hk
    exact step_wait_late hs hr hw hb hc hp status hcan destination
  · subst hk
    obtain ⟨calls, hlast, hcalls⟩ :=
      (hs.kernel.exits hb hc hr).collected_eq (if_pos ⟨hp, hw⟩) status
    rw [hawaiting, hleave, hlast]
    exact ⟨calls, rfl, hcalls⟩
  · subst hk
    obtain ⟨hquits, -⟩ := hs.kernel.quits hb hc hr status.encode
    refine Option.eq_none_iff_forall_ne_some.2 fun x hx => ?_
    rw [hleave, Kernel.exitThread_of_found (hs.intact.found hb)] at hx
    obtain ⟨hfound, hcounted⟩ := (hquits.installed _ x).1 hx
    obtain rfl := Option.some.inj (hfound.symm.trans hb)
    exact hcounted ((hquits.torn x).2 (Or.inr ⟨hn, Or.inl ⟨rfl, if_pos ⟨hp, hw⟩⟩⟩))
  · have hasleep : (s.awaiting p b via destination).kernel.fault = none := hs.fault
    rw [run_cons, hs.fault, hsleeps]
    simp only [Option.isSome_none, Bool.false_eq_true, if_false]
    rw [run_cons, hasleep, step_of_canExit hcan]
    rfl
  · have hgone : (s.leave c status).2.kernel.fault = none := (hs.leave hb hc hr status).fault
    rw [run_cons, hs.fault, step_of_canExit hcan]
    simp only [Option.isSome_none, Bool.false_eq_true, if_false]
    rw [run_cons, hgone]
    rfl

end Meeting

/-- After any moves, permitted or not, a wait and the exit of its target can be swapped. -/
theorem wait_meets_exit {config : Config} {refusal : Option Errno} {moves : List Move}
    (hb : boot config refusal = .ok s) (hf : (s.run moves).kernel.fault = none)
    (hl : (s.run moves).kernel.live = true)
    (hfound : (s.run moves).kernel.pids.lookup c = some b) (hc : c ≠ kernelPid)
    (hr : ((s.run moves).kernel.block b).state = .running)
    (hw : ((s.run moves).kernel.block b).waiter = false)
    (hp : ((s.run moves).kernel.block b).parent = some p) (status : ExitStatus)
    (hcan : ((s.run moves).leave c status).2.canCall via p = true)
    (destination : Option RawStatus) :
    (s.run moves).Meets p c b status via destination := by
  obtain ⟨hfirm, hsettled⟩ := firm_boot hb
  exact meets (hale_run hfirm hsettled (fun _ _ => hale_boot hb) moves hf hl) hr hw hfound hc hp
    status hcan destination

/-- A child of a user's and one of the kernel's, both held by slots, exit before and after their
parents wait for them. -/
theorem wait_meets_exit_of_two : ∃ s : Session, ∃ moves : List Move,
    boot { maxProcesses := 8 } none = .ok s ∧ (s.run moves).kernel.fault = none ∧
      (s.run moves).kernel.live = true ∧
      [2, 3].map (fun b => (s.run moves).kernel.block b |>.refCount) = [2, 2] ∧
      (s.run moves).Meets 1 2 2 ⟨.exited, 7⟩ .context (some 5) ∧
      (s.run moves).Meets 0 3 3 ⟨.signaled, 9⟩ .table none ∧
      (s.run (moves ++ [.wait 1 (signedPid 2) 0 .context (some 5), .exit 2 ⟨.exited, 7⟩])).kernel =
        (s.run (moves ++
          [.exit 2 ⟨.exited, 7⟩, .wait 1 (signedPid 2) 0 .context (some 5)])).kernel := by
  let moves : List Move :=
    [.fork 0 .context, .resume none, .resume none, .resume none, .resume none,
      .fork 1 .context, .resume none, .resume none, .resume none, .resume none,
      .fork 0 .context, .resume none, .resume none, .resume none, .resume none,
      .get 2 0, .get 3 1]
  obtain ⟨s, hb, hf, hl, hheld, hstates, ⟨hfound, hp⟩, ⟨hfound', hp'⟩, hcan, hexit, hexit'⟩ :
    ∃ s : Session,
      boot { maxProcesses := 8 } none = .ok s ∧ (s.run moves).kernel.fault = none ∧
        (s.run moves).kernel.live = true ∧
        [2, 3].map (fun b => (s.run moves).kernel.block b |>.refCount) = [2, 2] ∧
        (∀ b ∈ [2, 3], ((s.run moves).kernel.block b).state = .running ∧
          ((s.run moves).kernel.block b).waiter = false) ∧
        ((s.run moves).kernel.pids.lookup 2 = some 2 ∧
          ((s.run moves).kernel.block 2).parent = some 1) ∧
        ((s.run moves).kernel.pids.lookup 3 = some 3 ∧
          ((s.run moves).kernel.block 3).parent = some 0) ∧
        ((s.run moves).leave 2 ⟨.exited, 7⟩).2.canCall .context 1 = true ∧
        ((s.run moves).contexts.get? 2 = some 1 ∧ (s.run moves).isBusy 1 = false) ∧
        (((s.run moves).awaiting 1 2 .context (some 5)).contexts.get? 2 = some 1 ∧
          ((s.run moves).awaiting 1 2 .context (some 5)).isBusy 1 = false) :=
    ⟨_, rfl, by decide +kernel⟩
  obtain ⟨hr, hw⟩ := hstates 2 List.mem_cons_self
  obtain ⟨hr', hw'⟩ := hstates 3 (List.mem_cons_of_mem _ (List.mem_singleton_self _))
  have hmeets := wait_meets_exit hb hf hl hfound (by decide) hr hw hp ⟨.exited, 7⟩ hcan (some 5)
  have hdirect : ((s.run moves).leave 3 ⟨.signaled, 9⟩).2.canCall .table 0 = true := rfl
  have hmeets' :=
    wait_meets_exit hb hf hl hfound' (by decide) hr' hw' hp' ⟨.signaled, 9⟩ hdirect none
  refine ⟨s, moves, hb, hf, hl, hheld, hmeets, hmeets', ?_⟩
  rw [run_append, run_append, hmeets.waitThenExit ⟨1, hexit'⟩, hmeets.exitThenWait ⟨1, hexit⟩,
    hmeets.user (by decide)]

/-- The kernel's own block has been released beyond what was held, and a child of a user's has the
kernel's pid: a wait for it is refused, while no fork is under way. -/
theorem wait_refused_at_kernelPid : ∃ s : Session, ∃ moves : List Move,
    boot { maxProcesses := 8 } none = .ok s ∧ (s.run moves).kernel.fault = none ∧
      (s.run moves).kernel.live = true ∧ (s.run moves).frames = [] ∧
      (s.run moves).kernel.pids.lookup 0 = some 3 ∧
      ((s.run moves).kernel.block 3).state = .running ∧
      ((s.run moves).kernel.block 3).waiter = false ∧
      ((s.run moves).kernel.block 3).parent = some 2 ∧
      (s.run moves).step (.wait 2 (signedPid 0) 0 .table none) =
        (.waited ⟨.table, .error (.noSuchProcess 0), none⟩, [], s.run moves) := by
  let moves : List Move :=
    [.fork 0 .context, .resume none, .resume none, .resume none, .resume none,
      .fork 1 .context, .resume none, .resume none, .resume none, .resume none,
      .get 0 0, .overRelease 0, .overRelease 0, .exit 1 ⟨.exited, 0⟩,
      .fork 2 .table, .resume none, .resume none, .resume none, .resume none]
  obtain ⟨s, hb, hf, hl, hframes, hfound, hr, hw, hp, hverdict⟩ : ∃ s : Session,
      boot { maxProcesses := 8 } none = .ok s ∧ (s.run moves).kernel.fault = none ∧
        (s.run moves).kernel.live = true ∧ (s.run moves).frames = [] ∧
        (s.run moves).kernel.pids.lookup 0 = some 3 ∧
        ((s.run moves).kernel.block 3).state = .running ∧
        ((s.run moves).kernel.block 3).waiter = false ∧
        ((s.run moves).kernel.block 3).parent = some 2 ∧
        (s.run moves).kernel.verdict 2 (signedPid 0) 0 = .refused (.noSuchProcess 0) :=
    ⟨_, rfl, by decide +kernel⟩
  have hs := hale_run (firm_boot hb).1 (firm_boot hb).2 (fun _ _ => hale_boot hb) moves hf hl
  exact ⟨s, moves, hb, hf, hl, hframes, hfound, hr, hw, hp,
    (answers (.inl hs.intact) hs.settled (fun _ => hs) rfl _ _ none).refused _ hverdict⟩

end Lifecycle.Session
