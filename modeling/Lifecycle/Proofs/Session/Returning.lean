import Lifecycle.Proofs.Session.Allotting
import Lifecycle.Session.Query

/-! What system calls return. A result is minus one with an error number or the pid that the
table has named, never both; the numbers of a table fit the signed word that user code is
given, and the status of a child is written with success alone. -/

namespace Lifecycle

/-- A result tells what a call came to: minus one goes with the number of its error, and a pid
is returned as it is. -/
structure SyscallResult.Tells (result : SyscallResult) (capacity : Nat)
    (answer : Except ProcessError Pid) : Prop where
  errno : result.errno.isSome = true ↔ result.retval = -1
  ok : ∀ pid, answer = .ok pid →
    result.errno = none ∧ result.retval.toInt = pid.toNat ∧ pid.toNat < capacity
  error : ∀ error, answer = .error error → result.errno = some error.errno

/-- The signed form of a pid that a table can hold is the same number. -/
theorem toInt_toInt32 {pid : Pid} (hp : pid.toNat < maxPidSpace.toNat) :
    pid.toInt32.toInt = pid.toNat := by
  have hbound : maxPidSpace.toNat = 1048576 := rfl
  change pid.toInt32.toBitVec.toInt = _
  rw [UInt32.toBitVec_toInt32, BitVec.toInt_eq_toNat_of_lt]
  · rfl
  · change 2 * pid.toNat < _
    omega

/-- No pid of a table is returned as minus one. -/
theorem SyscallResult.tells_ofPid {capacity : Nat} (hc : capacity ≤ maxPidSpace.toNat)
    {answer : Except ProcessError Pid} (ha : ∀ pid, answer = .ok pid → pid.toNat < capacity) :
    (SyscallResult.ofPid answer).Tells capacity answer := by
  cases answer with
  | error error =>
    refine ⟨⟨fun _ => rfl, fun _ => rfl⟩, fun pid he => (by cases he), fun error' he => ?_⟩
    cases he
    rfl
  | ok pid =>
    have hlt := ha pid rfl
    have hsame : pid.toInt32.toInt = pid.toNat := toInt_toInt32 (Nat.lt_of_lt_of_le hlt hc)
    refine ⟨⟨fun hn => (by cases hn), fun he => ?_⟩, fun pid' he => ?_, fun error he => by cases he⟩
    · have hneg : pid.toInt32.toInt = -1 := congrArg Int32.toInt he
      omega
    · cases he
      exact ⟨rfl, hsame, hlt⟩

theorem SyscallResult.Tells.positive {result : SyscallResult} {capacity : Nat} {pid : Pid}
    (ht : result.Tells capacity (.ok pid)) (hp : pid ≠ kernelPid) : 0 < result.retval.toInt := by
  have hpos : pid.toNat ≠ 0 := fun hz => hp (UInt32.toNat_inj.1 hz)
  rw [(ht.ok pid rfl).2.1]
  omega

namespace Kernel

variable {k : Kernel}

theorem beginFork_ne_created (pid : Pid) (b : BlockId) : (k.beginFork pid).1 ≠ .created b := by
  rcases k.beginFork_cases pid with ⟨error, hk⟩ | ⟨q, p, hk⟩ <;> rw [hk] <;> nofun

/-- Blocks have the same pids and statuses. -/
def Echoes (k k' : Kernel) : Prop :=
  ∀ c, (k'.block c).pid = (k.block c).pid ∧ (k'.block c).code = (k.block c).code

/-- Finishing a wait changes no pid and no status. -/
theorem Echoes.wake {k' : Kernel} (h : k.Echoes k') (b : BlockId) : k.Echoes (k'.wake b).2 := by
  suffices k'.Echoes (k'.wake b).2 from fun c =>
    ⟨(this c).1.trans (h c).1, (this c).2.trans (h c).2⟩
  intro c
  unfold Kernel.wake
  split
  · have hq := quiet_release k' b
    exact ⟨hq.pid c, hq.code c⟩
  · have hq := quiet_collect k' b
    exact ⟨hq.view_of_update Block.pid_of_core rfl c,
      hq.view_of_update Block.code_of_core rfl c⟩

end Kernel

/-- How a wait that slept on a block may end: with the status of the process, or without one if its
fork has failed. -/
def Block.Ends (x : Block) (result : Except ProcessError (Pid × RawStatus)) : Prop :=
  result = .ok (x.pid, x.code) ∨ result = .error (.noSuchProcess (signedPid x.pid))

namespace Session

/-- Somebody has a reference on the kernel's own block. -/
def Rooted (t : Session) : Prop := (t.kernel.block Kernel.root).refCount ≠ 0

/-- What a system call to fork is answered as far as the fork of the table has come. -/
def ForkReturns (t : Session) (progress : Progress) (reply : Reply) : Prop :=
  match progress with
  | .stopped pending => reply = .stopped pending.service
  | .created _ => False
  | .failed error => ∃ result, reply.forkResult? = some result ∧
      result.Tells t.kernel.pids.capacity (.error error)
  | .forked child _ => ∃ result, reply.forkResult? = some result ∧
      result.Tells t.kernel.pids.capacity (.ok child) ∧ (t.Rooted → 0 < result.retval.toInt)

/-- What a system call to wait is answered when the wait of the table has ended so. -/
structure WaitReturns (t : Session) (destination : Option RawStatus)
    (result : Except ProcessError (Pid × RawStatus)) (report : WaitReport) : Prop where
  reported : report.result = result
  tells : report.sysResult.Tells t.kernel.pids.capacity (result.map (·.1))
  positive : ∀ pid raw, result = .ok (pid, raw) → 0 < report.sysResult.retval.toInt
  /-- The status is written with success, and only then. -/
  written : ∀ pid raw, result = .ok (pid, raw) → report.destination = destination.map fun _ => raw
  untouched : ∀ error, result = .error error → report.destination = destination

/-- What system calls return in a session. -/
structure Returns (t : Session) : Prop where
  bound : t.kernel.pids.capacity ≤ maxPidSpace.toNat
  self : ∀ pid, t.canCall .syscall pid = true → ∃ result parent description,
    t.ask (.self pid) = .self pid result parent description ∧
      result.Tells t.kernel.pids.capacity (.ok pid) ∧ (t.Rooted → 0 < result.retval.toInt)
  /-- A fork that is begun. -/
  begun : ∀ pid, t.canCall .syscall pid = true →
    t.ForkReturns (t.kernel.beginFork pid).1 (t.step (.fork pid .syscall)).1
  /-- A fork that goes on, whatever came in between. -/
  resumed : ∀ f fs context refusal, t.frames = f :: fs → f.purpose = .fork .syscall context →
    t.ForkReturns (t.kernel.resume f.pending refusal).1 (t.step (.resume refusal)).1
  waited : ∀ caller target options destination, t.canCall .syscall caller = true →
    match (t.kernel.wait caller target options).1 with
    | .done result => ∃ report,
        (t.step (.wait caller target options .syscall destination)).1 = .waited report ∧
          t.WaitReturns destination result report
    | .asleep b =>
        (t.step (.wait caller target options .syscall destination)).1 = .blocked t.nextWait ∧
          ⟨t.nextWait, b, caller, .syscall, t.contexts.get? caller, destination⟩ ∈
            (t.step (.wait caller target options .syscall destination)).2.2.parked
  /-- A wait that slept. -/
  woken : ∀ move, ∀ out ∈ (t.step move).2.1, ∃ w ∈ t.parked, out.id = w.id ∧
    out.report.via = w.via ∧ ∃ result, ((t.step move).2.2.kernel.block w.block).Ends result ∧
      t.WaitReturns w.destination result out.report

variable {s t : Session} {move : Move} {via : Via}

theorem Allotted.forkReturns (h : t.Allotted) {progress : Progress} (u : Session)
    (context : Option Nat) (hc : ∀ b, progress ≠ .created b)
    (hf : ∀ child thread, progress = .forked child thread → t.kernel.Allots child) :
    t.ForkReturns progress (u.proceed (.fork .syscall context) progress).1 := by
  cases progress with
  | stopped pending => rfl
  | created b => exact absurd rfl (hc b)
  | failed error =>
    exact ⟨_, rfl, SyscallResult.tells_ofPid h.bound fun _ he => by cases he⟩
  | forked child thread =>
    have ha := hf child thread rfl
    have ht : (SyscallResult.ofPid (.ok child)).Tells t.kernel.pids.capacity (.ok child) :=
      SyscallResult.tells_ofPid h.bound fun pid he => by
        cases he
        exact ha.lt
    exact ⟨_, rfl, ht, fun hrooted => ht.positive fun he => hrooted (ha.given he)⟩

theorem Allotted.waitReturns (h : t.Allotted) (via : Via) (destination : Option RawStatus)
    {result : Except ProcessError (Pid × RawStatus)}
    (ha : ∀ pid raw, result = .ok (pid, raw) → t.kernel.Allots pid ∧ pid ≠ kernelPid) :
    t.WaitReturns destination result ⟨via, result, copyOut destination result⟩ := by
  have ht : (SyscallResult.ofPid (result.map (·.1))).Tells t.kernel.pids.capacity
      (result.map (·.1)) := SyscallResult.tells_ofPid h.bound fun pid he => by
    cases result with
    | error error => cases he
    | ok found =>
      cases he
      exact (ha found.1 found.2 rfl).1.lt
  refine ⟨rfl, ht, fun pid raw he => ?_, fun pid raw he => ?_, fun error he => ?_⟩
  · subst he
    exact ht.positive (ha pid raw rfl).2
  · subst he
    rfl
  · subst he
    rfl

/-- A context has a pid that the table has allotted. -/
theorem Allotted.self (h : t.Allotted) {pid : Pid} (hcan : t.canCall .syscall pid = true) :
    ∃ result parent description, t.ask (.self pid) = .self pid result parent description ∧
      result.Tells t.kernel.pids.capacity (.ok pid) ∧
      (t.Rooted → 0 < result.retval.toInt) := by
  have ha := h.contexts pid hcan
  have ht : (SyscallResult.ofPid (.ok pid)).Tells t.kernel.pids.capacity (.ok pid) :=
    SyscallResult.tells_ofPid h.bound fun q he => by
      cases he
      exact ha.lt
  exact ⟨_, _, _, if_pos hcan, ht, fun hrooted => ht.positive fun he => hrooted (ha.given he)⟩

theorem Allotted.begun (h : t.Allotted) {pid : Pid} (hcan : t.canCall .syscall pid = true) :
    t.ForkReturns (t.kernel.beginFork pid).1 (t.step (.fork pid .syscall)).1 := by
  have hact : t.act (.fork pid .syscall) =
      proceed { t with kernel := (t.kernel.beginFork pid).2 }
        (.fork .syscall (t.forkContext? .syscall pid)) (t.kernel.beginFork pid).1 := by
    rw [Session.act, hcan]
    rfl
  have hstep : (t.step (.fork pid .syscall)).1 = (t.act (.fork pid .syscall)).1 := rfl
  rw [hstep, hact]
  exact h.forkReturns _ _ (Kernel.beginFork_ne_created pid)
    fun child thread he => (Kernel.beginFork_ne_forked _ _ _ _ he).elim

theorem Allotted.resumed (h : t.Allotted) {f : Frame} {fs : List Frame} {context : Option Nat}
    (refusal : Option Errno) (hf : t.frames = f :: fs) (hp : f.purpose = .fork .syscall context) :
    t.ForkReturns (t.kernel.resume f.pending refusal).1 (t.step (.resume refusal)).1 := by
  have hstep : (t.step (.resume refusal)).1 = (t.act (.resume refusal)).1 := rfl
  have hmem : f ∈ t.frames := hf ▸ List.mem_cons_self
  obtain ⟨parent, hparent⟩ := h.forks f hmem _ _ hp
  rw [hstep, act_resume_of_cons hf, hp]
  refine h.forkReturns _ _ (Kernel.resume_ne_created hparent) fun child thread he => ?_
  obtain ⟨parent, c, hpending, rfl⟩ := Kernel.forked_of_resume he
  exact (h.children c (List.mem_filterMap.2 ⟨f, hmem, by rw [hpending]; rfl⟩)).2

/-- Nobody wakes in a call to wait. -/
theorem woken_wait {r : List Pid} (hk : t.kernel.Sane r) (hd : t.Settled)
    (hale : t.kernel.live = true → t.Hale) (caller : Pid) (target : Int64) (options : Int32)
    (via : Via) (destination : Option RawStatus) :
    (t.step (.wait caller target options via destination)).2.1 = [] := by
  cases hcan : t.canCall via caller with
  | false =>
    rw [step_of_settled (act_wait_of_cannot hcan ..) hd]
  | true =>
    have ha := answers hk hd hale hcan target options destination
    cases hv : t.kernel.verdict caller target options with
    | refused error => rw [ha.refused error hv]
    | collects b =>
      obtain ⟨k', hstep, -⟩ := ha.collects b hv
      rw [hstep]
    | sleeps b => rw [ha.sleeps b hv]

/-- Whoever wakes slept before, on a block that tells what it hears. -/
theorem Allotted.woken (h : t.Allotted)
    (hparked : (t.step move).2.1 = [] ∨ (t.act move).2.parked = t.parked) {out : Woken}
    (hm : out ∈ (t.step move).2.1) : ∃ w ∈ t.parked, out.id = w.id ∧ out.report.via = w.via ∧
      ∃ result, ((t.step move).2.2.kernel.block w.block).Ends result ∧
        t.WaitReturns w.destination result out.report := by
  rcases hparked with hnone | hsame
  · rw [hnone] at hm
    cases hm
  · have hself : (t.act move).2.kernel.Echoes (t.act move).2.kernel := fun _ => ⟨rfl, rfl⟩
    have hafter : (t.act move).2.kernel.Echoes (t.step move).2.2.kernel :=
      settle_of (fun b hk => hk.wake b) hself
    obtain ⟨w, hw, k, hk, rfl⟩ :=
      mem_settle (P := (t.act move).2.kernel.Echoes) (fun b hk => hk.wake b) hself hm
    rw [hsame] at hw
    obtain ⟨hlt, hallots, hne⟩ := h.parked w hw
    obtain ⟨ds, hact⟩ := comes_act t move
    have hpid : (k.block w.block).pid = (t.kernel.block w.block).pid :=
      (hk w.block).1.trans (hact.pid hlt)
    refine ⟨w, hw, rfl, rfl, (k.wake w.block).1, ?_, h.waitReturns w.via w.destination ?_⟩
    · rw [Block.Ends, (hafter w.block).1, (hafter w.block).2, ← (hk w.block).1, ← (hk w.block).2]
      cases hr : (k.block w.block).reaped with
      | true => exact Or.inr (Kernel.wake_of_reaped hr)
      | false => exact Or.inl (Kernel.wake_of_unreaped hr)
    · intro pid raw he
      cases hr : (k.block w.block).reaped with
      | true => cases (Kernel.wake_of_reaped hr).symm.trans he
      | false =>
        cases (Kernel.wake_of_unreaped hr).symm.trans he
        rw [hpid]
        exact ⟨hallots, hne⟩

/-- After any moves, permitted or not, a system call returns the pid that the table has named,
which is positive and below the capacity of the table, or minus one and the number of the
table's error. The child of a fork may have the kernel's own pid if nobody has a reference on the
kernel's block any more. -/
theorem syscalls_return {config : Config} {refusal : Option Errno} {moves : List Move}
    (hb : boot config refusal = .ok s) (hf : (s.run moves).kernel.fault = none) :
    (s.run moves).Returns := by
  obtain ⟨hfirm, hsettled⟩ := firm_boot hb
  obtain ⟨hs, hd⟩ := hfirm.run hsettled moves
  have h := (allotted_boot hb).run hfirm moves
  have hk := hs.kernel hf
  have hale := hale_run hfirm hsettled (fun _ _ => hale_boot hb) moves hf
  refine ⟨h.bound, fun _ => h.self, fun _ => h.begun, fun _ _ _ refusal => h.resumed refusal,
    fun caller target options destination hcan => ?_, fun move out hm => ?_⟩
  · have ha := answers hk hd hale hcan target options destination
    rw [hk.wait_eq]
    cases hv : (s.run moves).kernel.verdict caller target options with
    | refused error =>
      rw [ha.refused error hv]
      exact ⟨_, rfl, h.waitReturns .syscall destination fun _ _ he => by cases he⟩
    | collects b =>
      obtain ⟨k', hstep, -⟩ := ha.collects b hv
      rw [hstep]
      refine ⟨_, rfl, h.waitReturns .syscall destination fun pid raw he => ?_⟩
      cases he
      exact (h.named (Kernel.verdict_collects hv).1).2
    | sleeps b =>
      rw [ha.sleeps b hv]
      exact ⟨rfl, List.mem_append_right _ List.mem_cons_self⟩
  · refine h.woken ?_ hm
    cases move with
    | wait caller target options via destination =>
      exact Or.inl (woken_wait hk hd hale caller target options via destination)
    | _ => exact Or.inr (parked_act _ (by nofun))

/-- What a wait that has ended returns, with the status that it has written. -/
def returned (report : WaitReport) : SyscallResult × Option RawStatus :=
  (report.sysResult, report.destination)

def reportedWait? : Reply → Option (SyscallResult × Option RawStatus)
  | .waited report => some (returned report)
  | _ => none

/-- Process 1 waits for a child that has exited, for nobody and for a child whose fork has stopped.
The first gets a status, the second none, and the third is woken without one when the fork
fails. -/
theorem syscalls_return_by_state : ∃ s : Session, ∃ moves : List Move,
    boot { maxProcesses := 8 } none = .ok s ∧ (s.run moves).kernel.fault = none ∧
      (s.run moves).Rooted ∧ (s.run moves).canCall .syscall 1 = true ∧
      (s.run moves).frames.length = 1 ∧ (s.run moves).Returns ∧
      let wait (target : Int64) := (s.run moves).step (.wait 1 target 0 .syscall (some 77))
      reportedWait? (wait 2).1 = some (⟨2, none⟩, some 20) ∧
        reportedWait? (wait 7).1 = some (⟨-1, some .esrch⟩, some 77) ∧
        ((wait 3).2.2.step (.resume (some .enomem))).2.1.map (returned ·.report) =
          [(⟨-1, some .esrch⟩, some 77)] := by
  let moves : List Move :=
    [.fork 0 .context, .resume none, .resume none, .resume none, .resume none,
      .fork 1 .context, .resume none, .resume none, .resume none, .resume none,
      .exit 2 ⟨.exited, 5⟩, .fork 1 .syscall, .resume none, .resume none, .resume none]
  obtain ⟨s, hb, hf, hrooted, hcan, hframes, hreturned⟩ : ∃ s : Session,
      boot { maxProcesses := 8 } none = .ok s ∧ (s.run moves).kernel.fault = none ∧
        ((s.run moves).kernel.block Kernel.root).refCount ≠ 0 ∧
        (s.run moves).canCall .syscall 1 = true ∧ (s.run moves).frames.length = 1 ∧
        let wait (target : Int64) := (s.run moves).step (.wait 1 target 0 .syscall (some 77))
        reportedWait? (wait 2).1 = some (⟨2, none⟩, some 20) ∧
          reportedWait? (wait 7).1 = some (⟨-1, some .esrch⟩, some 77) ∧
          ((wait 3).2.2.step (.resume (some .enomem))).2.1.map (returned ·.report) =
            [(⟨-1, some .esrch⟩, some 77)] :=
    ⟨_, rfl, by decide +kernel⟩
  exact ⟨s, moves, hb, hf, hrooted, hcan, hframes, syscalls_return hb hf, hreturned⟩

/-- The kernel's own block has been released beyond what was held, and its pid is free. The child
of the orphan 2 gets it, and the parent is returned zero. -/
theorem fork_returns_zero : ∃ s : Session, ∃ moves : List Move,
    boot { maxProcesses := 8 } none = .ok s ∧ (s.run moves).kernel.fault = none ∧
      (s.run moves).canCall .syscall 2 = true ∧
      ((s.run moves).forkNow 2 .syscall).1.forkResult? = some ⟨0, none⟩ := by
  let moves : List Move :=
    [.fork 0 .context, .resume none, .resume none, .resume none, .resume none,
      .fork 1 .context, .resume none, .resume none, .resume none, .resume none,
      .get 0 0, .overRelease 0, .overRelease 0, .exit 1 ⟨.exited, 0⟩]
  exact ⟨_, moves, rfl, by decide +kernel⟩

end Session

end Lifecycle
