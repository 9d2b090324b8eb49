import Lifecycle.Proofs.Workload.Tending

/-! The processes of a workload may run in any order: as long as one has something to do, one can
run. When all have left, the first has exited with no failures, and of the table only the kernel
is occupied. -/

namespace Lifecycle

namespace Workload

variable {w : Workload} {s s' : Session} {P : Pid → Option Program} {i p c : Pid} {b : BlockId}
  {head program : Program} {code left : Int32} {st : Station}

/-! ### Calls of the processes -/

theorem get?_erase (w : Workload) (p : Pid) :
    (w.programs.erase p).get? = Function.update w.programs.get? p none := by
  funext q
  rw [Assoc.get?_erase, Function.update_apply]

/-- The status of a worker is what its parent expects. -/
theorem failuresAfter_eq (hcode : code ∈ codes) (failures : Int32) (via : Via) (c : Pid) :
    failuresAfter failures ⟨via, .ok (c, ExitStatus.encode ⟨.exited, code⟩),
      Session.copyOut (some 0) (.ok (c, ExitStatus.encode ⟨.exited, code⟩))⟩ c code = failures := by
  have hstatus : ∀ code ∈ codes, (⟨ExitStatus.encode ⟨.exited, code⟩⟩ : WaitStatus).exited = true ∧
      (⟨ExitStatus.encode ⟨.exited, code⟩⟩ : WaitStatus).exitCode = code := by
    intro code hcode
    simp only [codes, List.mem_cons, List.not_mem_nil, or_false] at hcode
    rcases hcode with rfl | rfl | rfl | rfl <;> decide
  obtain ⟨hexited, hexit⟩ := hstatus code hcode
  refine if_pos ?_
  change (c.toInt32 == c.toInt32 && (⟨ExitStatus.encode ⟨.exited, code⟩⟩ : WaitStatus).exited &&
    (⟨ExitStatus.encode ⟨.exited, code⟩⟩ : WaitStatus).exitCode == code) = true
  rw [hexited, hexit, beq_self_eq_true, beq_self_eq_true]
  rfl

/-- A process that runs forks a child with its program, unless no pid is left. -/
theorem fork_of_calm (hs : w.session.Calm) (hp : w.session.kernel.Shows p st)
    (hr : st.state = .running) {via : Via} (hv : w.session.canCall via p = true)
    (child : Program) :
    (∃ s', w.fork p via child = (none, { w with session := s' }) ∧ w.session.Repels s') ∨
    ∃ c s', w.fork p via child = (some c, { w with session := s' }.setProgram c child) ∧
      w.session.Bears p c s' := by
  rcases hs.forkNow hp hr hv with ⟨error, s', hf, h⟩ | ⟨c, thread, s', hf, h⟩
  · refine Or.inl ⟨s', ?_, h⟩
    unfold fork
    rw [hf]
    rfl
  · refine Or.inr ⟨c, s', ?_, h⟩
    unfold fork
    rw [hf]
    rfl

/-- A process leaves, and whoever sleeps for it goes on. -/
theorem stepProgram_leave (hl : w.session.Leaves p ⟨.exited, left⟩ st s')
    {sleepers : List ParkedWait}
    (hsleepers : w.session.parked.filter (·.block == st.block) = sleepers) :
    w.stepProgram p (.leave left) = { w with programs := w.programs.erase p }.resumeWith
      (sleepers.map (ParkedWait.finish · (.ok (p, ExitStatus.encode ⟨.exited, left⟩)))) s' := by
  have hstep := hl.step
  rw [hsleepers] at hstep
  rw [stepProgram]
  generalize w.session.step (.exit p ⟨.exited, left⟩) = out at hstep
  obtain ⟨reply, out⟩ := out
  dsimp only at hstep
  rw [hstep]

/-! ### One step -/

/-- A workload in order, whose first process is or was at `i`, with the block `b`. -/
structure Tended (w : Workload) (i : Pid) (b : BlockId) : Prop where
  staffs : Staffs w.session w.programs.get?
  first : (∃ head, Attends w.session w.programs.get? i b head) ∨
    Gone w.session w.programs.get? i b

theorem tended_of_attends (hw : w.programs.get? = P) (hs : Staffs w.session P)
    (h : Attends w.session P i b head) : Tended w i b := by
  subst hw
  exact ⟨hs, Or.inl ⟨head, h⟩⟩

theorem tended_of_gone (hw : w.programs.get? = P) (hs : Staffs w.session P)
    (h : Gone w.session P i b) : Tended w i b := by
  subst hw
  exact ⟨hs, Or.inr h⟩

section Step

variable (hs : Staffs w.session w.programs.get?) (h : Attends w.session w.programs.get? i b head)
include hs h

/-- The first process forks a worker. -/
theorem Attends.tended_fork {codes : List Int32} {children : List (Pid × Int32)}
    (hhead : head = .forkWorkers (code :: codes) children) :
    Tended (w.stepProgram i (.forkWorkers (code :: codes) children)) i b := by
  subst hhead
  obtain ⟨known⟩ := h.leads
  have hcode := known code List.mem_cons_self
  have hleads := Program.leads_forking fun c hc => known c (List.mem_cons_of_mem _ hc)
  have hawake := Program.awake_forking codes
  have hchildren := Program.children_forking codes
  obtain ⟨st, hst, hr⟩ := hs.shows h.program
  rcases fork_of_calm hs.calm hst hr (hs.canCall h.program) (.introduce code) with
    ⟨s', hf, hrepels⟩ | ⟨c, s', hf, hbears⟩
  · rw [stepProgram, hf]
    have hs' := hs.repels hrepels
    exact tended_of_attends (get?_setProgram ..) (hs'.update h.program _)
      ((h.repels hrepels).proceed hs' rfl (hleads _) (hchildren _) (hawake _))
  · rw [stepProgram, hf]
    have hprogram := (Function.update_of_ne (h.self_ne_of_bears hbears)
      (some (.introduce code)) w.programs.get?).trans h.program
    exact tended_of_attends (by rw [get?_setProgram, get?_setProgram]; rfl)
      ((hs.bears hbears _).update hprogram _)
      (h.hires hs hbears rfl hcode rfl (hleads _) (hchildren _) (hawake _))

/-- The first process waits for a worker, and sleeps or goes on. -/
theorem Attends.tended_wait {children : List (Pid × Int32)}
    (hhead : head = .reapWorkers ((c, code) :: children) 0) :
    Tended (w.stepProgram i (.reapWorkers ((c, code) :: children) 0)) i b := by
  subst hhead
  obtain ⟨hcode, st, hst, hwaiter, hdue⟩ := h.shows_next rfl rfl
  rcases hs.calm.wait hst hdue.parent hwaiter (hs.canCall h.program) (some 0) with
    ⟨s', hr, hwaits, hparked⟩ | ⟨s', hz, hwaits, hparked⟩
  · obtain ⟨hs', h'⟩ := h.sleeps hs rfl rfl hst hr hwaits hparked rfl rfl rfl
    rw [stepProgram, hwaits.step]
    exact tended_of_attends (get?_setProgram ..) hs' h'
  · obtain ⟨hs', h'⟩ := h.collects hs rfl rfl hst hz hwaits hparked
    have hreaped : st.code = ExitStatus.encode ⟨.exited, code⟩ := by
      rcases hdue.outcome with ⟨hr, -⟩ | ⟨-, hsame⟩
      · rw [hz] at hr
        cases hr
      · exact hsame
    rw [stepProgram, hwaits.step, hreaped]
    dsimp only
    rw [failuresAfter_eq hcode]
    exact tended_of_attends (get?_setProgram ..) hs' h'

/-- The first process exits. -/
theorem Attends.tended_leave (hhead : head = .leave left) :
    Tended (w.stepProgram i (.leave left)) i b := by
  subst hhead
  have hparked := h.nobody rfl
  obtain ⟨st, hst, hr⟩ := hs.shows h.program
  have hcan : w.session.CanExit i := hs.canExit (i := i) h.program fun x hx => by
    rw [hparked] at hx
    cases hx
  obtain ⟨s', hl⟩ := hs.calm.exit hst hr (hs.user h.program) hcan ⟨.exited, left⟩
  rw [stepProgram_leave hl (by rw [hparked, List.filter_nil])]
  exact tended_of_gone (get?_erase ..) (hs.leaves hl) (h.goes hst hl)

/-- A step of the first process. -/
theorem Attends.tended_first (hn : isAsleep head = false) : Tended (w.stepProgram i head) i b := by
  have hprogram := h.program
  have hleads := h.leads
  cases hleads with
  | @forkWorkers codes children known =>
    cases codes with
    | nil =>
      rw [stepProgram]
      exact tended_of_attends (get?_setProgram ..) (hs.update hprogram _)
        (h.proceed hs rfl (Program.leads_reaping children) (Program.children_reaping children 0)
          (Program.awake_reaping children 0))
    | cons code codes => exact h.tended_fork hs rfl
  | @reapWorkers children =>
    cases children with
    | nil =>
      rw [stepProgram]
      exact tended_of_attends (get?_setProgram ..) (hs.update hprogram _)
        (h.proceed hs rfl .leave rfl rfl)
    | cons child children => exact h.tended_wait hs rfl
  | asleep => cases hn
  | leave => exact h.tended_leave hs rfl

/-- The first process goes on when the worker has left that it sleeps for. -/
theorem Attends.get?_rouse {x : ParkedWait} {children : List (Pid × Int32)}
    (hhead : head = .asleep x.id p left children 0) (hcode : left ∈ codes)
    (hdestination : x.destination = some 0) (hne : p ≠ i) (session : Session) :
    ({ w with programs := w.programs.erase p }.resumeWith
      [x.finish (.ok (p, ExitStatus.encode ⟨.exited, left⟩))] session).programs.get? =
      Function.update (Function.update w.programs.get? p none) i
        (some (reaping children 0)) := by
  subst hhead
  funext q
  change (wake _ _).programs.get? q = _
  rw [get?_wake]
  change ((w.programs.erase p).get? q).map _ = _
  rw [get?_erase]
  by_cases hq : q = i
  · subst hq
    rw [Function.update_self, Function.update_of_ne hne.symm, h.program, Option.map_some]
    refine congrArg some ((if_pos rfl).trans (congrArg (reaping children) ?_))
    rw [ParkedWait.finish, hdestination]
    exact failuresAfter_eq hcode ..
  · rw [Function.update_of_ne hq, Function.update_apply]
    split
    · rfl
    · cases hprogram : w.programs.get? q with
      | none => rfl
      | some program => rw [Option.map_some, rouse_of_awake (h.awake hs hprogram hq)]

/-- Another process exits. -/
theorem Attends.tended_exit (hp : w.programs.get? p = some (.leave left)) (hne : p ≠ i) :
    Tended (w.stepProgram p (.leave left)) i b := by
  obtain ⟨st, hst, hr⟩ := hs.shows hp
  obtain ⟨s', hl⟩ := hs.calm.exit hst hr (hs.user hp) (h.canExit hs hp hne) ⟨.exited, left⟩
  by_cases hw : head.awaited? = some p
  · obtain ⟨hcode, x, children, hhead, hdestination, hsleepers, h'⟩ :=
      h.rouses hs hp hne hst hl hw
    have hprogram := (Function.update_of_ne hne.symm none w.programs.get?).trans h.program
    rw [stepProgram_leave hl hsleepers]
    exact tended_of_attends (h.get?_rouse hs hhead hcode hdestination hne s')
      ((hs.leaves hl).update hprogram _) h'
  · obtain ⟨hsleepers, h'⟩ := h.leaves hs hp hne hst hl hw
    rw [stepProgram_leave hl hsleepers]
    exact tended_of_attends (get?_erase ..) (hs.leaves hl) h'

/-- A step of another process. -/
theorem Attends.tended_other (hp : w.programs.get? p = some program) (hne : p ≠ i) :
    Tended (w.stepProgram p program) i b := by
  rcases h.works_or hs hp hne with ⟨code, hm, hworks⟩ | rfl
  · cases hworks with
    | introduce =>
      rw [stepProgram]
      refine tended_of_attends (get?_setProgram ..) (hs.update hp _)
        (h.update hp hne (fun code' hw => ?_) fun hsame => by cases hsame)
      cases hw
      split
      · exact .forkOrphan
      · exact .leave
    | forkOrphan =>
      have hgoes : ∀ code', (Program.forkOrphan code).Works code' →
          (Program.leave code).Works code' := by
        rintro _ ⟨⟩
        exact .leave
      obtain ⟨st, hst, hr⟩ := hs.shows hp
      rw [stepProgram]
      rcases fork_of_calm hs.calm hst hr (hs.canCall hp) (.leave 0) with
        ⟨s', hf, hrepels⟩ | ⟨c, s', hf, hbears⟩
      · rw [hf]
        exact tended_of_attends (get?_setProgram ..) ((hs.repels hrepels).update hp _)
          ((h.repels hrepels).update hp hne hgoes fun hsame => by cases hsame)
      · rw [hf]
        have hprogram := (Function.update_of_ne (h.ne_of_bears hbears hm)
          (some (.leave 0)) w.programs.get?).trans hp
        exact tended_of_attends ((get?_setProgram ..).trans (by rw [get?_setProgram]))
          ((hs.bears hbears _).update hprogram _)
          ((h.bears hbears).update hprogram hne hgoes fun hsame => by cases hsame)
    | leave => exact h.tended_exit hs hp hne
  · exact h.tended_exit hs hp hne

end Step

/-- A step after the exit of the first process. -/
theorem Gone.tended (hs : Staffs w.session w.programs.get?)
    (h : Gone w.session w.programs.get? i b) (hp : w.programs.get? p = some program) :
    Tended (w.stepProgram p program) i b := by
  obtain rfl := h.others p program hp
  obtain ⟨st, hst, hr⟩ := hs.shows hp
  have hcan : w.session.CanExit p := hs.canExit (i := i) hp fun x hx => by
    rw [h.parked] at hx
    cases hx
  obtain ⟨s', hl⟩ := hs.calm.exit hst hr (hs.user hp) hcan ⟨.exited, 0⟩
  obtain ⟨hsleepers, h'⟩ := h.leaves hl
  rw [stepProgram_leave hl hsleepers]
  exact tended_of_gone (get?_erase ..) (hs.leaves hl) h'

theorem Tended.step (h : Tended w i b) (p : Pid) : Tended (w.step p) i b := by
  unfold Workload.step
  split
  · next program hp =>
    split
    · exact h
    · next hn =>
      rcases h.first with ⟨head, hfirst⟩ | hgone
      · by_cases hpi : p = i
        · subst hpi
          obtain rfl := Option.some.inj (hp.symm.trans hfirst.program)
          exact hfirst.tended_first h.staffs (Bool.eq_false_iff.2 hn)
        · exact hfirst.tended_other h.staffs hp hpi
      · exact hgone.tended h.staffs hp
  · exact h

theorem Tended.run (h : Tended w i b) (schedule : List Pid) : Tended (w.run schedule) i b := by
  induction schedule generalizing w with
  | nil => exact h
  | cons p schedule ih => exact ih (h.step p)

/-! ### The end -/

/-- As long as the first process sleeps, the worker that it sleeps for can run. -/
theorem Attends.canStep (h : Attends w.session w.programs.get? i b head) : ∃ p, w.CanStep p := by
  cases hn : isAsleep head with
  | false => exact ⟨i, head, h.program, hn⟩
  | true =>
    cases h.rests with
    | awake hawake => cases hn.symm.trans hawake
    | @asleep x st c code children failures _ _ _ hst _ hr =>
      obtain ⟨-, st', hdue, -⟩ := h.due c code List.mem_cons_self
      obtain rfl := Option.some.inj (hst.symm.trans hdue.station)
      rcases hdue.outcome with ⟨-, program, hp, hworks⟩ | ⟨hz, -⟩
      · exact ⟨c, program, hp, hworks.awake⟩
      · rw [hr] at hz
        cases hz

/-- Some process is unfinished, and none can take a step. -/
def Stuck (w : Workload) : Prop := w.programs.entries ≠ [] ∧ ∀ p, ¬ w.CanStep p

theorem Tended.not_stuck (h : Tended w i b) : ¬ w.Stuck := by
  rintro ⟨hne, hn⟩
  rcases h.first with ⟨head, hfirst⟩ | hgone
  · obtain ⟨p, hp⟩ := hfirst.canStep
    exact hn p hp
  · obtain ⟨e, he⟩ := List.exists_mem_of_ne_nil _ hne
    have hp := w.programs.get?_eq_some_iff.2 he
    refine hn e.1 ⟨e.2, hp, ?_⟩
    rw [hgone.others e.1 e.2 hp]
    rfl

/-- Nobody but the kernel runs when all have left. -/
theorem Staffs.cleared (hs : Staffs w.session w.programs.get?) (hw : w.programs.entries = []) :
    w.session.Cleared := by
  refine hs.calm.cleared fun p st hst hp hr => ?_
  have hprogram := (hs.runs p).2 ⟨hp, st, Kernel.station?_eq_some_iff.2 hst, hr⟩
  rw [Assoc.get?, hw] at hprogram
  cases hprogram

/-- How a workload stands at any time, with a table of that capacity and the first process at `i`
with the block `b`. -/
structure Sound (w : Workload) (capacity : Nat) (i : Pid) (b : BlockId) : Prop where
  notStuck : ¬ w.Stuck
  /-- The first process has counted no failures. -/
  failures : ∀ program, w.programs.get? i = some program → program.failures = 0
  /-- It has exited with none if it is not there any more. -/
  exited : w.programs.get? i = none → (w.session.kernel.block b).reaped = true ∧
    (w.session.kernel.block b).code = ExitStatus.encode ⟨.exited, 0⟩
  /-- When all have left, the kernel is alone. -/
  stats : w.programs.entries = [] → w.session.kernel.stats = ⟨capacity, 1, capacity - 1, 0⟩
  leaked : w.programs.entries = [] → w.session.kernel.shutdown.1 = []

theorem Tended.sound (h : Tended w i b) : w.Sound w.session.kernel.pids.capacity i b where
  notStuck := h.not_stuck
  failures program hp := by
    rcases h.first with ⟨head, hfirst⟩ | hgone
    · obtain rfl := Option.some.inj (hp.symm.trans hfirst.program)
      exact hfirst.leads.failures_eq
    · cases hp.symm.trans hgone.absent
  exited hp := by
    rcases h.first with ⟨head, hfirst⟩ | hgone
    · cases hp.symm.trans hfirst.program
    · exact ⟨hgone.reaped, hgone.code⟩
  stats hw := (h.staffs.cleared hw).stats
  leaked hw := (h.staffs.cleared hw).leaked

/-- All have left when the workload has run for long enough. -/
theorem Tended.entries_runAll (h : Tended w i b) {n : Nat} (hn : w.work ≤ n) :
    (runAll n w).programs.entries = [] := by
  -- running on is one of the orders, and it has come to where nobody can run
  obtain ⟨schedule, hrun⟩ := runAll_eq_run n w
  by_contra hne
  refine (h.run schedule).not_stuck ?_
  rw [← hrun]
  exact ⟨hne, next?_eq_none_iff.1 (next?_runAll hn)⟩

/-! ### The size of the table -/

theorem capacity_fork (w : Workload) (p : Pid) (via : Via) (child : Program) :
    (w.fork p via child).2.session.kernel.pids.capacity = w.session.kernel.pids.capacity := by
  have hfork := w.session.capacity_forkNow p via
  unfold fork
  split
  · next hf =>
    rw [hf] at hfork
    exact (congrArg (·.kernel.pids.capacity) (session_resumeWith ..)).trans hfork
  · next hf =>
    rw [hf] at hfork
    exact (congrArg (·.kernel.pids.capacity) (session_resumeWith ..)).trans hfork

theorem capacity_stepProgram (w : Workload) (p : Pid) (program : Program) :
    (w.stepProgram p program).session.kernel.pids.capacity =
      w.session.kernel.pids.capacity := by
  have hcalled : ∀ (move : Move) (w' : Workload),
      (w'.resumeWith (w.session.step move).2.1
        (w.session.step move).2.2).session.kernel.pids.capacity =
        w.session.kernel.pids.capacity := fun move w' =>
    (congrArg (·.kernel.pids.capacity) (session_resumeWith ..)).trans (w.session.capacity_step move)
  unfold stepProgram
  split
  · rfl
  · next code codes children =>
    have hfork := w.capacity_fork p .syscall (.introduce code)
    split <;> next hf => rwa [hf] at hfork
  · rfl
  · next child code children failures =>
    have hwait := hcalled (.wait p (signedPid child) 0 .syscall (some 0)) w
    split <;> next hstep => rwa [hstep] at hwait
  · rfl
  · rfl
  · exact w.capacity_fork ..
  · next code =>
    have hexit := hcalled (.exit p ⟨.exited, code⟩) { w with programs := w.programs.erase p }
    split
    next hstep => rwa [hstep] at hexit

theorem capacity_run (w : Workload) (schedule : List Pid) :
    (w.run schedule).session.kernel.pids.capacity = w.session.kernel.pids.capacity := by
  have hstep : ∀ (w : Workload) p, (w.step p).session.kernel.pids.capacity =
      w.session.kernel.pids.capacity := fun w p => by
    unfold step
    split
    · split
      · rfl
      · exact capacity_stepProgram ..
    · rfl
  induction schedule generalizing w with
  | nil => rfl
  | cons p schedule ih => exact (ih (w.step p)).trans (hstep w p)

/-! ### The beginning -/

/-- Nobody but the kernel is in a table that has just been made. -/
theorem shows_boot {config : Config} (hb : Session.boot config none = .ok s)
    (hst : s.kernel.Shows p st) : p = kernelPid := by
  obtain ⟨k, hk, rfl⟩ := Session.boot_eq hb
  have hfound := hst.found
  rw [(Kernel.alone_boot hk).found] at hfound
  by_contra hne
  rw [if_neg hne] at hfound
  cases hfound

/-- The kernel forks the first process. -/
theorem start_of_boot {config : Config} (hb : Session.boot config none = .ok s)
    (hcapacity : 2 ≤ s.kernel.pids.capacity) : ∃ w i b, start s = some w ∧
      w.programs.entries = [(i, .forkWorkers codes [])] ∧
      w.session.kernel.pids.capacity = s.kernel.pids.capacity ∧ Tended w i b := by
  have hs := Session.calm_boot hb
  have hstaffs : Staffs s fun _ => none := {
    calm := hs
    runs := fun p => iff_of_false Bool.false_ne_true fun ⟨hne, st, hst, _⟩ =>
      hne (shows_boot hb (Kernel.station?_eq_some_iff.1 hst))
    context := fun p hp => by cases hp }
  have hfree := congrArg TableStats.free
    (hs.cleared fun p st hst hne => absurd (shows_boot hb hst) hne).stats
  obtain ⟨st, hst, hr, -⟩ := hs.shows_kernel
  have hv : s.canCall .context kernelPid = true := rfl
  -- a valid table has room for one process besides the kernel
  rcases fork_of_calm (w := { session := s }) hs hst hr hv (forking codes []) with
    ⟨s', -, hrepels⟩ | ⟨i, s', hf, hbears⟩
  · have hfull := hrepels.full
    change s.kernel.pids.free = _ at hfree
    change s.kernel.pids.free = 0 at hfull
    dsimp only at hfree
    omega
  · have hcapacity := capacity_fork { session := s } kernelPid .context (forking codes [])
    rw [hf] at hcapacity
    refine ⟨{ session := s' : Workload }.setProgram i (forking codes []), i,
      s.kernel.blocks.size, ?_, rfl, hcapacity, ?_⟩
    · unfold start
      rw [hf]
      rfl
    · have hparked : s.parked = [] := by
        obtain ⟨k, -, rfl⟩ := Session.boot_eq hb
        rfl
      refine tended_of_attends (get?_setProgram ..) (hstaffs.bears hbears _) {
        program := Function.update_self ..
        leads := .forkWorkers fun code hcode => hcode
        station := ⟨_, (hbears.turns.stations i).trans (if_pos rfl), rfl, rfl, rfl⟩
        nodup := List.nodup_nil
        due := fun c code hm => by cases hm
        others := fun q program hq hqi _ => by
          rw [Function.update_of_ne hqi] at hq
          cases hq
        rests := .awake rfl (hbears.parked.trans hparked) }

/-- A valid configuration comes up, and the kernel forks the first process. -/
theorem start_of_validate {config : Config} (hv : config.validate = .ok ()) : ∃ s w i b,
    Session.boot config none = .ok s ∧ start s = some w ∧
      w.programs.entries = [(i, .forkWorkers codes [])] ∧
      w.session.kernel.pids.capacity = config.maxProcesses.toNat ∧ Tended w i b := by
  obtain ⟨k, hk, hcapacity, hrange⟩ := Kernel.boot_of_validate hv
  have hb : Session.boot config none = .ok { kernel := k } := by
    rw [Session.boot, hk]
    rfl
  obtain ⟨w, i, b, hstart, hentries, hsame, h⟩ := start_of_boot hb (hcapacity ▸ hrange)
  exact ⟨_, w, i, b, hb, hstart, hentries, hsame.trans hcapacity, h⟩

theorem work_of_start (hentries : w.programs.entries = [(i, .forkWorkers codes [])]) :
    w.work ≤ enough := by
  have hfirst : (Program.forkWorkers codes []).work ≤ enough := by decide
  rw [work, Assoc.sum, hentries, List.map_singleton, List.sum_singleton]
  exact hfirst

/-! ### Every run -/

/-- The environment gives valid configurations only. -/
theorem validate_of_environment {size name : Variable} {config : Config}
    (h : Config.ofEnvironment size name = .ok config) : config.validate = .ok () := by
  unfold Config.ofEnvironment at h
  split at h
  · cases h
  · dsimp only at h
    split at h
    · cases h
    · next hv =>
      cases h
      exact hv

/-- The command succeeds if it can read its configuration, and reports the kernel alone. -/
theorem command_eq (size name : Variable) : command size name =
    match Config.ofEnvironment size name with
    | .error error => failed "reading process table config" error.message
    | .ok config =>
      ⟨0, statsText ⟨config.maxProcesses.toNat, 1, config.maxProcesses.toNat - 1, 0⟩, ""⟩ := by
  unfold command
  cases henvironment : Config.ofEnvironment size name with
  | error error => rfl
  | ok config =>
    obtain ⟨s, w, i, b, hb, hstart, hentries, hcapacity, h⟩ :=
      start_of_validate (validate_of_environment henvironment)
    obtain ⟨schedule, hrun⟩ := runAll_eq_run enough w
    have hfinished := h.entries_runAll (work_of_start hentries)
    rw [hrun] at hfinished
    have hsound := (h.run schedule).sound
    rw [capacity_run, hcapacity] at hsound
    simp only [hb, hstart, hrun, conclude, hsound.leaked hfinished, hsound.stats hfinished]

/-- The workload on a table made by this configuration ends well in whatever order its processes
run, and no order keeps them going for ever. -/
def EndsWell (config : Config) : Prop :=
  ∃ s w i b, Session.boot config none = .ok s ∧ start s = some w ∧
    w.programs.entries = [(i, .forkWorkers codes [])] ∧
    w.session.kernel.pids.lookup i = some b ∧
    ∀ schedule, (w.run schedule).Sound config.maxProcesses.toNat i b ∧
      (w.CanRun schedule → schedule.length ≤ enough) ∧
      (runAll enough (w.run schedule)).programs.entries = []

theorem endsWell_of_validate {config : Config} (hv : config.validate = .ok ()) :
    EndsWell config := by
  obtain ⟨s, w, i, b, hb, hstart, hentries, hcapacity, h⟩ := start_of_validate hv
  have hfound : w.session.kernel.pids.lookup i = some b := by
    rcases h.first with ⟨head, hfirst⟩ | hgone
    · obtain ⟨st, hst, rfl, -⟩ := hfirst.station
      exact (Kernel.station?_eq_some_iff.1 hst).found
    · have hp := hgone.absent
      rw [Assoc.get?, hentries, List.lookup_cons_self] at hp
      cases hp
  have hwork := work_of_start hentries
  refine ⟨s, w, i, b, hb, hstart, hentries, hfound, fun schedule => ⟨?_,
    fun hcan => Nat.le_trans (length_le_work hcan) hwork,
    (h.run schedule).entries_runAll (Nat.le_trans (work_run_le ..) hwork)⟩⟩
  have hsound := (h.run schedule).sound
  rwa [capacity_run, hcapacity] at hsound

theorem endsWell_three : ({ maxProcesses := 3 } : Config).validate = .ok () ∧
    EndsWell { maxProcesses := 3 } :=
  ⟨by decide, endsWell_of_validate (by decide)⟩

end Workload

end Lifecycle
