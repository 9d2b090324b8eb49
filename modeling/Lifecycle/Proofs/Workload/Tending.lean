import Lifecycle.Proofs.Session.Calm
import Lifecycle.Proofs.Workload.Programs

/-! How the processes of a workload stand to each other, whatever the order of their calls. The
first process knows which workers it has still to reap; each of them runs its program, or has
exited with its code; and whoever else runs is an orphan that has only to leave. -/

namespace Lifecycle

namespace Program

/-- The workers that a first process has still to reap. -/
def children : Program → List (Pid × Int32)
  | .forkWorkers _ children => children
  | .reapWorkers children _ => children
  | .asleep _ child code children _ => (child, code) :: children
  | _ => []

/-- The failures that a first process has counted, with which it exits. -/
def failures : Program → Int32
  | .reapWorkers _ failures => failures
  | .asleep _ _ _ _ failures => failures
  | .leave failures => failures
  | _ => 0

/-- The worker that it sleeps for. -/
def awaited? : Program → Option Pid
  | .asleep _ child _ _ _ => some child
  | _ => none

/-- What the first process may have to do when nothing has failed. -/
inductive Leads : Program → Prop
  | forkWorkers {codes : List Int32} {children : List (Pid × Int32)}
      (known : ∀ code ∈ codes, code ∈ Workload.codes) : Leads (.forkWorkers codes children)
  | reapWorkers {children : List (Pid × Int32)} : Leads (.reapWorkers children 0)
  | asleep {id : Nat} {child : Pid} {code : Int32} {children : List (Pid × Int32)} :
      Leads (.asleep id child code children 0)
  | leave : Leads (.leave 0)

/-- What a worker with this code may have to do. -/
inductive Works (code : Int32) : Program → Prop
  | introduce : Works code (.introduce code)
  | forkOrphan : Works code (.forkOrphan code)
  | leave : Works code (.leave code)

variable {program : Program}

theorem Leads.failures_eq (h : program.Leads) : program.failures = 0 := by
  cases h <;> rfl

theorem Works.awake {code : Int32} (h : program.Works code) :
    Workload.isAsleep program = false := by
  cases h <;> rfl

theorem awaited?_of_awake (h : Workload.isAsleep program = false) : program.awaited? = none := by
  cases program with
  | asleep id child code children failures => cases h
  | _ => rfl

theorem children_reaping (children : List (Pid × Int32)) (failures : Int32) :
    (Workload.reaping children failures).children = children := by
  cases children <;> rfl

theorem children_forking (codes : List Int32) (children : List (Pid × Int32)) :
    (Workload.forking codes children).children = children := by
  cases codes with
  | nil => exact children_reaping children 0
  | cons code codes => rfl

theorem leads_reaping (children : List (Pid × Int32)) : (Workload.reaping children 0).Leads := by
  cases children with
  | nil => exact .leave
  | cons child children => exact .reapWorkers

theorem leads_forking {codes : List Int32} (h : ∀ code ∈ codes, code ∈ Workload.codes)
    (children : List (Pid × Int32)) : (Workload.forking codes children).Leads := by
  cases codes with
  | nil => exact leads_reaping children
  | cons code codes => exact .forkWorkers h

theorem awake_reaping (children : List (Pid × Int32)) (failures : Int32) :
    Workload.isAsleep (Workload.reaping children failures) = false := by
  cases children <;> rfl

theorem awake_forking (codes : List Int32) (children : List (Pid × Int32)) :
    Workload.isAsleep (Workload.forking codes children) = false := by
  cases codes with
  | nil => exact awake_reaping children 0
  | cons code codes => rfl

end Program

namespace Workload

open Program (children_reaping)

/-- Who has a program: the processes that run, but for the kernel. Each has a context. -/
structure Staffs (s : Session) (P : Pid → Option Program) : Prop where
  calm : s.Calm
  runs : ∀ p, (P p).isSome = true ↔
    p ≠ kernelPid ∧ ∃ st, s.kernel.station? p = some st ∧ st.state = .running
  context : ∀ p, (P p).isSome = true → ∃ n, s.contexts.get? p = some n

/-- How a worker stands that its parent `i` has not reaped. -/
structure Due (s : Session) (P : Pid → Option Program) (i c : Pid) (code : Int32) (st : Station) :
    Prop where
  station : s.kernel.station? c = some st
  parent : st.parent = some i
  outcome : st.state = .running ∧ (∃ program, P c = some program ∧ program.Works code) ∨
    st.state = .zombie ∧ st.code = ExitStatus.encode ⟨.exited, code⟩

/-- Nobody sleeps but the first process, in a wait for a worker that runs. -/
inductive Rests (s : Session) (i : Pid) : Program → Prop
  | awake {program : Program} (awake : isAsleep program = false) (parked : s.parked = []) :
      Rests s i program
  | asleep {x : ParkedWait} {st : Station} {c : Pid} {code : Int32}
      {children : List (Pid × Int32)} {failures : Int32} (parked : s.parked = [x])
      (context : x.context = s.contexts.get? i) (destination : x.destination = some 0)
      (station : s.kernel.station? c = some st) (block : st.block = x.block)
      (running : st.state = .running) : Rests s i (.asleep x.id c code children failures)

/-- The first process is there, at `i` and with the block `b`. -/
structure Attends (s : Session) (P : Pid → Option Program) (i : Pid) (b : BlockId)
    (head : Program) : Prop where
  program : P i = some head
  leads : head.Leads
  station : ∃ st, s.kernel.station? i = some st ∧ st.block = b ∧ st.parent = some kernelPid ∧
    st.waiter = false
  nodup : (head.children.map Prod.fst).Nodup
  due : ∀ c code, (c, code) ∈ head.children → code ∈ codes ∧
    ∃ st, Due s P i c code st ∧ (st.waiter = true ↔ head.awaited? = some c)
  others : ∀ p program, P p = some program → p ≠ i → p ∉ head.children.map Prod.fst →
    program = .leave 0
  rests : Rests s i head

/-- The first process has exited with no failures, and nobody is left but orphans. -/
structure Gone (s : Session) (P : Pid → Option Program) (i : Pid) (b : BlockId) : Prop where
  absent : P i = none
  parked : s.parked = []
  others : ∀ p program, P p = some program → program = .leave 0
  reaped : (s.kernel.block b).reaped = true
  code : (s.kernel.block b).code = ExitStatus.encode ⟨.exited, 0⟩

variable {s s' : Session} {P P' : Pid → Option Program} {i p c x : Pid} {b : BlockId}
  {head head' program next : Program} {code code' : Int32} {st : Station}

/-! ### Who has a program -/

theorem Staffs.user (h : Staffs s P) (hp : P p = some program) : p ≠ kernelPid :=
  ((h.runs p).1 (Option.isSome_of_eq_some hp)).1

theorem Staffs.shows (h : Staffs s P) (hp : P p = some program) :
    ∃ st, s.kernel.Shows p st ∧ st.state = .running := by
  obtain ⟨-, st, hst, hr⟩ := (h.runs p).1 (Option.isSome_of_eq_some hp)
  exact ⟨st, Kernel.station?_eq_some_iff.1 hst, hr⟩

theorem Staffs.canCall (h : Staffs s P) (hp : P p = some program) :
    s.canCall .syscall p = true := by
  obtain ⟨n, hn⟩ := h.context p (Option.isSome_of_eq_some hp)
  exact Option.isSome_of_eq_some hn

/-- Programs change, and are there as before. -/
theorem Staffs.programs (h : Staffs s P) (hP : ∀ x, (P' x).isSome = (P x).isSome) :
    Staffs s P' where
  calm := h.calm
  runs x := by
    rw [hP]
    exact h.runs x
  context x := by
    rw [hP]
    exact h.context x

theorem Staffs.update (h : Staffs s P) (hp : P p = some program) (next : Program) :
    Staffs s (Function.update P p (some next)) := by
  refine h.programs fun x => ?_
  rw [Function.update_apply]
  split
  · next hx => rw [hx, hp]; rfl
  · rfl

/-- The same processes run. -/
theorem Staffs.of_stations (h : Staffs s P) (hs : s'.Calm)
    (hr : ∀ x, (∃ st, s'.kernel.station? x = some st ∧ st.state = .running) ↔
      ∃ st, s.kernel.station? x = some st ∧ st.state = .running)
    (hcontexts : s'.contexts = s.contexts) : Staffs s' P where
  calm := hs
  runs x := by
    rw [hr]
    exact h.runs x
  context x := by
    rw [hcontexts]
    exact h.context x

theorem Staffs.repels (h : Staffs s P) (hf : s.Repels s') : Staffs s' P :=
  h.of_stations hf.turns.calm (fun x => by rw [hf.turns.stations]) hf.contexts

/-- A child that has been forked runs its program. -/
theorem Staffs.bears (h : Staffs s P) (hf : s.Bears p c s') (child : Program) :
    Staffs s' (Function.update P c (some child)) where
  calm := hf.turns.calm
  runs x := by
    rw [Function.update_apply, hf.turns.stations]
    by_cases hx : x = c
    · subst hx
      have hne : x ≠ kernelPid := by
        rintro rfl
        obtain ⟨st, hst, -⟩ := h.calm.shows_kernel
        cases hf.fresh.symm.trans (Kernel.station?_eq_some_iff.2 hst)
      simp [hne, Station.fresh]
    · rw [if_neg hx, if_neg hx]
      exact h.runs x
  context x hx := by
    rw [Function.update_apply] at hx
    rw [hf.contexts, Assoc.get?_insert]
    by_cases hc : x = c
    · exact ⟨_, if_pos hc⟩
    · rw [if_neg hc] at hx ⊢
      exact h.context x hx

/-- Nobody runs or stops running by the exit of another. -/
theorem running_bereft (r : Option Station) (p : Pid) :
    (∃ st, r.bind (·.bereft p) = some st ∧ st.state = .running) ↔
      ∃ st, r = some st ∧ st.state = .running := by
  cases r with
  | none => simp
  | some st =>
    rw [Option.bind_some]
    unfold Station.bereft Station.handedOn
    by_cases hp : st.parent = some p <;> by_cases hr : st.state = .running <;> simp [hp, hr]

theorem Staffs.leaves {status : ExitStatus} (h : Staffs s P) (hl : s.Leaves p status st s') :
    Staffs s' (Function.update P p none) where
  calm := hl.turns.calm
  runs x := by
    rw [Function.update_apply, hl.turns.stations]
    by_cases hx : x = p
    · have hstopped : ∀ st', st.departed status.encode = some st' → st'.state ≠ .running := by
        intro st' hst'
        unfold Station.departed at hst'
        split at hst' <;> cases hst'
        exact fun hr => by cases hr
      simpa [hx] using fun _ => hstopped
    · rw [if_neg hx, if_neg hx, running_bereft]
      exact h.runs x
  context x hx := by
    rw [Function.update_apply] at hx
    rw [hl.contexts, Assoc.get?_erase]
    by_cases hp : x = p
    · rw [if_pos hp] at hx
      cases hx
    · rw [if_neg hp] at hx ⊢
      exact h.context x hx

/-- A process can exit if nobody sleeps, or the first process does and it is another. -/
theorem Staffs.canExit (h : Staffs s P) (hp : P p = some program)
    (hn : ∀ x ∈ s.parked, p ≠ i ∧ x.context = s.contexts.get? i) : s.CanExit p := by
  obtain ⟨n, hcontext⟩ := h.context p (Option.isSome_of_eq_some hp)
  refine ⟨n, hcontext, ?_⟩
  unfold Session.isBusy
  rw [h.calm.frames, List.any_nil, Bool.or_false, List.any_eq_false]
  intro x hx
  obtain ⟨hne, hi⟩ := hn x hx
  rw [beq_iff_eq]
  exact fun hkept => hne (h.calm.numbered.distinct hcontext (hi ▸ Via.of_through hkept))

/-! ### The first process -/

section Attends

variable (h : Attends s P i b head) (hs : Staffs s P)
include h hs

theorem Attends.user : i ≠ kernelPid := hs.user h.program

/-- The first process is not one of its workers. -/
theorem Attends.ne_of_mem (hm : (c, code) ∈ head.children) : c ≠ i := by
  rintro rfl
  obtain ⟨-, st, hdue, -⟩ := h.due c code hm
  obtain ⟨st', hst', -, hparent, -⟩ := h.station
  obtain rfl := Option.some.inj (hdue.station.symm.trans hst')
  exact h.user hs (Option.some.inj (hdue.parent.symm.trans hparent))

/-- A worker that runs has a program of its kind. -/
theorem Attends.works (hm : (p, code) ∈ head.children) (hp : P p = some program) :
    program.Works code := by
  obtain ⟨-, st, hdue, -⟩ := h.due p code hm
  rcases hdue.outcome with ⟨-, program', hp', hworks⟩ | ⟨hz, -⟩
  · obtain rfl := Option.some.inj (hp.symm.trans hp')
    exact hworks
  · obtain ⟨st', hst', hr⟩ := hs.shows hp
    obtain rfl := Option.some.inj
      (hdue.station.symm.trans (Kernel.station?_eq_some_iff.2 hst'))
    rw [hz] at hr
    cases hr

omit hs in
/-- Nobody sleeps while the first process does not. -/
theorem Attends.nobody (hn : isAsleep head = false) : s.parked = [] := by
  cases h.rests with
  | awake _ hparked => exact hparked
  | asleep => cases hn

omit hs in
/-- What does not concern a worker. -/
theorem Attends.kept (hm : (c, code) ∈ head.children)
    (hst : s'.kernel.station? c = s.kernel.station? c) (hP : P' c = P c)
    (hn : head'.awaited? = some c ↔ head.awaited? = some c) : code ∈ codes ∧
      ∃ st, Due s' P' i c code st ∧ (st.waiter = true ↔ head'.awaited? = some c) := by
  obtain ⟨hcode, st, hdue, hwaiter⟩ := h.due c code hm
  exact ⟨hcode, st, ⟨hst.trans hdue.station, hdue.parent, hP ▸ hdue.outcome⟩,
    hwaiter.trans hn.symm⟩

omit hs in
/-- Somebody else goes on in his program. -/
theorem Attends.update (hp : P p = some program) (hne : p ≠ i)
    (hworks : ∀ code, program.Works code → next.Works code)
    (horphan : program = .leave 0 → next = .leave 0) :
    Attends s (Function.update P p (some next)) i b head where
  program := by rw [Function.update_of_ne hne.symm, h.program]
  leads := h.leads
  station := h.station
  nodup := h.nodup
  due c code hm := by
    obtain ⟨hcode, st, hdue, hwaiter⟩ := h.due c code hm
    refine ⟨hcode, st, ⟨hdue.station, hdue.parent, hdue.outcome.imp_left ?_⟩, hwaiter⟩
    rintro ⟨hr, program', hc, hw⟩
    refine ⟨hr, ?_⟩
    by_cases hcp : c = p
    · subst hcp
      obtain rfl := Option.some.inj (hp.symm.trans hc)
      exact ⟨next, Function.update_self .., hworks code hw⟩
    · exact ⟨program', (Function.update_of_ne hcp ..).trans hc, hw⟩
  others x q hx hxi hm := by
    rw [Function.update_apply] at hx
    split at hx
    · next hxp =>
      subst hxp
      obtain rfl := Option.some.inj hx
      exact horphan (h.others x program hp hxi hm)
    · exact h.others x q hx hxi hm
  rests := h.rests

/-- The first process goes on, with the same workers to reap. -/
theorem Attends.proceed (hn : isAsleep head = false) (hleads : next.Leads)
    (hchildren : next.children = head.children) (hawake : isAsleep next = false) :
    Attends s (Function.update P i (some next)) i b next where
  program := Function.update_self ..
  leads := hleads
  station := h.station
  nodup := hchildren ▸ h.nodup
  due c code hm := by
    rw [hchildren] at hm
    refine h.kept hm rfl (Function.update_of_ne (h.ne_of_mem hs hm) ..) ?_
    rw [Program.awaited?_of_awake hn, Program.awaited?_of_awake hawake]
  others x q hx hxi hm := by
    rw [Function.update_of_ne hxi] at hx
    exact h.others x q hx hxi (hchildren ▸ hm)
  rests := .awake hawake (h.nobody hn)

omit hs in
/-- A fork that finds no pid changes nothing. -/
theorem Attends.repels (hf : s.Repels s') : Attends s' P i b head where
  program := h.program
  leads := h.leads
  station := by
    rw [hf.turns.stations]
    exact h.station
  nodup := h.nodup
  due c code hm := h.kept hm (hf.turns.stations c) rfl Iff.rfl
  others := h.others
  rests := by
    cases h.rests with
    | awake hn hparked => exact .awake hn (hf.parked.trans hparked)
    | asleep hparked hcontext hdestination hst hblock hr =>
      exact .asleep (hf.parked.trans hparked) (hf.contexts ▸ hcontext) hdestination
        ((hf.turns.stations _).trans hst) hblock hr

section Bears

variable (hf : s.Bears p c s')
include hf

omit hs in
theorem Attends.ne_of_bears (hm : (x, code) ∈ head.children) : x ≠ c := by
  rintro rfl
  obtain ⟨-, st, hdue, -⟩ := h.due x code hm
  cases hf.fresh.symm.trans hdue.station

omit hs in
theorem Attends.self_ne_of_bears : i ≠ c := by
  rintro rfl
  obtain ⟨st, hst, -⟩ := h.station
  cases hf.fresh.symm.trans hst

omit hs in
/-- An orphan to be is forked. -/
theorem Attends.bears :
    Attends s' (Function.update P c (some (.leave 0))) i b head where
  program := by rw [Function.update_of_ne (h.self_ne_of_bears hf), h.program]
  leads := h.leads
  station := by
    rw [hf.turns.stations, if_neg (h.self_ne_of_bears hf)]
    exact h.station
  nodup := h.nodup
  due x code hm := by
    have hx := h.ne_of_bears hf hm
    exact h.kept hm ((hf.turns.stations x).trans (if_neg hx)) (Function.update_of_ne hx ..) Iff.rfl
  others x q hx hxi hm := by
    rw [Function.update_apply] at hx
    split at hx
    · exact (Option.some.inj hx).symm
    · exact h.others x q hx hxi hm
  rests := by
    cases h.rests with
    | awake hn hparked => exact .awake hn (hf.parked.trans hparked)
    | @asleep x st c' code children failures hparked hcontext hdestination hst hblock hr =>
      have hne : c' ≠ c := by
        rintro rfl
        cases hf.fresh.symm.trans hst
      refine .asleep (hf.parked.trans hparked) (hcontext.trans ?_) hdestination
        (((hf.turns.stations c').trans (if_neg hne)).trans hst) hblock hr
      rw [hf.contexts, Assoc.get?_insert, if_neg (h.self_ne_of_bears hf)]

/-- The first process has one more worker. -/
theorem Attends.hires (hn : isAsleep head = false) (hcode : code ∈ codes) (hi : p = i)
    (hleads : next.Leads) (hchildren : next.children = head.children ++ [(c, code)])
    (hawake : isAsleep next = false) :
    Attends s' (Function.update (Function.update P c (some (.introduce code))) i (some next)) i b
      next where
  program := Function.update_self ..
  leads := hleads
  station := by
    rw [hf.turns.stations, if_neg (h.self_ne_of_bears hf)]
    exact h.station
  nodup := by
    rw [hchildren, List.map_append, List.nodup_append]
    refine ⟨h.nodup, List.nodup_singleton _, fun x hx y hy => ?_⟩
    obtain ⟨⟨x, code'⟩, hm, rfl⟩ := List.mem_map.1 hx
    obtain rfl := List.mem_singleton.1 hy
    exact h.ne_of_bears hf hm
  due x code' hm := by
    rw [hchildren, List.mem_append, List.mem_singleton] at hm
    have hnone : next.awaited? = none := Program.awaited?_of_awake hawake
    rcases hm with hm | hm
    · have hx := h.ne_of_bears hf hm
      refine h.kept hm ((hf.turns.stations x).trans (if_neg hx)) ?_ ?_
      · rw [Function.update_of_ne (h.ne_of_mem hs hm), Function.update_of_ne hx]
      · rw [Program.awaited?_of_awake hn, hnone]
    · cases hm
      refine ⟨hcode, .fresh s.kernel.blocks.size i, ⟨?_, rfl, Or.inl ⟨rfl, _, ?_, .introduce⟩⟩, ?_⟩
      · rw [hf.turns.stations, if_pos rfl, hi]
      · rw [Function.update_of_ne (h.self_ne_of_bears hf).symm, Function.update_self]
      · rw [hnone]
        exact iff_of_false Bool.false_ne_true (Option.some_ne_none c).symm
  others x q hx hxi hm := by
    rw [Function.update_of_ne hxi] at hx
    rw [hchildren, List.map_append, List.mem_append, not_or] at hm
    rw [Function.update_apply] at hx
    split at hx
    · next hxc => exact absurd (List.mem_singleton.2 hxc) hm.2
    · exact h.others x q hx hxi hm.1
  rests := .awake hawake (hf.parked.trans (h.nobody hn))

end Bears

section Waits

variable {children : List (Pid × Int32)} {via : Via} {destination : Option RawStatus}
  {reply : Reply} (hchildren : head.children = (c, code) :: children)
include hchildren

omit hs in
/-- The next worker can be waited for. -/
theorem Attends.shows_next (hn : isAsleep head = false) : code ∈ codes ∧
    ∃ st, s.kernel.Shows c st ∧ st.waiter = false ∧ Due s P i c code st := by
  obtain ⟨hcode, st, hdue, hwaiter⟩ := h.due c code (hchildren ▸ List.mem_cons_self)
  rw [Program.awaited?_of_awake hn] at hwaiter
  exact ⟨hcode, st, Kernel.station?_eq_some_iff.1 hdue.station,
    Bool.eq_false_iff.2 fun hw => (Option.some_ne_none c).symm (hwaiter.1 hw), hdue⟩

omit hs in
theorem Attends.ne_next (hm : (x, code') ∈ children) : x ≠ c := by
  have hnodup := h.nodup
  rw [hchildren, List.map_cons, List.nodup_cons] at hnodup
  rintro rfl
  exact hnodup.1 (List.mem_map.2 ⟨_, hm, rfl⟩)

/-- The next worker is reaped, and the first process goes on. -/
theorem Attends.reaps (hawaited : ∀ x, head.awaited? = some x → x = c)
    (hself : s'.kernel.station? i = s.kernel.station? i)
    (hworkers : ∀ x code', (x, code') ∈ children → s'.kernel.station? x = s.kernel.station? x)
    (hP : ∀ x, x ≠ c → P' x = P x) (hc : P' c = none) (hparked : s'.parked = []) :
    Attends s' (Function.update P' i (some (reaping children 0))) i b (reaping children 0) := by
  have hawake := Program.awake_reaping children 0
  have hnodup := h.nodup
  rw [hchildren, List.map_cons, List.nodup_cons] at hnodup
  refine {
    program := Function.update_self ..
    leads := Program.leads_reaping children
    station := hself ▸ h.station
    nodup := (children_reaping children 0).symm ▸ hnodup.2
    due := fun x code' hm => ?_
    others := fun x q hx hxi hm => ?_
    rests := .awake hawake hparked }
  · rw [children_reaping] at hm
    have hm' : (x, code') ∈ head.children := hchildren ▸ List.mem_cons_of_mem _ hm
    have hx := h.ne_next hchildren hm
    refine h.kept hm' (hworkers x code' hm) ?_ ?_
    · rw [Function.update_of_ne (h.ne_of_mem hs hm'), hP x hx]
    · rw [Program.awaited?_of_awake hawake]
      exact iff_of_false (Option.some_ne_none x).symm fun hsame => hx (hawaited x hsame)
  · rw [Function.update_of_ne hxi] at hx
    rw [children_reaping] at hm
    have hxc : x ≠ c := by
      rintro rfl
      cases hc.symm.trans hx
    rw [hP x hxc] at hx
    refine h.others x q hx hxi ?_
    rw [hchildren, List.map_cons, List.mem_cons, not_or]
    exact ⟨hxc, hm⟩

/-- The next worker has exited, and its status is collected. -/
theorem Attends.collects (hn : isAsleep head = false) (hc : s.kernel.Shows c st)
    (hz : st.state = .zombie) (hw : s.Waits i c via destination reply none s')
    (hparked : s'.parked = s.parked) :
    Staffs s' (Function.update P i (some (reaping children 0))) ∧
      Attends s' (Function.update P i (some (reaping children 0))) i b (reaping children 0) := by
  have hstation := Kernel.station?_eq_some_iff.2 hc
  have hci : c ≠ i := h.ne_of_mem hs (hchildren ▸ List.mem_cons_self)
  have hother : ∀ {x}, x ≠ c → s'.kernel.station? x = s.kernel.station? x := fun hx =>
    (hw.turns.stations _).trans (if_neg hx)
  have hstaffs : Staffs s' P := hs.of_stations hw.turns.calm (fun x => by
    by_cases hx : x = c
    · rw [hw.turns.stations, if_pos hx, hx, hstation]
      simp [hz]
    · rw [hother hx]) hw.contexts
  -- a zombie has no program, so the worker does not turn into an orphan when it is struck off
  have hnone : P c = none := Option.eq_none_iff_forall_ne_some.2 fun program hp => by
    obtain ⟨st', hst', hr⟩ := hs.shows hp
    obtain rfl := Option.some.inj (hstation.symm.trans (Kernel.station?_eq_some_iff.2 hst'))
    rw [hz] at hr
    cases hr
  refine ⟨hstaffs.update h.program _, h.reaps hs hchildren (fun x hx => ?_) (hother hci.symm)
    (fun x _ hm => hother (h.ne_next hchildren hm)) (fun _ _ => rfl) hnone
    (hparked.trans (h.nobody hn))⟩
  rw [Program.awaited?_of_awake hn] at hx
  cases hx

/-- The next worker runs, and the first process falls asleep. -/
theorem Attends.sleeps (hn : isAsleep head = false) (hc : s.kernel.Shows c st)
    (hr : st.state = .running)
    (hw : s.Waits i c via destination reply (some { st with waiter := true }) s')
    {y : ParkedWait} (hparked : s'.parked = s.parked ++ [y]) (hblock : y.block = st.block)
    (hcontext : y.context = s.contexts.get? i) (hdestination : y.destination = some 0) :
    Staffs s' (Function.update P i (some (.asleep y.id c code children 0))) ∧
      Attends s' (Function.update P i (some (.asleep y.id c code children 0))) i b
        (.asleep y.id c code children 0) := by
  have hstation := Kernel.station?_eq_some_iff.2 hc
  have hci : c ≠ i := h.ne_of_mem hs (hchildren ▸ List.mem_cons_self)
  have hself : s'.kernel.station? c = some { st with waiter := true } :=
    (hw.turns.stations _).trans (if_pos rfl)
  have hother : ∀ {x}, x ≠ c → s'.kernel.station? x = s.kernel.station? x := fun hx =>
    (hw.turns.stations _).trans (if_neg hx)
  have hstaffs : Staffs s' P := hs.of_stations hw.turns.calm (fun x => by
    by_cases hx : x = c
    · rw [hx, hself, hstation]
      simp [hr]
    · rw [hother hx]) hw.contexts
  refine ⟨hstaffs.update h.program _, {
    program := Function.update_self ..
    leads := .asleep
    station := by
      rw [hother hci.symm]
      exact h.station
    nodup := by
      have hnodup := h.nodup
      rwa [hchildren] at hnodup
    due := fun x code' hm => ?_
    others := fun x q hx hxi hm => ?_
    rests := ?_ }⟩
  · rcases List.mem_cons.1 hm with hm | hm
    · cases hm
      obtain ⟨hcode, st', hst', -, hdue⟩ := h.shows_next hchildren hn
      obtain rfl := Option.some.inj (hstation.symm.trans hdue.station)
      refine ⟨hcode, _, ⟨hself, hdue.parent, ?_⟩, iff_of_true rfl rfl⟩
      rw [Function.update_of_ne hci]
      exact hdue.outcome
    · have hm' : (x, code') ∈ head.children := hchildren ▸ List.mem_cons_of_mem _ hm
      have hx := h.ne_next hchildren hm
      refine h.kept hm' (hother hx) (Function.update_of_ne (h.ne_of_mem hs hm') ..) ?_
      rw [Program.awaited?_of_awake hn]
      exact iff_of_false (fun hsame => hx (Option.some.inj hsame).symm)
        (Option.some_ne_none x).symm
  · rw [Function.update_of_ne hxi] at hx
    exact h.others x q hx hxi (hchildren ▸ hm)
  · rw [h.nobody hn] at hparked
    exact .asleep hparked (hw.contexts ▸ hcontext) hdestination hself hblock.symm hr

end Waits

/-- Whoever else runs is a worker of the first process, or an orphan. -/
theorem Attends.works_or (hp : P p = some program) (hne : p ≠ i) :
    (∃ code, (p, code) ∈ head.children ∧ program.Works code) ∨ program = .leave 0 := by
  by_cases hin : p ∈ head.children.map Prod.fst
  · obtain ⟨⟨x, code⟩, hm, hx⟩ := List.mem_map.1 hin
    subst hx
    exact Or.inl ⟨code, hm, h.works hs hm hp⟩
  · exact Or.inr (h.others p program hp hne hin)

/-- Nobody sleeps but the first process. -/
theorem Attends.awake (hp : P p = some program) (hne : p ≠ i) : isAsleep program = false := by
  rcases h.works_or hs hp hne with ⟨code, -, hworks⟩ | rfl
  · exact hworks.awake
  · rfl

/-- Nobody else keeps a process from leaving. -/
theorem Attends.canExit (hp : P p = some program) (hne : p ≠ i) : s.CanExit p := by
  refine hs.canExit hp fun x hx => ⟨hne, ?_⟩
  cases h.rests with
  | awake _ hparked =>
    rw [hparked] at hx
    cases hx
  | asleep hparked hcontext =>
    rw [hparked] at hx
    rwa [List.mem_singleton.1 hx]

section Leaves

variable {left : Int32} (hp : P p = some (.leave left)) (hne : p ≠ i)
  (hst : s.kernel.Shows p st) (hl : s.Leaves p ⟨.exited, left⟩ st s')
include hp hne hl

theorem Attends.station?_of_leaves : s'.kernel.station? i = s.kernel.station? i := by
  obtain ⟨st', hst', -, hparent, -⟩ := h.station
  refine (hl.station?_of_ne hne.symm hst' ?_).trans hst'.symm
  rw [hparent]
  exact fun hsame => hs.user hp (Option.some.inj hsame).symm

omit hs hp in
theorem Attends.station?_worker_of_leaves (hm : (x, code) ∈ head.children) (hx : x ≠ p) :
    s'.kernel.station? x = s.kernel.station? x := by
  obtain ⟨-, st', hdue, -⟩ := h.due x code hm
  refine (hl.station?_of_ne hx hdue.station ?_).trans hdue.station.symm
  rw [hdue.parent]
  exact fun hsame => hne (Option.some.inj hsame).symm

omit hl hne in
/-- A worker that leaves, leaves with its code. -/
theorem Attends.left_eq (hm : (p, code) ∈ head.children) : left = code := by
  cases h.works hs hm hp
  rfl

omit hp hne hl in
include hst in
/-- Nobody sleeps for it unless the first process does. -/
theorem Attends.unwatched (hu : head.awaited? ≠ some p) : ∀ y ∈ s.parked, y.block ≠ st.block := by
  cases h.rests with
  | awake _ hparked => simp [hparked]
  | @asleep y r c code children failures hparked hcontext hdestination hr hblock hrun =>
    have hc : c ≠ p := fun hsame => hu (congrArg some hsame)
    simpa [hparked, ← hblock] using
      hs.calm.block_ne (Kernel.station?_eq_some_iff.1 hr) hst hc

include hst in
/-- A process exits that the first process does not sleep for. -/
theorem Attends.leaves (hu : head.awaited? ≠ some p) :
    s.parked.filter (·.block == st.block) = [] ∧
      Attends s' (Function.update P p none) i b head := by
  have hstation := Kernel.station?_eq_some_iff.2 hst
  have hblocks := h.unwatched hs hst hu
  have hparked : s'.parked = s.parked := by
    rw [hl.parked, List.filter_eq_self]
    exact fun y hy => bne_iff_ne.2 (hblocks y hy)
  refine ⟨List.filter_eq_nil_iff.2 fun y hy => by simpa using hblocks y hy, {
    program := by rw [Function.update_of_ne hne.symm, h.program]
    leads := h.leads
    station := h.station?_of_leaves hs hp hne hl ▸ h.station
    nodup := h.nodup
    due := fun x code hm => ?_
    others := fun x q hx hxi hm => ?_
    rests := ?_ }⟩
  · by_cases hx : x = p
    · subst hx
      obtain ⟨hcode, r, hdue, hwaiter⟩ := h.due x code hm
      obtain rfl := Option.some.inj (hdue.station.symm.trans hstation)
      have hwaiter' : r.waiter ≠ true := fun hw => hu (hwaiter.1 hw)
      -- its parent is neither the kernel nor asleep for it, so its status is left to be collected
      have hdeparted : r.departed (ExitStatus.encode ⟨.exited, left⟩) = some
          { r with state := .zombie, code := ExitStatus.encode ⟨.exited, left⟩ } := by
        unfold Station.departed
        rw [if_neg]
        rintro (hparent | hw)
        · exact h.user hs (Option.some.inj (hdue.parent.symm.trans hparent))
        · exact hwaiter' hw
      have hzombie : s'.kernel.station? x = some
          { r with state := .zombie, code := ExitStatus.encode ⟨.exited, left⟩ } := by
        rw [hl.turns.stations, if_pos rfl, hdeparted]
      refine ⟨hcode, _, ⟨hzombie, hdue.parent, Or.inr ⟨rfl, ?_⟩⟩, iff_of_false hwaiter' hu⟩
      rw [h.left_eq hs hp hm]
    · exact h.kept hm (h.station?_worker_of_leaves hne hl hm hx)
        (Function.update_of_ne hx ..) Iff.rfl
  · rw [Function.update_apply] at hx
    split at hx
    · cases hx
    · exact h.others x q hx hxi hm
  · cases h.rests with
    | awake hn hnobody => exact .awake hn (hparked.trans hnobody)
    | @asleep y r c code children failures hsleeper hcontext hdestination hr hblock hrun =>
      have hc : c ≠ p := fun hsame => hu (congrArg some hsame)
      refine .asleep (hparked.trans hsleeper) (hcontext.trans ?_) hdestination
        ((h.station?_worker_of_leaves hne hl List.mem_cons_self hc).trans hr) hblock hrun
      rw [hl.contexts, Assoc.get?_erase, if_neg hne.symm]

include hst in
/-- The worker exits that the first process sleeps for. -/
theorem Attends.rouses (hw : head.awaited? = some p) : left ∈ codes ∧
    ∃ x children, head = .asleep x.id p left children 0 ∧ x.destination = some 0 ∧
      s.parked.filter (·.block == st.block) = [x] ∧
      Attends s' (Function.update (Function.update P p none) i (some (reaping children 0))) i b
        (reaping children 0) := by
  have hleads := h.leads
  cases h.rests with
  | awake hn _ =>
    rw [Program.awaited?_of_awake hn] at hw
    cases hw
  | @asleep y r c code children failures hparked hcontext hdestination hr hblock hrun =>
    obtain rfl := Option.some.inj hw
    obtain rfl := Option.some.inj (hr.symm.trans (Kernel.station?_eq_some_iff.2 hst))
    cases hleads
    obtain rfl := h.left_eq hs hp List.mem_cons_self
    refine ⟨(h.due c left List.mem_cons_self).1, y, children, rfl, hdestination, ?_,
      h.reaps hs rfl (fun x hx => (Option.some.inj hx).symm)
        (h.station?_of_leaves hs hp hne hl) (fun x code' hm => ?_)
        (fun x hx => Function.update_of_ne hx ..) (Function.update_self ..) ?_⟩
    · rw [hparked, List.filter_singleton, hblock, beq_self_eq_true, cond_true]
    · exact h.station?_worker_of_leaves hne hl (List.mem_cons_of_mem _ hm) (h.ne_next rfl hm)
    · rw [hl.parked, hparked, List.filter_singleton, hblock, bne_self_eq_false, cond_false]

end Leaves

end Attends

/-! ### After the first process -/

section Gone

variable {left : Int32}

/-- The first process exits, once it has reaped all its workers. -/
theorem Attends.goes (h : Attends s P i b (.leave left)) (hst : s.kernel.Shows i st)
    (hl : s.Leaves i ⟨.exited, left⟩ st s') : Gone s' (Function.update P i none) i b := by
  obtain ⟨st', hst', hblock, hparent, -⟩ := h.station
  obtain rfl := Option.some.inj (hst'.symm.trans (Kernel.station?_eq_some_iff.2 hst))
  have hdeparted : st'.departed (ExitStatus.encode ⟨.exited, left⟩) = none :=
    if_pos (Or.inl hparent)
  obtain rfl : left = 0 := by
    cases h.leads
    rfl
  exact {
    absent := Function.update_self ..
    parked := by rw [hl.parked, h.nobody rfl, List.filter_nil]
    others := fun q program hq => by
      rw [Function.update_apply] at hq
      split at hq
      · cases hq
      · next hqi => exact h.others q program hq hqi List.not_mem_nil
    reaped := hblock ▸ Block.station?_eq_none_iff.1 (hl.left.trans hdeparted)
    code := hblock ▸ hl.code }

/-- An orphan exits after the first process. -/
theorem Gone.leaves {status : ExitStatus} (h : Gone s P i b) (hl : s.Leaves p status st s') :
    s.parked.filter (·.block == st.block) = [] ∧ Gone s' (Function.update P p none) i b := by
  have hcore := hl.turns.reaped b h.reaped
  refine ⟨by rw [h.parked, List.filter_nil], {
    absent := ?_
    parked := by rw [hl.parked, h.parked, List.filter_nil]
    others := fun q program hq => ?_
    reaped := (Block.reaped_of_core hcore).trans h.reaped
    code := (Block.code_of_core hcore).trans h.code }⟩
  · rw [Function.update_apply]
    split
    · rfl
    · exact h.absent
  · rw [Function.update_apply] at hq
    split at hq
    · cases hq
    · exact h.others q program hq

end Gone

end Workload

end Lifecycle
