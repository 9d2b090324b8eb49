import Lifecycle.Workload
import Mathlib

/-! The programs of a workload: which of them a step changes, and how much they have still to do.
Each step of a process that can run uses up some of that, so a workload comes to rest. -/

namespace Lifecycle

/-! ### Maps -/

namespace Assoc

variable {κ α : Type} [DecidableEq κ]

theorem lookup_eq_none {l : List (κ × α)} {k : κ} (hk : k ∉ l.map Prod.fst) :
    l.lookup k = none := by
  refine List.lookup_eq_none_iff.2 fun e he => bne_iff_ne.2 fun hkey => hk ?_
  rw [hkey]
  exact List.mem_map_of_mem he

/-- Entries with different keys are inserted one after the other. -/
theorem get?_foldl_insert (l : List (κ × α)) (hl : (l.map Prod.fst).Nodup) (m : Assoc κ α)
    (k : κ) : (l.foldl (fun m e => m.insert e.1 e.2) m).get? k = (l.lookup k).or (m.get? k) := by
  induction l generalizing m with
  | nil => rfl
  | cons e l ih =>
    obtain ⟨hnew, hl⟩ := List.nodup_cons.1 hl
    rw [List.foldl_cons, ih hl, get?_insert, List.lookup_cons]
    by_cases hk : k = e.1
    · subst hk
      simp [lookup_eq_none hnew]
    · have hbeq : (k == e.1) = false := beq_eq_false_iff_ne.2 hk
      simp [hk, hbeq]

theorem get?_eq_some_iff (m : Assoc κ α) {k : κ} {v : α} :
    m.get? k = some v ↔ (k, v) ∈ m.entries := by
  have hall : ∀ l : List (κ × α), (l.map Prod.fst).Nodup →
      (l.lookup k = some v ↔ (k, v) ∈ l) := fun l => by
    induction l with
    | nil => simp
    | cons e l ih =>
      obtain ⟨a, u⟩ := e
      intro hl
      obtain ⟨hnew, hl⟩ := List.nodup_cons.1 hl
      by_cases ha : k = a
      · subst ha
        have hnot : (k, v) ∉ l := fun hm => hnew (List.mem_map.2 ⟨_, hm, rfl⟩)
        simp [hnot, eq_comm]
      · have hbeq : (k == a) = false := beq_eq_false_iff_ne.2 ha
        rw [List.lookup_cons, hbeq, List.mem_cons]
        simpa [ha] using ih hl
  exact hall m.entries m.nodup

/-- What the values of a map come to. -/
def sum (f : α → Nat) (m : Assoc κ α) : Nat := (m.entries.map fun e => f e.2).sum

theorem sum_filter_add (f : α → Nat) (l : List (κ × α)) (hl : (l.map Prod.fst).Nodup) (k : κ) :
    ((l.filter (·.1 ≠ k)).map fun e => f e.2).sum + ((l.lookup k).map f).getD 0 =
      (l.map fun e => f e.2).sum := by
  induction l with
  | nil => rfl
  | cons e l ih =>
    obtain ⟨a, v⟩ := e
    obtain ⟨hnew, hl⟩ := List.nodup_cons.1 hl
    have hrest := ih hl
    by_cases ha : a = k
    · subst ha
      rw [lookup_eq_none hnew, Option.map_none, Option.getD_none] at hrest
      simpa [Nat.add_comm] using hrest
    · have hbeq : (k == a) = false := beq_eq_false_iff_ne.2 (Ne.symm ha)
      rw [List.filter_cons_of_pos (by simpa using ha), List.map_cons, List.sum_cons,
        List.map_cons, List.sum_cons, List.lookup_cons, hbeq, ← hrest, Nat.add_assoc]

theorem sum_erase (f : α → Nat) (m : Assoc κ α) (k : κ) :
    (m.erase k).sum f + ((m.get? k).map f).getD 0 = m.sum f :=
  sum_filter_add f m.entries m.nodup k

theorem sum_insert (f : α → Nat) (m : Assoc κ α) (k : κ) (v : α) :
    (m.insert k v).sum f + ((m.get? k).map f).getD 0 = m.sum f + f v := by
  have hinsert : (m.insert k v).sum f = f v + (m.erase k).sum f := List.sum_cons
  have herase := m.sum_erase f k
  omega

theorem sum_foldl_insert_le (f : α → Nat) (l : List (κ × α)) (m : Assoc κ α) :
    (l.foldl (fun m e => m.insert e.1 e.2) m).sum f ≤ m.sum f + (l.map fun e => f e.2).sum := by
  induction l generalizing m with
  | nil => exact Nat.le_refl _
  | cons e l ih =>
    have hinsert := m.sum_insert f e.1 e.2
    have hrest := ih (m.insert e.1 e.2)
    rw [List.foldl_cons, List.map_cons, List.sum_cons]
    omega

end Assoc

/-! ### Waking -/

/-- What a wait that has finished makes of a program. -/
def Program.rouse (woken : Woken) : Program → Program
  | .asleep id child code children failures =>
    if id = woken.id then
      Workload.reaping children (Workload.failuresAfter failures woken.report child code)
    else .asleep id child code children failures
  | program => program

namespace Workload

variable {w : Workload} {p : Pid} {program : Program}

theorem rouse_of_awake {woken : Woken} (h : isAsleep program = false) :
    program.rouse woken = program := by
  cases program with
  | asleep id child code children failures => cases h
  | _ => rfl

theorem wake_eq (w : Workload) (woken : Woken) : (w.wake woken).programs =
    (w.programs.entries.map fun e => (e.1, e.2.rouse woken)).foldl
      (fun m e => m.insert e.1 e.2) .empty := by
  have hmap : (fun e : Pid × Program => (e.1, e.2.rouse woken)) = fun e =>
      match e.2 with
      | .asleep id child code children failures =>
        if id = woken.id then
          (e.1, reaping children (failuresAfter failures woken.report child code))
        else e
      | _ => e := by
    funext ⟨p, program⟩
    cases program with
    | asleep id child code children failures =>
      by_cases hid : id = woken.id <;> simp [Program.rouse, hid]
    | _ => rfl
  rw [hmap]
  rfl

theorem get?_wake (w : Workload) (woken : Woken) (p : Pid) :
    (w.wake woken).programs.get? p = (w.programs.get? p).map (·.rouse woken) := by
  have hkeys : (w.programs.entries.map fun e => (e.1, e.2.rouse woken)).map Prod.fst =
      w.programs.entries.map Prod.fst := by
    rw [List.map_map]
    rfl
  have hlookup : ∀ l : List (Pid × Program),
      (l.map fun e => (e.1, e.2.rouse woken)).lookup p = (l.lookup p).map (·.rouse woken) := by
    intro l
    induction l with
    | nil => rfl
    | cons e l ih =>
      rw [List.map_cons, List.lookup_cons, List.lookup_cons, ih]
      cases p == e.1 <;> rfl
  rw [wake_eq, Assoc.get?_foldl_insert _ (hkeys ▸ w.programs.nodup), hlookup, Assoc.get?_empty,
    Option.or_none]
  rfl

theorem get?_setProgram (w : Workload) (p : Pid) (program : Program) :
    (w.setProgram p program).programs.get? = Function.update w.programs.get? p (some program) := by
  funext x
  rw [Function.update_apply]
  exact Assoc.get?_insert ..

theorem session_resumeWith (w : Workload) (woke : List Woken) (session : Session) :
    (w.resumeWith woke session).session = session := by
  induction woke generalizing w with
  | nil => rfl
  | cons woken woke ih => exact ih (wake { w with session := session } woken)

/-! ### What there is to do -/

end Workload

/-- How many steps a program takes at most, with those of the processes that it forks. -/
def Program.work : Program → Nat
  | .forkWorkers codes children =>
    (codes.map fun code => if code = 0 then 6 else 4).sum + children.length + 3
  | .reapWorkers children _ => children.length + 2
  | .asleep _ _ _ children _ => children.length + 2
  | .introduce code => if code = 0 then 4 else 2
  | .forkOrphan _ => 3
  | .leave _ => 1

namespace Workload

def work (w : Workload) : Nat := w.programs.sum Program.work

variable {w : Workload} {p : Pid} {program : Program}

theorem work_reaping (children : List (Pid × Int32)) (failures : Int32) :
    (reaping children failures).work ≤ children.length + 2 := by
  unfold reaping
  split
  · exact Nat.le_add_left ..
  · exact Nat.le_refl _

theorem work_forking (codes : List Int32) (children : List (Pid × Int32)) :
    (forking codes children).work ≤ (Program.forkWorkers codes children).work := by
  unfold forking
  split
  · have hreaping := work_reaping children 0
    change _ ≤ _ + children.length + 3
    omega
  · exact Nat.le_refl _

theorem work_rouse (woken : Woken) (program : Program) :
    (program.rouse woken).work ≤ program.work := by
  cases program with
  | asleep id child code children failures =>
    rw [Program.rouse]
    split
    · exact work_reaping ..
    · exact Nat.le_refl _
  | _ => exact Nat.le_refl _

theorem work_wake (w : Workload) (woken : Woken) : (w.wake woken).work ≤ w.work := by
  have hfold := Assoc.sum_foldl_insert_le Program.work
    (w.programs.entries.map fun e => (e.1, e.2.rouse woken)) .empty
  rw [← wake_eq, List.map_map] at hfold
  have hempty : (Assoc.empty : Assoc Pid Program).sum Program.work = 0 := rfl
  rw [hempty, Nat.zero_add] at hfold
  refine Nat.le_trans hfold ?_
  exact List.sum_le_sum fun e _ => work_rouse woken e.2

theorem work_resumeWith (w : Workload) (woke : List Woken) (session : Session) :
    (w.resumeWith woke session).work ≤ w.work := by
  have hall : ∀ (woke : List Woken) (w : Workload), (woke.foldl wake w).work ≤ w.work :=
    fun woke => by
      induction woke with
      | nil => exact fun _ => Nat.le_refl _
      | cons woken woke ih => exact fun w => Nat.le_trans (ih _) (w.work_wake woken)
  exact hall woke { w with session := session }

/-- Who is not asleep is not woken. -/
theorem get?_resumeWith (hp : w.programs.get? p = some program) (hn : isAsleep program = false)
    (woke : List Woken) (session : Session) :
    (w.resumeWith woke session).programs.get? p = some program := by
  have hall : ∀ (woke : List Woken) (w : Workload), w.programs.get? p = some program →
      (woke.foldl wake w).programs.get? p = some program := fun woke => by
    induction woke with
    | nil => exact fun _ => id
    | cons woken woke ih =>
      exact fun w hp => ih _ (by rw [get?_wake, hp, Option.map_some, rouse_of_awake hn])
  exact hall woke { w with session := session } hp

theorem work_setProgram (w : Workload) (p : Pid) (program : Program) :
    (w.setProgram p program).work + ((w.programs.get? p).map Program.work).getD 0 =
      w.work + program.work :=
  Assoc.sum_insert ..

/-- A child comes in, and its parent goes on. -/
theorem work_setProgram_setProgram (hp : w.programs.get? p = some program) (c : Pid)
    (child next : Program) : ((w.setProgram c child).setProgram p next).work + program.work ≤
      w.work + child.work + next.work := by
  have hchild := w.work_setProgram c child
  have hnext := (w.setProgram c child).work_setProgram p next
  rw [get?_setProgram, Function.update_apply] at hnext
  by_cases hc : p = c
  · subst hc
    simp only [hp, Option.map_some, Option.getD_some, if_true] at hchild hnext
    omega
  · simp only [hp, Option.map_some, Option.getD_some, if_neg hc] at hnext
    omega

/-- A fork that goes through brings a child in, and nothing else adds to what there is to do. -/
theorem fork_cases (w : Workload) (p : Pid) (via : Via) (child : Program) :
    ∃ woke session, w.fork p via child = (none, w.resumeWith woke session) ∨
      ∃ c, w.fork p via child = (some c, (w.resumeWith woke session).setProgram c child) := by
  unfold fork
  split
  · exact ⟨_, _, Or.inr ⟨_, rfl⟩⟩
  · exact ⟨_, _, Or.inl rfl⟩

/-- A process whose program has less to do afterwards. -/
theorem work_setProgram_lt (hp : w.programs.get? p = some program)
    (hn : isAsleep program = false) (woke : List Woken) (session : Session) {next : Program}
    (h : next.work < program.work) :
    ((w.resumeWith woke session).setProgram p next).work < w.work := by
  have hset := (w.resumeWith woke session).work_setProgram p next
  rw [get?_resumeWith hp hn, Option.map_some, Option.getD_some] at hset
  have hresume := w.work_resumeWith woke session
  omega

theorem work_fork_lt (hp : w.programs.get? p = some program) (hn : isAsleep program = false)
    (via : Via) {child : Program} (next : Option Pid → Program)
    (h : (next none).work < program.work)
    (h' : ∀ c, child.work + (next (some c)).work < program.work) :
    ((w.fork p via child).2.setProgram p (next (w.fork p via child).1)).work < w.work := by
  obtain ⟨woke, session, hfork | ⟨c, hfork⟩⟩ := w.fork_cases p via child
  · rw [hfork]
    exact work_setProgram_lt hp hn woke session h
  · rw [hfork]
    have hset := work_setProgram_setProgram (get?_resumeWith hp hn woke session) c child
      (next (some c))
    have hresume := w.work_resumeWith woke session
    have hless := h' c
    dsimp only
    omega

/-- The fork, the program of its child and the wait for the child all come with the code. -/
theorem work_forkWorkers_lt {code : Int32} {codes : List Int32} {children : List (Pid × Int32)}
    (hp : w.programs.get? p = some (.forkWorkers (code :: codes) children))
    (hn : isAsleep (.forkWorkers (code :: codes) children) = false) :
    (w.stepProgram p (.forkWorkers (code :: codes) children)).work < w.work := by
  have hcode : (Program.forkWorkers (code :: codes) children).work =
      2 + (Program.introduce code).work + (Program.forkWorkers codes children).work := by
    simp only [Program.work, List.map_cons, List.sum_cons]
    split <;> omega
  have hmore : ∀ c, (Program.forkWorkers codes (children ++ [(c, code)])).work =
      (Program.forkWorkers codes children).work + 1 := fun c => by
    simp only [Program.work, List.length_append, List.length_singleton]
    omega
  have hstep : w.stepProgram p (.forkWorkers (code :: codes) children) =
      (w.fork p .syscall (.introduce code)).2.setProgram p
        (forking codes (children ++
          ((w.fork p .syscall (.introduce code)).1.map (·, code)).toList)) := by
    rw [stepProgram]
    generalize w.fork p .syscall (.introduce code) = out
    obtain ⟨_ | c, w'⟩ := out
    · simp
    · rfl
  rw [hstep]
  refine work_fork_lt hp hn .syscall
    (fun new => forking codes (children ++ (new.map (·, code)).toList)) ?_ fun c => ?_
  · change (forking codes (children ++ [])).work < _
    rw [List.append_nil]
    have hnext := work_forking codes children
    omega
  · have hnext := work_forking codes (children ++ [(c, code)])
    have hone := hmore c
    change _ + (forking codes (children ++ [(c, code)])).work < _
    omega

theorem work_stepProgram (hp : w.programs.get? p = some program)
    (hn : isAsleep program = false) : (w.stepProgram p program).work < w.work := by
  cases program with
  | forkWorkers codes children =>
    cases codes with
    | nil =>
      refine work_setProgram_lt hp hn [] w.session (Nat.lt_of_le_of_lt (work_reaping ..) ?_)
      change children.length + 2 < 0 + children.length + 3
      omega
    | cons code codes => exact work_forkWorkers_lt hp hn
  | reapWorkers children failures =>
    cases children with
    | nil => exact work_setProgram_lt hp hn [] w.session (show 1 < 2 by decide)
    | cons child children =>
      obtain ⟨c, code⟩ := child
      have hless : ∀ failures, (reaping children failures).work <
          (Program.reapWorkers ((c, code) :: children) failures).work := fun failures =>
        Nat.lt_succ_of_le (work_reaping ..)
      rw [stepProgram]
      split
      · exact work_setProgram_lt hp hn _ _ (hless _)
      · exact work_setProgram_lt hp hn _ _ (Nat.lt_succ_self _)
      · exact work_setProgram_lt hp hn _ _ (hless _)
  | asleep id child code children failures => cases hn
  | introduce code =>
    refine work_setProgram_lt hp hn [] w.session ?_
    by_cases hcode : code = 0 <;> simp [Program.work, hcode]
  | forkOrphan code =>
    exact work_fork_lt hp hn .syscall (fun _ => .leave code) (show 1 < 3 by decide)
      fun _ => show 1 + 1 < 3 by decide
  | leave code =>
    have herase := Assoc.sum_erase Program.work w.programs p
    rw [hp, Option.map_some, Option.getD_some] at herase
    refine Nat.lt_of_le_of_lt (work_resumeWith ..) ?_
    change (w.programs.erase p).sum Program.work < w.programs.sum Program.work
    rw [← herase]
    exact Nat.lt_succ_self _

/-! ### Running -/

/-- A process is there and not asleep. -/
def CanStep (w : Workload) (p : Pid) : Prop :=
  ∃ program, w.programs.get? p = some program ∧ isAsleep program = false

/-- Each process of a schedule can run when it is its turn. -/
def CanRun (w : Workload) : List Pid → Prop
  | [] => True
  | p :: schedule => w.CanStep p ∧ (w.step p).CanRun schedule

theorem canStep_of_next? (h : w.next? = some p) : w.CanStep p := by
  obtain ⟨e, hfind, rfl⟩ := Option.map_eq_some_iff.1 h
  exact ⟨e.2, w.programs.get?_eq_some_iff.2 (List.mem_of_find?_eq_some hfind),
    by simpa using List.find?_some hfind⟩

theorem next?_eq_none_iff : w.next? = none ↔ ∀ p, ¬ w.CanStep p := by
  unfold next? CanStep
  simp [Assoc.get?_eq_some_iff]

theorem work_step_lt (h : w.CanStep p) : (w.step p).work < w.work := by
  obtain ⟨program, hp, hn⟩ := h
  unfold step
  rw [hp]
  simpa [hn] using work_stepProgram hp hn

/-- Whoever can run has something to do. -/
theorem length_le_work {schedule : List Pid} (h : w.CanRun schedule) :
    schedule.length ≤ w.work := by
  induction schedule generalizing w with
  | nil => exact Nat.zero_le _
  | cons p schedule ih =>
    have hlt := work_step_lt h.1
    have hle := ih h.2
    rw [List.length_cons]
    omega

/-- As long as a process can run, there is something to do, and less after it has run. -/
theorem next?_runAll {n : Nat} (h : w.work ≤ n) : (runAll n w).next? = none := by
  induction n generalizing w with
  | zero =>
    refine Option.eq_none_iff_forall_ne_some.2 fun p hnext => ?_
    exact Nat.not_lt_zero _ (Nat.lt_of_lt_of_le (work_step_lt (canStep_of_next? hnext)) h)
  | succ n ih =>
    rw [runAll]
    cases hnext : w.next? with
    | none => exact hnext
    | some p =>
      have hlt := work_step_lt (canStep_of_next? hnext)
      exact ih (Nat.le_of_lt_succ (Nat.lt_of_lt_of_le hlt h))

theorem work_step_le (w : Workload) (p : Pid) : (w.step p).work ≤ w.work := by
  by_cases h : w.CanStep p
  · exact Nat.le_of_lt (work_step_lt h)
  · unfold step
    split
    · next program hp =>
      rw [if_pos (by simpa using fun hn => h ⟨program, hp, hn⟩)]
    · exact Nat.le_refl _

theorem work_run_le (w : Workload) (schedule : List Pid) : (w.run schedule).work ≤ w.work := by
  induction schedule generalizing w with
  | nil => exact Nat.le_refl _
  | cons p schedule ih => exact Nat.le_trans (ih _) (w.work_step_le p)

/-- Running on is running in some order. -/
theorem runAll_eq_run (n : Nat) (w : Workload) : ∃ schedule, runAll n w = w.run schedule := by
  induction n generalizing w with
  | zero => exact ⟨[], rfl⟩
  | succ n ih =>
    rw [runAll]
    cases w.next? with
    | none => exact ⟨[], rfl⟩
    | some p =>
      obtain ⟨schedule, h⟩ := ih (w.step p)
      exact ⟨p :: schedule, h⟩

end Workload

end Lifecycle
