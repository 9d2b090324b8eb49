import Lifecycle.Assoc
import Lifecycle.Error

/-! The host: task records, and counters of what has been asked of it. An
address space is a generation number and a file table a count of open files,
which is enough to see that a fork copied them. Calls on tasks that are unknown
or gone change nothing, except that a termination always counts. -/

namespace Lifecycle

structure TaskRecord where
  name : String
  /-- The pid of the last thread attached. -/
  pid : Option Pid
  /-- Threads attached now. -/
  threads : Nat
  /-- None for a task of the kernel alone. -/
  addressSpace : Option Nat
  openFiles : Nat
deriving DecidableEq

structure HostCounters where
  created : Nat := 0
  destroyed : Nat := 0
  spawned : Nat := 0
  terminated : Nat := 0
deriving DecidableEq

structure Host where
  nextTask : Nat := 1
  nextSpace : Nat := 1
  tasks : Assoc TaskHandle TaskRecord := .empty
  counters : HostCounters := {}

namespace Host

/-- Files open in a new task. -/
def standardFiles : Nat := 3

def task? (h : Host) (task : TaskHandle) : Option TaskRecord := h.tasks.get? task

def liveTasks (h : Host) : Nat := h.tasks.size

def createTask (h : Host) (name : String) : TaskHandle × Host :=
  (⟨h.nextTask⟩,
    { h with
      nextTask := h.nextTask + 1
      tasks := h.tasks.insert ⟨h.nextTask⟩ ⟨name, none, 0, none, standardFiles⟩
      counters := { h.counters with created := h.counters.created + 1 } })

def destroyTask (h : Host) (task : TaskHandle) : Host :=
  if h.tasks.contains task then
    { h with
      tasks := h.tasks.erase task
      counters := { h.counters with destroyed := h.counters.destroyed + 1 } }
  else h

def attach (h : Host) (task : TaskHandle) (pid : Pid) : Host :=
  { h with tasks := h.tasks.modify task fun record =>
      { record with threads := record.threads + 1, pid := some pid } }

def detach (h : Host) (task : TaskHandle) : Host :=
  { h with tasks := h.tasks.modify task fun record =>
      { record with threads := record.threads - 1 } }

/-- A generation is used up as soon as the source is known. -/
def cloneAddressSpace (h : Host) (src dst : TaskHandle) : Option Errno × Host :=
  if !h.tasks.contains src then (some .einval, h)
  else if !h.tasks.contains dst then (some .einval, { h with nextSpace := h.nextSpace + 1 })
  else (none,
    { h with
      nextSpace := h.nextSpace + 1
      tasks := h.tasks.modify dst fun record =>
        { record with addressSpace := some h.nextSpace } })

def cloneFdTable (h : Host) (src dst : TaskHandle) : Option Errno × Host :=
  match h.task? src with
  | none => (some .einval, h)
  | some source =>
    if !h.tasks.contains dst then (some .einval, h)
    else (none,
      { h with tasks := h.tasks.modify dst fun record =>
          { record with openFiles := source.openFiles } })

def destroyFdTable (h : Host) (task : TaskHandle) : Host :=
  { h with tasks := h.tasks.modify task fun record => { record with openFiles := 0 } }

/-- The name of a thread started in a task with this record. -/
def threadName (record : TaskRecord) : String := s!"pid-{record.pid.getD 0}"

/-- Start a thread in a known task. -/
def spawn (h : Host) (task : TaskHandle) : Except Errno String × Host :=
  match h.task? task with
  | none => (.error .einval, h)
  | some record => (.ok (threadName record),
      { h with counters := { h.counters with spawned := h.counters.spawned + 1 } })

def terminate (h : Host) (_task : TaskHandle) : Host :=
  { h with counters := { h.counters with terminated := h.counters.terminated + 1 } }

/-! ### The record of a task after each call -/

theorem contains_iff (h : Host) (t : TaskHandle) :
    h.tasks.contains t = true ↔ ∃ record, h.task? t = some record :=
  Option.isSome_iff_exists

theorem task?_createTask (h : Host) (name : String) (t : TaskHandle) :
    (h.createTask name).2.task? t = if t = (h.createTask name).1
      then some ⟨name, none, 0, none, standardFiles⟩ else h.task? t :=
  Assoc.get?_insert ..

theorem task?_destroyTask (h : Host) (task t : TaskHandle) :
    (h.destroyTask task).task? t = if t = task then none else h.task? t := by
  unfold destroyTask
  split
  · exact Assoc.get?_erase ..
  · next hc =>
    by_cases ht : t = task
    · subst ht
      simpa [contains_iff, Option.eq_none_iff_forall_ne_some] using hc
    · simp [ht]

theorem task?_attach (h : Host) (task t : TaskHandle) (pid : Pid) :
    (h.attach task pid).task? t = if t = task
      then (h.task? t).map fun record =>
        { record with threads := record.threads + 1, pid := some pid }
      else h.task? t :=
  Assoc.get?_modify ..

theorem task?_detach (h : Host) (task t : TaskHandle) :
    (h.detach task).task? t = if t = task
      then (h.task? t).map fun record => { record with threads := record.threads - 1 }
      else h.task? t :=
  Assoc.get?_modify ..

theorem task?_destroyFdTable (h : Host) (task t : TaskHandle) :
    (h.destroyFdTable task).task? t = if t = task
      then (h.task? t).map fun record => { record with openFiles := 0 } else h.task? t :=
  Assoc.get?_modify ..

theorem task?_cloneAddressSpace (h : Host) (src dst t : TaskHandle) :
    (h.cloneAddressSpace src dst).2.task? t =
      if (h.cloneAddressSpace src dst).1 = none ∧ t = dst
      then (h.task? t).map fun record => { record with addressSpace := some h.nextSpace }
      else h.task? t := by
  unfold cloneAddressSpace
  split
  · simp
  · split
    · simp [task?]
    · simp [task?, Assoc.get?_modify]

theorem task?_cloneFdTable (h : Host) (src dst t : TaskHandle) :
    (h.cloneFdTable src dst).2.task? t =
      if (h.cloneFdTable src dst).1 = none ∧ t = dst
      then (h.task? t).map fun record =>
        { record with openFiles := ((h.task? src).map (·.openFiles)).getD 0 }
      else h.task? t := by
  unfold cloneFdTable
  split
  · simp
  · next source hs =>
    split
    · simp
    · simp only [task?] at hs
      simp [task?, Assoc.get?_modify, hs]

@[simp] theorem tasks_spawn (h : Host) (task : TaskHandle) : (h.spawn task).2.tasks = h.tasks := by
  unfold spawn
  split <;> rfl

/-! ### What a copy comes to -/

/-- What copying an address space comes to. A refusal may use up a generation. -/
inductive CopiesSpace (h : Host) (src dst : TaskHandle) : Option Errno × Host → Prop
  | refused (n : Nat) (unknown : ¬(h.tasks.contains src ∧ h.tasks.contains dst))
      (next : h.nextSpace ≤ n) : CopiesSpace h src dst (some .einval, { h with nextSpace := n })
  | done {source target : TaskRecord} (known : h.task? src = some source)
      (there : h.task? dst = some target) :
      CopiesSpace h src dst (none,
        { h with
          nextSpace := h.nextSpace + 1
          tasks := h.tasks.modify dst fun record =>
            { record with addressSpace := some h.nextSpace } })

theorem copiesSpace (h : Host) (src dst : TaskHandle) :
    h.CopiesSpace src dst (h.cloneAddressSpace src dst) := by
  unfold cloneAddressSpace
  cases hsrc : h.tasks.contains src with
  | false => exact .refused _ (fun hk => by cases hsrc.symm.trans hk.1) (Nat.le_refl _)
  | true =>
    cases hdst : h.tasks.contains dst with
    | false => exact .refused _ (fun hk => by cases hdst.symm.trans hk.2) (Nat.le_succ _)
    | true =>
      obtain ⟨source, hsource⟩ := (h.contains_iff src).1 hsrc
      obtain ⟨target, htarget⟩ := (h.contains_iff dst).1 hdst
      exact .done hsource htarget

/-- What copying a table of files comes to. -/
inductive CopiesFiles (h : Host) (src dst : TaskHandle) : Option Errno × Host → Prop
  | refused (unknown : ¬(h.tasks.contains src ∧ h.tasks.contains dst)) :
      CopiesFiles h src dst (some .einval, h)
  | done {source target : TaskRecord} (known : h.task? src = some source)
      (there : h.task? dst = some target) :
      CopiesFiles h src dst (none,
        { h with tasks := h.tasks.modify dst fun record =>
            { record with openFiles := source.openFiles } })

theorem copiesFiles (h : Host) (src dst : TaskHandle) :
    h.CopiesFiles src dst (h.cloneFdTable src dst) := by
  unfold cloneFdTable
  cases hsrc : h.task? src with
  | none =>
    refine .refused fun hk => ?_
    obtain ⟨source, hsource⟩ := (h.contains_iff src).1 hk.1
    cases hsrc.symm.trans hsource
  | some source =>
    cases hdst : h.tasks.contains dst with
    | false => exact .refused fun hk => by cases hdst.symm.trans hk.2
    | true =>
      obtain ⟨target, htarget⟩ := (h.contains_iff dst).1 hdst
      exact .done hsrc htarget

/-- A copy is made if both tasks are there. -/
theorem answer_cloneAddressSpace (h : Host) (src dst : TaskHandle) :
    (h.cloneAddressSpace src dst).1 =
      if h.tasks.contains src ∧ h.tasks.contains dst then none else some .einval := by
  have hc := h.copiesSpace src dst
  generalize h.cloneAddressSpace src dst = out at hc ⊢
  cases hc with
  | refused n unknown next => exact (if_neg unknown).symm
  | done known there =>
    exact (if_pos ⟨(h.contains_iff _).2 ⟨_, known⟩, (h.contains_iff _).2 ⟨_, there⟩⟩).symm

theorem answer_cloneFdTable (h : Host) (src dst : TaskHandle) :
    (h.cloneFdTable src dst).1 =
      if h.tasks.contains src ∧ h.tasks.contains dst then none else some .einval := by
  have hc := h.copiesFiles src dst
  generalize h.cloneFdTable src dst = out at hc ⊢
  cases hc with
  | refused unknown => exact (if_neg unknown).symm
  | done known there =>
    exact (if_pos ⟨(h.contains_iff _).2 ⟨_, known⟩, (h.contains_iff _).2 ⟨_, there⟩⟩).symm

/-- What a copy to a task leaves alone, made or refused. -/
structure Spares (h : Host) (dst : TaskHandle) (h' : Host) : Prop where
  nextTask : h'.nextTask = h.nextTask
  counters : h'.counters = h.counters
  contains : ∀ t, h'.tasks.contains t = h.tasks.contains t
  others : ∀ t ≠ dst, h'.task? t = h.task? t

theorem spares_cloneAddressSpace (h : Host) (src dst : TaskHandle) :
    h.Spares dst (h.cloneAddressSpace src dst).2 := by
  have hc := h.copiesSpace src dst
  generalize h.cloneAddressSpace src dst = out at hc ⊢
  cases hc with
  | refused => exact ⟨rfl, rfl, fun _ => rfl, fun _ _ => rfl⟩
  | done => exact ⟨rfl, rfl, fun _ => Assoc.contains_modify ..,
      fun _ ht => (Assoc.get?_modify ..).trans (if_neg ht)⟩

theorem spares_cloneFdTable (h : Host) (src dst : TaskHandle) :
    h.Spares dst (h.cloneFdTable src dst).2 := by
  have hc := h.copiesFiles src dst
  generalize h.cloneFdTable src dst = out at hc ⊢
  cases hc with
  | refused => exact ⟨rfl, rfl, fun _ => rfl, fun _ _ => rfl⟩
  | done => exact ⟨rfl, rfl, fun _ => Assoc.contains_modify ..,
      fun _ ht => (Assoc.get?_modify ..).trans (if_neg ht)⟩

end Host

end Lifecycle
