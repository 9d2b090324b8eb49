import Lifecycle.Proofs.Host.Bookkeeping

/-! What becomes of the threads that the host starts. A log beside the host tells when a thread is
started, when one is refused and when one runs. Joining runs each thread once, in the order in
which they were started, those included that others start while it lasts; it comes to an end since
each batch uses up its threads and leaves no more than what is below them. -/

namespace Lifecycle

/-- What happens to the threads of a host. -/
inductive ThreadEvent
  | started (thread : String × Entry)
  /-- A thread could not start another. -/
  | refused (entry : Entry) (errno : Errno)
  | ran (thread : String × Entry)

namespace ThreadEvent

def started? : ThreadEvent → Option (String × Entry)
  | started thread => some thread
  | _ => none

def ran? : ThreadEvent → Option (String × Entry)
  | ran thread => some thread
  | _ => none

/-- The line in the record of the host. -/
def line? : ThreadEvent → Option ThreadRecord
  | started _ => none
  | refused entry errno => some ⟨entry.label, errno.describe⟩
  | ran thread => some ⟨thread.2.label, thread.1⟩

end ThreadEvent

namespace Host

/-- What comes of starting a thread. -/
def outcome (h : Host) (start : TaskHandle × Entry) : ThreadEvent :=
  match h.task? start.1 with
  | some record => .started (threadName record, start.2)
  | none => .refused start.2 .einval

/-- What happens when a thread runs. -/
def runEvents (h : Host) (thread : String × Entry) : List ThreadEvent :=
  .ran thread :: thread.2.starts.map h.outcome

theorem outcome_congr {h h' : Host} (ht : h'.tasks = h.tasks) : h'.outcome = h.outcome := by
  funext start
  rw [outcome, task?, ht, outcome, task?]

theorem runEvents_congr {h h' : Host} (ht : h'.tasks = h.tasks) : h'.runEvents = h.runEvents := by
  funext thread
  rw [runEvents, outcome_congr ht, runEvents]

end Host

namespace ThreadHost

/-- Threads started, the oldest first. -/
def starts (events : List ThreadEvent) : List (String × Entry) := events.filterMap (·.started?)

/-- Threads run, the oldest first. -/
def runs (events : List ThreadEvent) : List (String × Entry) := events.filterMap (·.ran?)

def lines (events : List ThreadEvent) : List ThreadRecord := events.filterMap (·.line?)

section

variable (es es' : List ThreadEvent)

theorem starts_append : starts (es ++ es') = starts es ++ starts es' := List.filterMap_append

theorem runs_append : runs (es ++ es') = runs es ++ runs es' := List.filterMap_append

theorem lines_append : lines (es ++ es') = lines es ++ lines es' := List.filterMap_append

end

/-! ### The log -/

/-- What happens when the threads run that wait now. -/
def batchEvents (t : ThreadHost) : List ThreadEvent := t.waiting.flatMap t.host.runEvents

def batchesEvents : Nat → ThreadHost → List ThreadEvent
  | 0, _ => []
  | fuel + 1, t =>
    if t.waiting.isEmpty then [] else t.batchEvents ++ batchesEvents fuel t.joinBatch

def joinEvents (t : ThreadHost) : List ThreadEvent := batchesEvents t.pending t

/-- What happens to threads in a request. A start that is refused is answered and no more. -/
def eventsOf (t : ThreadHost) : Request → List ThreadEvent
  | .spawn task entry =>
    match t.host.outcome (task, entry) with
    | .started thread => [.started thread]
    | _ => []
  | .joinAll => t.joinEvents
  | _ => []

/-- What has happened to threads after these requests, the newest request first and the newest
event last. -/
def events : List Request → List ThreadEvent
  | [] => []
  | request :: older => events older ++ (after older).eventsOf request

/-! ### Starting threads -/

variable {t t' t'' : ThreadHost} {es es' : List ThreadEvent}

/-- Threads are started behind those that wait, and counted. -/
structure Grows (t : ThreadHost) (es : List ThreadEvent) (t' : ThreadHost) : Prop where
  waiting : t'.waiting = t.waiting ++ starts es
  record : t'.record = t.record ++ lines es
  spawned : t'.host.counters.spawned = t.host.counters.spawned + (starts es).length
  tasks : t'.host.tasks = t.host.tasks

theorem Grows.refl (t : ThreadHost) : Grows t [] t :=
  ⟨(List.append_nil _).symm, (List.append_nil _).symm, rfl, rfl⟩

theorem Grows.trans (h : Grows t es t') (h' : Grows t' es' t'') : Grows t (es ++ es') t'' where
  waiting := by rw [h'.waiting, h.waiting, starts_append, List.append_assoc]
  record := by rw [h'.record, h.record, lines_append, List.append_assoc]
  spawned := by rw [h'.spawned, h.spawned, starts_append, List.length_append, Nat.add_assoc]
  tasks := h'.tasks.trans h.tasks

/-- Steps that leave the tasks as they are can be taken one after the other. -/
theorem grows_foldl {α : Type} {events : Host → α → List ThreadEvent}
    {step : ThreadHost → α → ThreadHost}
    (hsame : ∀ {h h' : Host}, h'.tasks = h.tasks → events h' = events h)
    (hstep : ∀ t a, Grows t (events t.host a) (step t a)) (t : ThreadHost) (as : List α) :
    Grows t (as.flatMap (events t.host)) (as.foldl step t) := by
  induction as generalizing t with
  | nil => exact .refl t
  | cons a as ih =>
    have hmore := ih (step t a)
    rw [hsame (hstep t a).tasks] at hmore
    exact (hstep t a).trans hmore

/-- In a task that is not known a thread is refused and nothing changes; in one that is known it
is started and counted. -/
theorem hostSpawn_cases (h : Host) (start : TaskHandle × Entry) :
    (h.spawn start.1 = (.error .einval, h) ∧ h.outcome start = .refused start.2 .einval) ∨
      ∃ name host, h.spawn start.1 = (.ok name, host) ∧
        h.outcome start = .started (name, start.2) ∧ host.tasks = h.tasks ∧
        host.counters.spawned = h.counters.spawned + 1 := by
  unfold Host.spawn Host.outcome
  cases h.task? start.1 with
  | none => exact Or.inl ⟨rfl, rfl⟩
  | some record => exact Or.inr ⟨Host.threadName record, _, rfl, rfl, rfl, rfl⟩

theorem grows_spawnWithin (t : ThreadHost) (start : TaskHandle × Entry) :
    Grows t [t.host.outcome start] (t.spawnWithin start) := by
  unfold spawnWithin spawn
  rcases hostSpawn_cases t.host start with ⟨hs, ho⟩ | ⟨name, host, hs, ho, htasks, hspawned⟩ <;>
    rw [hs, ho]
  · exact ⟨(List.append_nil _).symm, rfl, rfl, rfl⟩
  · exact ⟨rfl, (List.append_nil _).symm, hspawned, htasks⟩

/-- A thread leaves its line and then starts those below it. -/
theorem grows_runThread (t : ThreadHost) (thread : String × Entry) :
    Grows t (t.host.runEvents thread) (t.runThread thread) := by
  have hline : Grows t [.ran thread]
      { t with record := t.record ++ [⟨thread.2.label, thread.1⟩] } :=
    ⟨(List.append_nil _).symm, rfl, rfl, rfl⟩
  have hstarts := grows_foldl
    (fun ht => congrArg (fun f start => [f start]) (Host.outcome_congr ht))
    grows_spawnWithin { t with record := t.record ++ [⟨thread.2.label, thread.1⟩] } thread.2.starts
  rw [Host.runEvents, List.map_eq_flatMap]
  exact hline.trans hstarts

theorem grows_joinBatch (t : ThreadHost) :
    Grows { t with waiting := [] } t.batchEvents t.joinBatch :=
  grows_foldl Host.runEvents_congr grows_runThread { t with waiting := [] } t.waiting

/-- What a thread starts has not run yet. -/
theorem runs_runEvents (h : Host) (thread : String × Entry) :
    runs (h.runEvents thread) = [thread] := by
  refine congrArg (thread :: ·) (List.filterMap_eq_nil_iff.2 fun e he => ?_)
  obtain ⟨start, -, rfl⟩ := List.mem_map.1 he
  unfold Host.outcome
  split <;> rfl

theorem runs_flatMap (h : Host) (threads : List (String × Entry)) :
    runs (threads.flatMap h.runEvents) = threads := by
  induction threads with
  | nil => rfl
  | cons thread threads ih =>
    rw [List.flatMap_cons, runs_append, runs_runEvents, ih, List.singleton_append]

/-! ### Joining comes to an end -/

/-- Threads in all the trees. -/
def weight (entries : List Entry) : Nat := entries.foldr (fun entry n => entry.size + n) 0

/-- The loop of joining, for as many batches as it takes. -/
inductive Drains : ThreadHost → List ThreadEvent → ThreadHost → Prop
  | done {t : ThreadHost} (empty : t.waiting = []) : Drains t [] t
  | batch {t t' : ThreadHost} {es : List ThreadEvent} (waits : t.waiting ≠ [])
    (more : Drains t.joinBatch es t') : Drains t (t.batchEvents ++ es) t'

theorem Drains.waiting (h : Drains t es t') : t'.waiting = [] := by
  induction h with
  | done empty => exact empty
  | batch _ _ ih => exact ih

/-- Threads run in the order in which they wait, and those that are started meanwhile after them. -/
theorem Drains.runs (h : Drains t es t') : runs es = t.waiting ++ starts es := by
  induction h with
  | @done t empty => rw [empty]; rfl
  | @batch t _ es _ _ ih =>
    have hwaiting : t.joinBatch.waiting = starts t.batchEvents := (grows_joinBatch t).waiting
    rw [runs_append, batchEvents, runs_flatMap, ih, hwaiting, batchEvents, starts_append]

/-- Nothing happens but what comes of the threads that run. -/
theorem Drains.events (h : Drains t es t') :
    es = (ThreadHost.runs es).flatMap t.host.runEvents := by
  induction h with
  | done empty => rfl
  | @batch t _ es _ _ ih =>
    have htasks : t.joinBatch.host.tasks = t.host.tasks := (grows_joinBatch t).tasks
    rw [Host.runEvents_congr htasks] at ih
    rw [runs_append, batchEvents, runs_flatMap, List.flatMap_append, ← ih]

theorem Drains.spawned (h : Drains t es t') :
    t'.host.counters.spawned = t.host.counters.spawned + (starts es).length := by
  induction h with
  | done empty => rfl
  | @batch t _ es _ _ ih =>
    have hspawned := (grows_joinBatch t).spawned
    rw [ih, hspawned, starts_append, List.length_append, Nat.add_assoc]

theorem Drains.record (h : Drains t es t') : t'.record = t.record ++ lines es := by
  induction h with
  | done empty => exact (List.append_nil _).symm
  | @batch t _ es _ _ ih =>
    have hrecord := (grows_joinBatch t).record
    rw [ih, hrecord, lines_append, List.append_assoc]

/-! ### Requests -/

end ThreadHost

/-! ### Panics -/

namespace Entry

mutual

/-- The same thread without a panic, and so all those below it. -/
def calm : Entry → Entry
  | mk label starts _ => mk label (calmAll starts) false

def calmAll : List (TaskHandle × Entry) → List (TaskHandle × Entry)
  | [] => []
  | (task, entry) :: starts => (task, entry.calm) :: calmAll starts

end

theorem calmAll_eq_map (starts : List (TaskHandle × Entry)) :
    calmAll starts = starts.map (Prod.map id calm) := by
  induction starts with
  | nil => rfl
  | cons start starts ih => rw [calmAll, ih]; rfl

@[simp] theorem label_calm (entry : Entry) : entry.calm.label = entry.label := by
  cases entry
  rfl

@[simp] theorem starts_calm (entry : Entry) :
    entry.calm.starts = entry.starts.map (Prod.map id calm) := by
  cases entry
  exact calmAll_eq_map _

end Entry

def ThreadEvent.calm : ThreadEvent → ThreadEvent
  | started thread => started (thread.1, thread.2.calm)
  | refused entry errno => refused entry.calm errno
  | ran thread => ran (thread.1, thread.2.calm)

def Request.calm : Request → Request
  | spawn task entry => spawn task entry.calm
  | request => request

namespace ThreadHost

/-- The same host, and none of its threads panics. -/
def calm (t : ThreadHost) : ThreadHost :=
  { t with waiting := t.waiting.map (Prod.map id Entry.calm) }

theorem outcome_calm (h : Host) (start : TaskHandle × Entry) :
    h.outcome (Prod.map id Entry.calm start) = (h.outcome start).calm := by
  simp only [Host.outcome, Prod.map_fst, Prod.map_snd, id]
  cases h.task? start.1 <;> rfl

theorem runEvents_calm (h : Host) (thread : String × Entry) :
    h.runEvents (Prod.map id Entry.calm thread) = (h.runEvents thread).map .calm := by
  simp only [Host.runEvents, Prod.map_snd, Entry.starts_calm, List.map_map, List.map_cons]
  exact congrArg (_ :: ·) (List.map_congr_left fun start _ => outcome_calm h start)

theorem batchEvents_calm (t : ThreadHost) : t.calm.batchEvents = t.batchEvents.map .calm := by
  unfold batchEvents calm
  rw [List.flatMap_map, List.map_flatMap]
  exact congrArg (t.waiting.flatMap ·) (funext (runEvents_calm t.host))

theorem spawn_calm (t : ThreadHost) (task : TaskHandle) (entry : Entry) :
    t.calm.spawn task entry.calm = ((t.spawn task entry).1, (t.spawn task entry).2.calm) := by
  simp only [spawn, calm]
  rcases hostSpawn_cases t.host (task, entry) with ⟨hs, -⟩ | ⟨name, host, hs, -⟩ <;> simp [hs]

theorem spawnWithin_calm (t : ThreadHost) (start : TaskHandle × Entry) :
    t.calm.spawnWithin (Prod.map id Entry.calm start) = (t.spawnWithin start).calm := by
  simp only [spawnWithin, Prod.map_fst, Prod.map_snd, id, spawn_calm, Entry.label_calm]
  generalize t.spawn start.1 start.2 = out
  obtain ⟨refusal, t'⟩ := out
  cases refusal <;> rfl

theorem foldl_calm {α : Type} {g : α → α} {step : ThreadHost → α → ThreadHost}
    (hstep : ∀ t a, step t.calm (g a) = (step t a).calm) (t : ThreadHost) (as : List α) :
    (as.map g).foldl step t.calm = (as.foldl step t).calm := by
  induction as generalizing t with
  | nil => rfl
  | cons a as ih => rw [List.map_cons, List.foldl_cons, hstep, ih, List.foldl_cons]

theorem runThread_calm (t : ThreadHost) (thread : String × Entry) :
    t.calm.runThread (Prod.map id Entry.calm thread) = (t.runThread thread).calm := by
  simp only [runThread, Prod.map_fst, Prod.map_snd, id, Entry.label_calm, Entry.starts_calm]
  exact foldl_calm spawnWithin_calm
    { t with record := t.record ++ [⟨thread.2.label, thread.1⟩] } thread.2.starts

theorem joinBatch_calm (t : ThreadHost) : t.calm.joinBatch = t.joinBatch.calm :=
  foldl_calm runThread_calm { t with waiting := [] } t.waiting

theorem Drains.calm {t t' : ThreadHost} {es : List ThreadEvent} (h : Drains t es t') :
    Drains t.calm (es.map .calm) t'.calm := by
  induction h with
  | done empty => exact .done (by rw [ThreadHost.calm, empty]; rfl)
  | @batch t t' es waits more ih =>
    rw [List.map_append, ← batchEvents_calm]
    exact .batch (by simpa [ThreadHost.calm] using waits) (joinBatch_calm t ▸ ih)

/-- A thread that starts another: both have run after joining. -/
example : (runs (events [.joinAll, .spawn ⟨1⟩ (.mk (0, 0) [(⟨1⟩, .mk (0, 1) [] false)] true),
    .createTask "outer"])).map (·.2.label) = [(0, 0), (0, 1)] := by
  decide

end ThreadHost

end Lifecycle
