import Lifecycle.Host

/-! Threads of the host, which run when they are joined. What a thread does is
a tree: it leaves its label in the record, starts the threads below it and may
panic at its end. Joining runs the waiting threads, then those that they
started, until none is left; a panic stops nobody else. -/

namespace Lifecycle

/-- What a thread does when it runs. -/
inductive Entry where
  | mk (label : Nat × Nat) (starts : List (TaskHandle × Entry)) (panics : Bool)

namespace Entry

def label : Entry → Nat × Nat
  | mk label _ _ => label

def starts : Entry → List (TaskHandle × Entry)
  | mk _ starts _ => starts

mutual

/-- Number of threads in the tree. -/
def size : Entry → Nat
  | mk _ starts _ => sizeAll starts + 1

def sizeAll : List (TaskHandle × Entry) → Nat
  | [] => 0
  | (_, e) :: es => e.size + sizeAll es

end

end Entry

/-- A line of the record: a thread's label with its name, or with the error that
kept it from starting. -/
structure ThreadRecord where
  label : Nat × Nat
  text : String
deriving DecidableEq

structure ThreadHost where
  host : Host := {}
  /-- Threads started and not yet run, oldest first, with their names. -/
  waiting : List (String × Entry) := []
  /-- Oldest first. -/
  record : List ThreadRecord := []

namespace ThreadHost

/-- Start a thread that will run at the next joining. -/
def spawn (t : ThreadHost) (task : TaskHandle) (entry : Entry) : Option Errno × ThreadHost :=
  match t.host.spawn task with
  | (.error errno, host) => (some errno, { t with host := host })
  | (.ok name, host) => (none, { t with host := host, waiting := t.waiting ++ [(name, entry)] })

/-- Start a thread from within a thread; a refusal goes into the record. -/
def spawnWithin (t : ThreadHost) (start : TaskHandle × Entry) : ThreadHost :=
  match t.spawn start.1 start.2 with
  | (none, t) => t
  | (some errno, t) => { t with record := t.record ++ [⟨start.2.label, errno.describe⟩] }

/-- Run one thread. -/
def runThread (t : ThreadHost) (thread : String × Entry) : ThreadHost :=
  thread.2.starts.foldl spawnWithin
    { t with record := t.record ++ [⟨thread.2.label, thread.1⟩] }

/-- Run the threads waiting now, leaving those they start. -/
def joinBatch (t : ThreadHost) : ThreadHost :=
  t.waiting.foldl runThread { t with waiting := [] }

/-- Number of threads that waiting ones may still run, themselves included. -/
def pending (t : ThreadHost) : Nat := t.waiting.foldr (fun thread n => thread.2.size + n) 0

/-- Join up to `fuel` batches. -/
def joinBatches : Nat → ThreadHost → ThreadHost
  | 0, t => t
  | fuel + 1, t => if t.waiting.isEmpty then t else joinBatches fuel t.joinBatch

/-- Run every thread, those included that threads start meanwhile. -/
def joinAll (t : ThreadHost) : ThreadHost := joinBatches t.pending t

end ThreadHost

end Lifecycle
