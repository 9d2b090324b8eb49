import Lifecycle.Host.Threads

/-! A host worked one call at a time. Threads are labelled by the number of
threads asked for before them; a thread started by another has a one beside it. -/

namespace Lifecycle

/-- What a thread started by a script does. -/
inductive EntryKind
  | plain
  /-- Start one more thread in the same task. -/
  | nested
  | panic
deriving DecidableEq

def EntryKind.entry (kind : EntryKind) (task : TaskHandle) (index : Nat) : Entry :=
  match kind with
  | plain => .mk (index, 0) [] false
  | nested => .mk (index, 0) [(task, .mk (index, 1) [] false)] false
  | panic => .mk (index, 0) [] true

inductive HostStep
  | createTask (name : String)
  | destroyTask (task : TaskHandle)
  | attach (task : TaskHandle) (pid : Pid)
  | detach (task : TaskHandle)
  | cloneAddressSpace (src dst : TaskHandle)
  | cloneFdTable (src dst : TaskHandle)
  | destroyFdTable (task : TaskHandle)
  | spawn (task : TaskHandle) (kind : EntryKind)
  | terminate (task : TaskHandle)
  | task (task : TaskHandle)
  | joinAll

inductive HostReply
  | created (task : TaskHandle)
  | nothing
  | answer (refusal : Option Errno)
  | record (record : Option TaskRecord)
  | joined (record : List ThreadRecord)

structure HostRun where
  threads : ThreadHost := {}
  /-- Threads asked for so far. -/
  asked : Nat := 0

namespace HostRun

def onHost (r : HostRun) (f : Host → Host) : HostRun :=
  { r with threads := { r.threads with host := f r.threads.host } }

/-- By label. -/
def sorted (record : List ThreadRecord) : List ThreadRecord :=
  record.mergeSort fun a b =>
    a.label.1 < b.label.1 || (a.label.1 == b.label.1 && a.label.2 ≤ b.label.2)

def step (r : HostRun) : HostStep → HostReply × HostRun
  | .createTask name =>
    let (task, host) := r.threads.host.createTask name
    (.created task, r.onHost fun _ => host)
  | .destroyTask task => (.nothing, r.onHost (·.destroyTask task))
  | .attach task pid => (.nothing, r.onHost (·.attach task pid))
  | .detach task => (.nothing, r.onHost (·.detach task))
  | .cloneAddressSpace src dst =>
    let (refusal, host) := r.threads.host.cloneAddressSpace src dst
    (.answer refusal, r.onHost fun _ => host)
  | .cloneFdTable src dst =>
    let (refusal, host) := r.threads.host.cloneFdTable src dst
    (.answer refusal, r.onHost fun _ => host)
  | .destroyFdTable task => (.nothing, r.onHost (·.destroyFdTable task))
  | .spawn task kind =>
    let (refusal, threads) := r.threads.spawn task (kind.entry task r.asked)
    (.answer refusal, ⟨threads, r.asked + 1⟩)
  | .terminate task => (.nothing, r.onHost (·.terminate task))
  | .task task => (.record (r.threads.host.task? task), r)
  | .joinAll =>
    let threads := r.threads.joinAll
    (.joined (sorted threads.record), { r with threads := { threads with record := [] } })

/-- The reply to each step with the host after it. -/
def run (r : HostRun) : List HostStep → List (HostReply × Host)
  | [] => []
  | s :: steps =>
    let (reply, r) := r.step s
    (reply, r.threads.host) :: run r steps

end HostRun

end Lifecycle
