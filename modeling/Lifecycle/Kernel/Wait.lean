import Lifecycle.Kernel

/-! Waiting. A wait looks its target up, checks that the caller may wait and
commits; if the target has exited it collects the status, else it sleeps, and is
finished when the target has left the running state. -/

namespace Lifecycle

/-- What a call to wait comes to. -/
inductive WaitOutcome
  | done (result : Except ProcessError (Pid × RawStatus))
  /-- The call sleeps on the block, with a reference on it. -/
  | asleep (block : BlockId)

namespace Kernel

/-- The pid a target names, if a user process can have it. -/
def targetPid? (k : Kernel) (target : Int64) : Option Pid :=
  if 0 < target.toInt ∧ target.toInt < k.pids.capacity then some (UInt32.ofNat target.toInt.toNat)
  else none

/-- Give back the lookup's reference and answer. -/
def endWait (k : Kernel) (b : BlockId) (result : Except ProcessError (Pid × RawStatus)) :
    WaitOutcome × Kernel :=
  (.done result, (k.release b).2)

/-- Consume the status of an exited block: the table's reference goes, then the
waiter's own. -/
def collect (k : Kernel) (b : BlockId) : Except ProcessError (Pid × RawStatus) × Kernel :=
  let result := ((k.block b).pid, (k.block b).code)
  let k := k.update b fun block => { block with reaped := true }
  (.ok result, ((k.release b).2.release b).2)

/-- The part of a wait that comes after the lookup. -/
def commitWait (k : Kernel) (caller pid : Pid) (b : BlockId) : WaitOutcome × Kernel :=
  if (k.block b).parent ≠ some caller then k.endWait b (.error (.notChild pid caller))
  else if (k.block b).reaped then k.endWait b (.error (.noSuchProcess (signedPid pid)))
  else if (k.block b).waiter then k.endWait b (.error (.alreadyWaited pid))
  else
    let k := k.update b fun block => { block with waiter := true }
    if (k.block b).exited then
      let (result, k) := k.collect b
      (.done result, k)
    else (.asleep b, k)

def wait (k : Kernel) (caller : Pid) (target : Int64) (options : Int32) :
    WaitOutcome × Kernel :=
  if options ≠ 0 then (.done (.error (.invalidOptions options)), k)
  else match k.targetPid? target with
    | none => (.done (.error (.noSuchProcess target)), k)
    | some pid =>
      match k.get pid with
      | (none, k) => (.done (.error (.noSuchProcess target)), k)
      | (some b, k) => k.commitWait caller pid b

/-- Finish a wait that slept on the block. A block already reaped belongs to a
fork that failed. -/
def wake (k : Kernel) (b : BlockId) : Except ProcessError (Pid × RawStatus) × Kernel :=
  if (k.block b).reaped then
    (.error (.noSuchProcess (signedPid (k.block b).pid)), (k.release b).2)
  else k.collect b

end Kernel

end Lifecycle
