import Lifecycle.Kernel.Exit
import Lifecycle.Kernel.Fork
import Lifecycle.Kernel.Shutdown
import Lifecycle.Kernel.View
import Lifecycle.Kernel.Wait

/-! A kernel with all that goes on around it: the execution contexts of forked
processes, numbered slots that hold references, waits that sleep, and forks that
have stopped before a call to the host. One move changes a session at a time;
while a fork is stopped, other moves may come first, which is how a call to the
host runs further work. A sleeping wait is finished by the move in which its
target leaves the running state. -/

namespace Lifecycle

/-- How a call reaches the table: through a context, through the system calls of
one, or directly. -/
inductive Via
  | context
  | syscall
  | table
deriving DecidableEq

/-- The context that a call goes through and keeps in use, if its process has the
given one. A direct call needs none, and the kernel has its own, which is no process's. -/
def Via.through (via : Via) (pid : Pid) (context : Option Nat) : Option Nat :=
  match via with
  | .table => none
  | .context => if pid = kernelPid then none else context
  | .syscall => context

/-- A call keeps no context in use but that of its process. -/
theorem Via.of_through {via : Via} {pid : Pid} {context : Option Nat} {n : Nat}
    (h : via.through pid context = some n) : context = some n := by
  cases via with
  | table => cases h
  | context =>
    dsimp only [through] at h
    split at h
    · cases h
    · exact h
  | syscall => exact h

/-- What a slot holds: a counted reference, or a bare block. -/
inductive Slot
  | ref (block : BlockId)
  | bare (block : BlockId)
deriving DecidableEq

namespace Slot

def block : Slot → BlockId
  | ref b => b
  | bare b => b

/-- A block as the holder of a slot sees it. -/
def info (slot : Slot) (k : Kernel) : BlockInfo :=
  let info := (k.block slot.block).info
  match slot with
  | ref _ => { info with description := "ProcessRef(" ++ info.description ++ ")" }
  | bare _ => info

end Slot

/-- Why a fork or creation was begun. A fork keeps the context in use that it was
made through. -/
inductive Purpose
  | fork (via : Via) (context : Option Nat)
  | create (slot : Nat)
deriving DecidableEq

structure Frame where
  pending : Pending
  purpose : Purpose
deriving DecidableEq

/-- A wait that sleeps. -/
structure ParkedWait where
  id : Nat
  block : BlockId
  caller : Pid
  via : Via
  /-- The context its caller had, whether or not the wait goes through it. -/
  context : Option Nat
  /-- Where the status is to be copied, with what is there now. -/
  destination : Option RawStatus
deriving DecidableEq

/-- The context that a wait keeps in use while it sleeps. -/
def ParkedWait.kept (w : ParkedWait) : Option Nat := w.via.through w.caller w.context

structure Session where
  kernel : Kernel
  /-- The context of each process, by a number that no two contexts share. -/
  contexts : Assoc Pid Nat := .empty
  nextContext : Nat := 0
  slots : Assoc Nat Slot := .empty
  /-- In the order in which they were parked. -/
  parked : List ParkedWait := []
  nextWait : Nat := 0
  /-- Forks and creations that have stopped, the innermost first. -/
  frames : List Frame := []

/-- A finished wait: its result, and the destination after it. -/
structure WaitReport where
  via : Via
  result : Except ProcessError (Pid × RawStatus)
  destination : Option RawStatus

structure Woken where
  id : Nat
  report : WaitReport

inductive Move
  | fork (pid : Pid) (via : Via)
  | create (name : String) (slot : Nat)
  /-- Make the call that the innermost fork has stopped before, or refuse it. -/
  | resume (refusal : Option Errno)
  | exit (pid : Pid) (status : ExitStatus)
  | wait (caller : Pid) (target : Int64) (options : Int32) (via : Via)
      (destination : Option RawStatus)
  | get (pid : Pid) (slot : Nat)
  | clone (slot target : Nat)
  | release (slot : Nat)
  | drop (slot : Nat)
  | overRelease (slot : Nat)
  | shutdown

inductive Reply
  | stopped (service : HostService)
  | forked (via : Via) (result : Except ProcessError (Pid × String))
  | created (result : Except ProcessError BlockInfo)
  | exited (pid : Pid) (path : Option ExitPath)
  | waited (report : WaitReport)
  | blocked (id : Nat)
  | got (info : Option BlockInfo)
  | cloned (info : BlockInfo)
  | released (last : Bool)
  | dropped
  | leaked (pids : List Pid)
  | noContext
  | busy
  | emptySlot
  /-- There was nothing to do. -/
  | idle

namespace Session

/-- Whether a process has what a call of this kind goes through. The kernel's
context is always there, and a direct call needs none. -/
def canCall (s : Session) (via : Via) (pid : Pid) : Bool :=
  match via with
  | .table => true
  | .context => pid == kernelPid || s.contexts.contains pid
  | .syscall => s.contexts.contains pid

/-- The context that a fork goes through and keeps in use. -/
def forkContext? (s : Session) (via : Via) (pid : Pid) : Option Nat :=
  via.through pid (s.contexts.get? pid)

/-- Whether a sleeping wait or a stopped fork keeps the context in use. -/
def isBusy (s : Session) (context : Nat) : Bool :=
  s.parked.any (·.kept == some context) || s.frames.any fun f =>
    match f.purpose with
    | .fork _ c => c == some context
    | .create _ => false

/-! ### Slots -/

/-- Give back what a slot held. -/
def discard (s : Session) : Option Slot → Session
  | some (.ref b) => { s with kernel := (s.kernel.release b).2 }
  | _ => s

/-- Fill a slot; what it held before is dropped afterwards. -/
def store (s : Session) (slot : Nat) (content : Slot) : Session :=
  { s with slots := s.slots.insert slot content }.discard (s.slots.get? slot)

/-- Empty a slot without giving anything back. -/
def vacate (s : Session) (slot : Nat) : Session := { s with slots := s.slots.erase slot }

/-- Act on the content of a slot that is not empty. -/
def withSlot (s : Session) (slot : Nat) (act : Slot → Reply × Session) : Reply × Session :=
  match s.slots.get? slot with
  | some content => act content
  | none => (.emptySlot, s)

/-! ### Moves -/

/-- Take the result of beginning or resuming a fork or creation. A forked child
gets a context of its own. -/
def proceed (s : Session) (purpose : Purpose) (progress : Progress) : Reply × Session :=
  match progress, purpose with
  | .stopped pending, _ =>
    (.stopped pending.service, { s with frames := ⟨pending, purpose⟩ :: s.frames })
  | .created b, .create slot =>
    (.created (.ok (s.kernel.block b).info), s.store slot (.bare b))
  | .created _, .fork _ _ => (.idle, s)
  | .forked child thread, .fork via _ =>
    (.forked via (.ok (child, thread)),
      { s with
        contexts := s.contexts.insert child s.nextContext
        nextContext := s.nextContext + 1 })
  | .forked _ _, .create _ => (.idle, s)
  | .failed error, .fork via _ => (.forked via (.error error), s)
  | .failed error, .create _ => (.created (.error error), s)

/-- The destination after a wait: overwritten by success alone. -/
def copyOut (destination : Option RawStatus) :
    Except ProcessError (Pid × RawStatus) → Option RawStatus
  | .ok (_, status) => destination.map fun _ => status
  | .error _ => destination

def exit (s : Session) (pid : Pid) (status : ExitStatus) : Reply × Session :=
  match s.contexts.get? pid with
  | none => (.noContext, s)
  | some context =>
    if s.isBusy context then (.busy, s)
    else
      let (path, kernel) := s.kernel.exitThread pid status
      (.exited pid path, { s with kernel := kernel, contexts := s.contexts.erase pid })

def wait (s : Session) (caller : Pid) (target : Int64) (options : Int32) (via : Via)
    (destination : Option RawStatus) : Reply × Session :=
  if !s.canCall via caller then (.noContext, s)
  else match s.kernel.wait caller target options with
    | (.done result, kernel) =>
      (.waited ⟨via, result, copyOut destination result⟩, { s with kernel := kernel })
    | (.asleep b, kernel) =>
      (.blocked s.nextWait,
        { s with
          kernel := kernel
          parked := s.parked ++
            [⟨s.nextWait, b, caller, via, s.contexts.get? caller, destination⟩]
          nextWait := s.nextWait + 1 })

/-- Carry a move out, leaving the sleeping waits as they are. -/
def act (s : Session) : Move → Reply × Session
  | .fork pid via =>
    if !s.canCall via pid then (.noContext, s)
    else
      let (progress, kernel) := s.kernel.beginFork pid
      { s with kernel := kernel }.proceed (.fork via (s.forkContext? via pid)) progress
  | .create name slot =>
    let (progress, kernel) := s.kernel.beginCreate name
    { s with kernel := kernel }.proceed (.create slot) progress
  | .resume refusal =>
    match s.frames with
    | [] => (.idle, s)
    | frame :: frames =>
      let (progress, kernel) := s.kernel.resume frame.pending refusal
      { s with kernel := kernel, frames := frames }.proceed frame.purpose progress
  | .exit pid status => s.exit pid status
  | .wait caller target options via destination => s.wait caller target options via destination
  | .get pid slot =>
    match s.kernel.get pid with
    | (none, kernel) => (.got none, { s with kernel := kernel })
    | (some b, kernel) =>
      (.got (some (kernel.block b).info), { s with kernel := kernel }.store slot (.ref b))
  | .clone slot target => s.withSlot slot fun content =>
      let kernel := match content with
        | .ref b => s.kernel.retain b
        | .bare _ => s.kernel
      (.cloned (kernel.block content.block).info, { s with kernel := kernel }.store target content)
  | .release slot => s.withSlot slot fun content =>
      let (last, kernel) := s.kernel.release content.block
      (.released last, { s with kernel := kernel }.vacate slot)
  | .drop slot => s.withSlot slot fun content =>
      (.dropped, (s.vacate slot).discard (some content))
  | .overRelease slot => s.withSlot slot fun content =>
      let (last, kernel) := s.kernel.release content.block
      (.released last, { s with kernel := kernel })
  | .shutdown =>
    let (pids, kernel) := s.kernel.shutdown
    (.leaked pids, { s with kernel := kernel })

/-! ### Waking -/

/-- Whether a wait can be finished. -/
def isDue (k : Kernel) (w : ParkedWait) : Bool := (k.block w.block).state != .running

/-- Finish one wait; those finished before it come last first. -/
def wakeOne (out : List Woken × Session) (w : ParkedWait) : List Woken × Session :=
  let (result, kernel) := out.2.kernel.wake w.block
  (⟨w.id, ⟨w.via, result, copyOut w.destination result⟩⟩ :: out.1,
    { out.2 with kernel := kernel })

/-- Finish every sleeping wait whose target is no longer running. -/
def settle (s : Session) : List Woken × Session :=
  let out := (s.parked.filter (isDue s.kernel)).foldl wakeOne
    ([], { s with parked := s.parked.filter fun w => !isDue s.kernel w })
  (out.1.reverse, out.2)

/-- One move, and the waits it wakes. -/
def step (s : Session) (move : Move) : Reply × List Woken × Session :=
  let (reply, s) := s.act move
  (reply, s.settle)

/-- The state after a sequence of moves; nothing moves after a fault. -/
def run (s : Session) (moves : List Move) : Session :=
  moves.foldl (fun s move => if s.kernel.fault.isSome then s else (s.step move).2.2) s

@[simp] theorem run_nil (s : Session) : s.run [] = s := rfl

theorem run_cons (s : Session) (move : Move) (moves : List Move) :
    s.run (move :: moves) =
      (if s.kernel.fault.isSome then s else (s.step move).2.2).run moves := rfl

theorem run_append (s : Session) (moves more : List Move) :
    s.run (moves ++ more) = (s.run moves).run more := by
  simp [run, List.foldl_append]

/-- A session around a new table. -/
def boot (config : Config) (refusal : Option Errno) :
    Except (ProcessError × List HostCall) Session :=
  (Kernel.boot config refusal).map fun kernel => { kernel := kernel }

end Session

end Lifecycle
