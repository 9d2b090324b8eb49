import Lifecycle.Kernel

/-! Forking. A fork and a creation stop before each call to the host that may
refuse, so that other work can come in between; what is left to do is a value,
and resuming it makes the call. A fork that fails unwinds what it has done. -/

namespace Lifecycle

/-- A fork or creation that has stopped before a call to the host. -/
inductive Pending
  /-- A block is to be made for a pid, and nothing else. -/
  | create (pid : Pid) (name : String)
  /-- The child's block is to be made. -/
  | forkTask (parent : BlockId) (pid : Pid)
  | forkSpace (parent child : BlockId)
  | forkFiles (parent child : BlockId)
  | forkThread (parent child : BlockId)
deriving DecidableEq

namespace Pending

/-- The call it has stopped before. -/
def service : Pending → HostService
  | create _ _ => .createTask
  | forkTask _ _ => .createTask
  | forkSpace _ _ => .cloneAddressSpace
  | forkFiles _ _ => .cloneFdTable
  | forkThread _ _ => .spawn

/-- The block a fork under way holds a reference on. -/
def parent? : Pending → Option BlockId
  | create _ _ => none
  | forkTask parent _ => some parent
  | forkSpace parent _ => some parent
  | forkFiles parent _ => some parent
  | forkThread parent _ => some parent

end Pending

/-- What beginning or resuming comes to. -/
inductive Progress
  | stopped (pending : Pending)
  | created (block : BlockId)
  /-- The child, and the name of its thread. -/
  | forked (child : Pid) (thread : String)
  | failed (error : ProcessError)
deriving DecidableEq

namespace Kernel

/-- Tear down a child whose fork failed. Whoever has looked it up finds it reaped. -/
def abandon (k : Kernel) (child : BlockId) : Kernel :=
  ((k.update child fun block => { block with exiting := true, exited := true, reaped := true })
    |>.release child).2

/-- End a fork by giving back the reference on the parent. -/
def endFork (k : Kernel) (parent : BlockId) (progress : Progress) : Progress × Kernel :=
  (progress, (k.release parent).2)

def beginCreate (k : Kernel) (name : String) : Progress × Kernel :=
  match k.reserve with
  | (.error error, k) => (.failed error, k)
  | (.ok pid, k) => (.stopped (.create pid name), k)

def beginFork (k : Kernel) (parent : Pid) : Progress × Kernel :=
  if !k.live then (.failed .shutDown, k)
  else match k.get parent with
    | (none, k) => (.failed (.noSuchProcess (signedPid parent)), k)
    | (some b, k) =>
      match k.reserve with
      | (.error error, k) => k.endFork b (.failed error)
      | (.ok pid, k) => (.stopped (.forkTask b pid), k)

/-- Link the child under its parent, unless that has begun to exit. -/
def linkChild (k : Kernel) (parent child : BlockId) : Progress × Kernel :=
  if (k.block parent).exiting then
    (k.abandon child).endFork parent (.failed (.noSuchProcess (signedPid (k.block parent).pid)))
  else
    let k := k.attach child parent
    (.stopped (.forkThread parent child),
      k.attachThread (k.block child).task (k.block child).pid)

/-- Make the call that is due, or have it refused, and go on to the next. -/
def resume (k : Kernel) (pending : Pending) (refusal : Option Errno) : Progress × Kernel :=
  match pending with
  | .create pid name =>
    match k.make pid name refusal with
    | (.error error, k) => (.failed error, k)
    | (.ok b, k) => (.created b, k)
  | .forkTask parent pid =>
    match k.make pid (k.block parent).name refusal with
    | (.error error, k) => k.endFork parent (.failed error)
    | (.ok child, k) => (.stopped (.forkSpace parent child), k)
  | .forkSpace parent child =>
    match k.cloneAddressSpace (k.block parent).task (k.block child).task refusal with
    | (some errno, k) =>
      (k.abandon child).endFork parent (.failed (.host .cloneAddressSpace errno))
    | (none, k) => (.stopped (.forkFiles parent child), k)
  | .forkFiles parent child =>
    match k.cloneFdTable (k.block parent).task (k.block child).task refusal with
    | (some errno, k) => (k.abandon child).endFork parent (.failed (.host .cloneFdTable errno))
    | (none, k) => k.linkChild parent child
  | .forkThread parent child =>
    match k.spawnThread (k.block child).task refusal with
    | (.error errno, k) =>
      ((k.detachThread (k.block child).task).abandon child).endFork parent
        (.failed (.host .spawn errno))
    | (.ok thread, k) => k.endFork parent (.forked (k.block child).pid thread)

/-- Go on without interruption; `refusal` says which calls are refused. Four
calls are the most there are. -/
def finish (refusal : HostService → Option Errno) :
    Nat → Progress × Kernel → Progress × Kernel
  | 0, out => out
  | fuel + 1, (.stopped pending, k) =>
    finish refusal fuel (k.resume pending (refusal pending.service))
  | _ + 1, out => out

/-- A fork that nothing interrupts. -/
def fork (k : Kernel) (parent : Pid) (refusal : HostService → Option Errno) :
    Progress × Kernel :=
  finish refusal 4 (k.beginFork parent)

/-- A creation that nothing interrupts. -/
def create (k : Kernel) (name : String) (refusal : Option Errno) : Progress × Kernel :=
  finish (fun _ => refusal) 1 (k.beginCreate name)

end Kernel

end Lifecycle
