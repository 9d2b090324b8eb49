import Lifecycle.Kernel

/-! Exiting. The children are handed on before the process publishes its own
exit, so that none is left under a parent that is gone: the running ones move
under the kernel, the exited ones that nobody waited for are reaped. -/

namespace Lifecycle

/-- How a process left the table. -/
inductive ExitPath
  /-- Its status waits to be collected. -/
  | zombie
  /-- Nobody could collect its status, and its block was given up at once. -/
  | reaped
deriving DecidableEq

def ExitPath.name : ExitPath → String
  | .zombie => "zombie"
  | .reaped => "reaped"

namespace Kernel

/-- Take a reference on one detached child, if it is still there; the children
held so far come last first. -/
def holdChild (parent : Pid) (out : List BlockId × Kernel) (pid : Pid) : List BlockId × Kernel :=
  match out.2.pids.getRetained out.2.blocks pid with
  | none => out
  | some (b, blocks) =>
    let k := { out.2 with blocks := blocks }
    (b :: out.1, if (k.block b).parent = some parent then k else k.halt (.wrongParent pid))

/-- Empty a parent's list and hold the children that were in it, in its order. -/
def holdChildren (k : Kernel) (parent : Pid) : List BlockId × Kernel :=
  let (held, k) := (k.family.childrenOf parent).foldl (holdChild parent)
    ([], { k with family := k.family.detachAll parent })
  (held.reverse, k)

/-- Move a running child under the kernel and reap an exited one. -/
def rehome (k : Kernel) (child : BlockId) : Kernel :=
  if !(k.block child).exited then k.attach child root
  else if !(k.block child).reaped then
    ((k.update child fun block => { block with reaped := true }).release child).2
  else k

/-- Hand on the children of a process that has begun to exit. -/
def rearrangeChildren (k : Kernel) (parent : Pid) : Kernel :=
  let (held, k) := k.holdChildren parent
  held.foldl (fun k b => (k.release b).2) (held.foldl rehome k)

/-- Let exit begin; the kernel must not, and nobody twice. -/
def beginExit (k : Kernel) (b : BlockId) : Kernel :=
  let k := if (k.block b).isKernel then k.halt .kernelExits else k
  let k := if (k.block b).exiting then k.halt (.exitedTwice (k.block b).pid) else k
  k.update b fun block => { block with exiting := true }

/-- Publish the status, or give the block up if its parent is the kernel and
nobody waits. -/
def publishExit (k : Kernel) (b : BlockId) (status : RawStatus) : ExitPath × Kernel :=
  let k := k.update b fun block => { block with exited := true, code := status }
  if (k.block b).parent = some kernelPid ∧ (k.block b).waiter = false then
    let k := k.update b fun block => { block with reaped := true }
    (.reaped, ((k.detachThread (k.block b).task).release b).2)
  else (.zombie, k.detachThread (k.block b).task)

/-- Run the exit of a process. None if it cannot be found, as in a table that is
shut down. -/
def exit (k : Kernel) (pid : Pid) (status : RawStatus) : Option ExitPath × Kernel :=
  match k.get pid with
  | (none, k) => (none, k)
  | (some b, k) =>
    let k := (k.beginExit b).rearrangeChildren (k.block b).pid
    let (path, k) := k.publishExit b status
    (some path, (k.release b).2)

/-- The task of a process that can be found. -/
def taskOf? (k : Kernel) (pid : Pid) : Option TaskHandle × Kernel :=
  match k.get pid with
  | (none, k) => (none, k)
  | (some b, k) => (some (k.block b).task, (k.release b).2)

/-- Exit, and end the thread that called it. -/
def exitThread (k : Kernel) (pid : Pid) (status : ExitStatus) : Option ExitPath × Kernel :=
  match k.taskOf? pid with
  | (none, k) => k.exit pid status.encode
  | (some task, k) =>
    let (path, k) := k.exit pid status.encode
    (path, k.terminateThread task)

end Kernel

end Lifecycle
