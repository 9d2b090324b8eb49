import Lifecycle.Block.State
import Lifecycle.ExitStatus
import Lifecycle.Ident
import Lifecycle.Text.Quoted

/-! Control blocks. A block counts the references held on it: the table has one
from the block's creation until it is reaped, and every lookup has one more.
The release that takes the count to zero, and no other, answers true. -/

namespace Lifecycle

structure Block where
  pid : Pid
  name : String
  /-- None for the kernel. -/
  parent : Option Pid
  refCount : Nat
  /-- Exit has begun; no child may be linked any more. -/
  exiting : Bool
  /-- Exit is complete and `code` is valid. -/
  exited : Bool
  /-- A parent is committed to waiting. -/
  waiter : Bool
  /-- The status is consumed, or nobody ever will consume it. -/
  reaped : Bool
  code : RawStatus
  task : TaskHandle
  /-- The task has been given up. -/
  taskReleased : Bool
deriving DecidableEq

namespace Block

/-- A block of the kernel's, with one reference. -/
def fresh (pid : Pid) (name : String) (task : TaskHandle) : Block where
  pid := pid
  name := name
  parent := some kernelPid
  refCount := 1
  exiting := false
  exited := false
  waiter := false
  reaped := false
  code := 0
  task := task
  taskReleased := false

/-- The kernel's own block, which has no parent. -/
def kernel (name : String) (task : TaskHandle) : Block :=
  { fresh kernelPid name task with parent := none }

instance : Inhabited Block := ⟨{ fresh 0 "" ⟨0⟩ with refCount := 0 }⟩

def isKernel (b : Block) : Bool := b.pid == kernelPid

def state (b : Block) : ProcessState :=
  if b.reaped then .reaped else if b.exited then .zombie else .running

/-- Point the block at its parent. -/
def adopt (b : Block) (parent : Pid) : Block :=
  { b with parent := if parent = noParent then none else some parent }

def describe (b : Block) : String :=
  let parent := match b.parent with
    | some pid => s!"Some({pid})"
    | none => "None"
  "ProcessControlBlock \x7b pid: " ++ toString b.pid ++ ", name: " ++ Text.quote b.name
    ++ ", parent_pid: " ++ parent ++ ", ref_count: " ++ toString b.refCount ++ ", .. \x7d"

end Block

end Lifecycle
