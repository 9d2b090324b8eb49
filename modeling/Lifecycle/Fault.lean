import Lifecycle.Ident

/-! Violated internal checks. A run ends at its first fault. -/

namespace Lifecycle

inductive Fault
  /-- Allocation found a block at a pid that was free. -/
  | occupiedWhenFree (pid : Pid)
  /-- More pids would be free than there are. -/
  | tooManyFree
  | outOfRange (pid : Pid)
  | wrongPid (own pid : Pid)
  | neverAllocated (pid : Pid)
  | alreadyInstalled (pid : Pid)
  | differentBlock (pid : Pid)
  | alreadyLinked (child parent : Pid)
  | wrongParent (child : Pid)
  | deadRetain (pid : Pid)
  | exitedTwice (pid : Pid)
  | kernelExits
  | kernelElsewhere
deriving DecidableEq

def Fault.message : Fault → String
  | occupiedWhenFree pid => s!"pid {pid} is free and holds a control block"
  | tooManyFree => "more pids are free than there are"
  | outOfRange pid => s!"pid {pid} out of range"
  | wrongPid own pid => s!"installing block {own} at pid {pid}"
  | neverAllocated pid => s!"installing pid {pid} that was never allocated"
  | alreadyInstalled pid => s!"pid {pid} already installed"
  | differentBlock pid => s!"pid {pid} held a different control block"
  | alreadyLinked child parent => s!"pid {child} is already linked under Some({parent})"
  | wrongParent child => s!"child {child} linked under the wrong parent"
  | deadRetain pid => s!"retain on a dead control block {pid}"
  | exitedTwice pid => s!"pid {pid} exited twice"
  | kernelExits => "the kernel never exits"
  | kernelElsewhere => "kernel must own pid 0"

end Lifecycle
