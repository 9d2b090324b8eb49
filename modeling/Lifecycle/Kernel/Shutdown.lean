import Lifecycle.Kernel

/-! Shutting a table down: every installed block is dropped with its task. -/

namespace Lifecycle.Kernel

/-- Give up the task of a drained block; the kernel's thread is detached first. -/
def dropBlock (k : Kernel) (b : BlockId) : Kernel :=
  if (k.block b).isKernel && !(k.block b).taskReleased then
    (k.detachThread (k.block b).task).discardTaskOf b
  else k.discardTaskOf b

/-- The pids of user processes still installed, ascending; none the second time. -/
def shutdown (k : Kernel) : List Pid × Kernel :=
  if !k.live then ([], k)
  else
    let (installed, pids) := k.pids.drain
    let leaked := (installed.filter fun b => !(k.block b).isKernel).map fun b => (k.block b).pid
    let k := installed.foldl dropBlock { k with live := false, pids := pids }
    (leaked, { k with family := {} })

end Lifecycle.Kernel
