import Lifecycle.Kernel

/-! What a kernel shows of itself without changing. -/

namespace Lifecycle

structure ProcessInfo where
  pid : Pid
  parent : Option Pid
  name : String
  state : ProcessState
  waiter : Bool
  refCount : Nat
  children : List Pid
deriving DecidableEq

structure TableStats where
  capacity : Nat
  live : Nat
  free : Nat
  zombies : Nat
deriving DecidableEq

/-- A control block as its holder sees it. -/
structure BlockInfo where
  pid : Pid
  name : String
  parent : Option Pid
  refCount : Nat
  state : ProcessState
  isKernel : Bool
  task : TaskHandle
  description : String
deriving DecidableEq

def Block.info (b : Block) : BlockInfo :=
  ⟨b.pid, b.name, b.parent, b.refCount, b.state, b.isKernel, b.task, b.describe⟩

namespace Kernel

def snapshot (k : Kernel) (pid : Pid) : Option ProcessInfo :=
  (k.pids.peek pid).map fun b =>
    { pid := (k.block b).pid
      parent := (k.block b).parent
      name := (k.block b).name
      state := (k.block b).state
      waiter := (k.block b).waiter
      refCount := (k.block b).refCount
      children := k.family.childrenOf pid }

def livePids (k : Kernel) : List Pid := k.pids.livePids

/-- The blocks installed, by ascending pid. -/
def installed (k : Kernel) : List BlockId := k.livePids.filterMap k.pids.peek

def stats (k : Kernel) : TableStats where
  capacity := k.pids.capacity
  live := k.pids.live
  free := k.pids.free
  zombies := (k.installed.filter fun b => (k.block b).state = .zombie).length

/-- The parent of an installed process. -/
def parentOf? (k : Kernel) (pid : Pid) : Option Pid := (k.snapshot pid).bind (·.parent)

def describe (k : Kernel) : String :=
  "ProcessTable \x7b pids: " ++ k.pids.describe ++ ", live: " ++ toString k.live ++ ", .. \x7d"

end Kernel

end Lifecycle
