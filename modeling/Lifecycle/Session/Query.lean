import Lifecycle.Session
import Lifecycle.Syscall

/-! Questions to a session, which leave it as it is. -/

namespace Lifecycle

inductive Query
  /-- Who a context is, by system call and by itself. -/
  | self (pid : Pid)
  | kernel
  | inspect (slot : Nat)
  | snapshot (pid : Pid)
  | children (pid : Pid)
  | livePids
  | stats
  | task (task : TaskHandle)
  | describe

inductive Answer
  | self (pid : Pid) (result : SyscallResult) (parent : Option Pid) (description : String)
  | kernel (pid : Pid) (description : String) (capacity : Nat) (live : Bool)
  | block (info : BlockInfo)
  | process (info : Option ProcessInfo)
  | pids (pids : List Pid)
  | stats (stats : TableStats)
  | task (record : Option TaskRecord)
  | text (text : String)
  | noContext
  | emptySlot

/-- How much a report shows of the state after a step. -/
inductive Detail
  | full
  /-- All but the processes. -/
  | light
  | none
deriving DecidableEq

structure View where
  stats : TableStats
  tasks : Nat
  counters : HostCounters
  processes : Option (List ProcessInfo)

namespace Session

def describeContext (pid : Pid) : String := "ProcessContext \x7b pid: " ++ toString pid ++ " \x7d"

def kernelContext : String := "KernelContext \x7b .. \x7d"

def ask (s : Session) : Query → Answer
  | .self pid =>
    if s.contexts.contains pid then
      .self pid (SyscallResult.ofPid (.ok pid)) (s.kernel.parentOf? pid) (describeContext pid)
    else .noContext
  | .kernel => .kernel kernelPid kernelContext s.kernel.pids.capacity s.kernel.live
  | .inspect slot =>
    match s.slots.get? slot with
    | some content => .block (content.info s.kernel)
    | none => .emptySlot
  | .snapshot pid => .process (s.kernel.snapshot pid)
  | .children pid => .pids (s.kernel.family.childrenOf pid)
  | .livePids => .pids s.kernel.livePids
  | .stats => .stats s.kernel.stats
  | .task task => .task (s.kernel.host.task? task)
  | .describe => .text s.kernel.describe

def view (s : Session) : Detail → Option View
  | .none => Option.none
  | .light => some ⟨s.kernel.stats, s.kernel.host.liveTasks, s.kernel.host.counters, Option.none⟩
  | .full => some ⟨s.kernel.stats, s.kernel.host.liveTasks, s.kernel.host.counters,
      some (s.kernel.livePids.filterMap s.kernel.snapshot)⟩

end Session

end Lifecycle
