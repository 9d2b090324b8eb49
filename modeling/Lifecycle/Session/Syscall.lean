import Lifecycle.Session
import Lifecycle.Syscall

/-! System calls through a context: forks that nothing interrupts, waits and
exits, with the results that user code sees. -/

namespace Lifecycle

/-- The result of a wait as the system call returns it. -/
def WaitReport.sysResult (report : WaitReport) : SyscallResult :=
  SyscallResult.ofPid (report.result.map (·.1))

/-- The result of a fork as the system call returns it. -/
def Reply.forkResult? : Reply → Option SyscallResult
  | .forked _ result => some (SyscallResult.ofPid (result.map (·.1)))
  | _ => none

namespace Session

/-- Make the calls that a stopped fork needs, one after the other. -/
def finishFork : Nat → Reply × List Woken × Session → Reply × List Woken × Session
  | fuel + 1, (.stopped _, woke, s) =>
    let (reply, more, s) := s.step (.resume none)
    finishFork fuel (reply, woke ++ more, s)
  | _, out => out

/-- A fork through the context of `pid`, with no refusal and no interruption. -/
def forkNow (s : Session) (pid : Pid) (via : Via) : Reply × List Woken × Session :=
  finishFork 4 (s.step (.fork pid via))

end Session

end Lifecycle
