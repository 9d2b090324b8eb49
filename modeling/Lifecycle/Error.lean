import Lifecycle.Ident
import Lifecycle.Errno
import Lifecycle.Text.Decimal

/-! Why an operation on processes is refused, with the wording, the error
number and the advice that go with each cause. -/

namespace Lifecycle

/-- The services of the host that may refuse a request, in the order in which a
fork calls them. -/
inductive HostService
  | createTask
  | cloneAddressSpace
  | cloneFdTable
  | spawn
deriving DecidableEq

namespace HostService

def all : List HostService := [createTask, cloneAddressSpace, cloneFdTable, spawn]

def name : HostService → String
  | createTask => "create_task"
  | cloneAddressSpace => "clone_address_space"
  | cloneFdTable => "clone_fd_table"
  | spawn => "spawn"

/-- The service as the object of "the host failed to". -/
def describe : HostService → String
  | createTask => "create task"
  | cloneAddressSpace => "clone address space"
  | cloneFdTable => "clone fd table"
  | spawn => "spawn thread"

def ofName? (name : String) : Option HostService := all.find? (·.name == name)

@[simp] theorem ofName?_name (service : HostService) : ofName? service.name = some service := by
  cases service <;> decide

end HostService

inductive ProcessError
  | pidExhausted (capacity : UInt64)
  | noSuchProcess (pid : Int64)
  | notChild (pid caller : Pid)
  | alreadyWaited (pid : Pid)
  | invalidOptions (options : Int32)
  | host (service : HostService) (errno : Errno)
  | invalidConfig (reason : String)
  | shutDown
deriving DecidableEq

namespace ProcessError

/-- The word that names the cause. -/
def tag : ProcessError → String
  | pidExhausted _ => "pid_exhausted"
  | noSuchProcess _ => "no_such_process"
  | notChild _ _ => "not_child"
  | alreadyWaited _ => "already_waited"
  | invalidOptions _ => "invalid_options"
  | host _ _ => "host"
  | invalidConfig _ => "invalid_config"
  | shutDown => "shut_down"

/-- Options are shown as the hexadecimal digits of their 32-bit word. -/
def message : ProcessError → String
  | pidExhausted capacity => s!"Pid space exhausted: all {capacity} slots in use"
  | noSuchProcess pid => s!"No such process: {pid}"
  | notChild pid caller => s!"Process {pid} is not a child of {caller}"
  | alreadyWaited pid => s!"Process {pid} already has a waiter"
  | invalidOptions options =>
    "Unsupported wait options: 0x" ++ String.ofList (Text.writeHex options.toUInt32.toNat)
  | host service errno => s!"Host failed to {service.describe}: {errno.describe}"
  | invalidConfig reason => s!"Invalid process table configuration: {reason}"
  | shutDown => "Process table is shut down"

/-- The error number user code gets instead of the cause. -/
def errno : ProcessError → Errno
  | pidExhausted _ => .enproc
  | noSuchProcess _ => .esrch
  | notChild _ _ => .echild
  | alreadyWaited _ => .echild
  | invalidOptions _ => .einval
  | invalidConfig _ => .einval
  | shutDown => .einval
  | host _ errno => errno

/-- The code under which a diagnostic report files the error. -/
def diagnosticCode : ProcessError → String
  | host _ _ => "process::host_failure"
  | error => "process::" ++ error.tag

/-- What to do about the error, where something can be done. -/
def help? : ProcessError → Option String
  | pidExhausted _ => some "Reap exited children with waitpid to free pid slots."
  | noSuchProcess _ =>
    some "The process may have been reaped or never existed. Check PID validity."
  | notChild _ _ => some "Only the direct parent may wait for a process."
  | alreadyWaited _ => some "A process can be waited for by a single caller at a time."
  | invalidOptions _ => some "waitpid supports options == 0 only."
  | host _ _ => some "A collaborator refused the request. The fork was unwound."
  | invalidConfig _ => none
  | shutDown => none

end ProcessError

end Lifecycle
