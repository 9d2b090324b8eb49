import Lifecycle.Host

/-! Calls made to the host, with their answers. -/

namespace Lifecycle

inductive HostCall
  | createTask (name : String) (task : TaskHandle)
  | refuseTask (name : String) (errno : Errno)
  | attach (task : TaskHandle) (pid : Pid)
  | detach (task : TaskHandle)
  | cloneAddressSpace (src dst : TaskHandle) (refusal : Option Errno)
  | cloneFdTable (src dst : TaskHandle) (refusal : Option Errno)
  | destroyFdTable (task : TaskHandle)
  | destroyTask (task : TaskHandle)
  | spawn (task : TaskHandle) (refusal : Option Errno)
  | terminate (task : TaskHandle)
deriving DecidableEq

namespace HostCall

def describeAnswer : Option Errno → String
  | none => "ok"
  | some errno => errno.name

def describe : HostCall → String
  | createTask name task => s!"create_task {name} -> {task.raw}"
  | refuseTask name errno => s!"create_task {name} -> {errno.name}"
  | attach task pid => s!"attach {task.raw} {pid}"
  | detach task => s!"detach {task.raw}"
  | cloneAddressSpace src dst refusal =>
    s!"clone_address_space {src.raw} {dst.raw} -> {describeAnswer refusal}"
  | cloneFdTable src dst refusal =>
    s!"clone_fd_table {src.raw} {dst.raw} -> {describeAnswer refusal}"
  | destroyFdTable task => s!"destroy_fd_table {task.raw}"
  | destroyTask task => s!"destroy_task {task.raw}"
  | spawn task refusal => s!"spawn {task.raw} -> {describeAnswer refusal}"
  | terminate task => s!"terminate {task.raw}"

def isTermination : HostCall → Bool
  | terminate _ => true
  | _ => false

end HostCall

end Lifecycle
