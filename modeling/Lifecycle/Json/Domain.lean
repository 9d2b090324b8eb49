import Lifecycle.Config
import Lifecycle.Error
import Lifecycle.ExitStatus
import Lifecycle.Block.State
import Lifecycle.Json.Form
import Lifecycle.Syscall

/-! The JSON forms of the values that leave the kernel. -/

namespace Lifecycle

def HostService.toJson (service : HostService) : Json := .str service.name

def HostService.ofJson? (v : Json) : Option HostService := (v.name? false).bind ofName?

def Errno.toJson (errno : Errno) : Json := .str errno.name

def Errno.ofJson? (v : Json) : Option Errno := (v.name? false).bind ofName?

def ProcessState.toJson (state : ProcessState) : Json := .str state.name

def ProcessState.ofJson? (v : Json) : Option ProcessState := (v.name? false).bind ofName?

/-! ### Exit statuses -/

namespace ExitStatus

def toJson (status : ExitStatus) : Json :=
  .obj [("kind", .str status.ending.name), ("value", .int status.value.toInt)]

def ofJson? (v : Json) : Option ExitStatus := do
  let parts ← v.tagged? "kind" "value"
  let ending ← Ending.ofName? parts.tag
  let value ← parts.content.bind Json.int32?
  some ⟨ending, value⟩

end ExitStatus

def WaitStatus.toJson (status : WaitStatus) : Json := .int status.raw.toInt

def WaitStatus.ofJson? (v : Json) : Option WaitStatus := v.int32?.map WaitStatus.mk

/-! ### Errors -/

namespace ProcessError

/-- What an error carries beside its tag. -/
def details? : ProcessError → Option Json
  | pidExhausted capacity => some (.obj [("capacity", .nat capacity.toNat)])
  | noSuchProcess pid => some (.int pid.toInt)
  | notChild pid caller => some (.obj [("pid", .nat pid.toNat), ("caller", .nat caller.toNat)])
  | alreadyWaited pid => some (.nat pid.toNat)
  | invalidOptions options => some (.int options.toInt)
  | host service errno => some (.obj [("op", service.toJson), ("errno", errno.toJson)])
  | invalidConfig reason => some (.str reason)
  | shutDown => none

def toJson (error : ProcessError) : Json :=
  .obj (("error_type", .str error.tag) :: (error.details?.map ("details", ·)).toList)

/-- The fields of a content that is an object. -/
def fieldsOf? : Json → Option (List (String × Json))
  | .obj fields => some fields
  | _ => none

/-- The error with this tag and these details. -/
def ofTagged? (parts : Json.Tagged) : Option ProcessError :=
  let details := parts.content
  match parts.tag with
  | "pid_exhausted" => do
    let fields ← details.bind fieldsOf?
    return pidExhausted (← (Json.field? "capacity" fields).bind Json.uint64?)
  | "no_such_process" => (details.bind Json.int64?).map noSuchProcess
  | "not_child" => do
    let fields ← details.bind fieldsOf?
    let pid ← (Json.field? "pid" fields).bind Json.uint32?
    let caller ← (Json.field? "caller" fields).bind Json.uint32?
    return notChild pid caller
  | "already_waited" => (details.bind Json.uint32?).map alreadyWaited
  | "invalid_options" => (details.bind Json.int32?).map invalidOptions
  | "host" => do
    let fields ← details.bind fieldsOf?
    let service ← (← Json.field? "op" fields).name? parts.kept
    let errno ← (← Json.field? "errno" fields).name? parts.kept
    return host (← HostService.ofName? service) (← Errno.ofName? errno)
  | "invalid_config" => (details.bind Json.str?).map invalidConfig
  | "shut_down" =>
    match details with
    | none | some .null => some shutDown
    | _ => none
  | _ => none

def ofJson? (v : Json) : Option ProcessError :=
  (v.tagged? "error_type" "details").bind ofTagged?

end ProcessError

/-! ### Records -/

namespace Config

def toJson (config : Config) : Json :=
  .obj [("max_processes", .nat config.maxProcesses.toNat), ("kernel_name", .str config.kernelName)]

/-- An object with the two fields, or the two values in their order. -/
def ofJson? : Json → Option Config
  | .arr [size, name] => do
    return ⟨← size.uint64?, ← name.str?⟩
  | .obj fields => do
    let size ← (Json.field? "max_processes" fields).bind Json.uint64?
    let name ← (Json.field? "kernel_name" fields).bind Json.str?
    return ⟨size, name⟩
  | _ => none

end Config

namespace SyscallResult

def toJson (result : SyscallResult) : Json :=
  .obj [("retval", .int result.retval.toInt), ("errno", .ofOption Errno.toJson result.errno)]

/-- Null stands for no error number. -/
def errnoOfJson? : Json → Option (Option Errno)
  | .null => some none
  | v => (Errno.ofJson? v).map some

/-- An object with the two fields, of which the error number may be missing, or
the two values in their order. -/
def ofJson? : Json → Option SyscallResult
  | .arr [retval, errno] => do
    return ⟨← retval.int32?, ← errnoOfJson? errno⟩
  | .obj fields => do
    let retval ← (Json.field? "retval" fields).bind Json.int32?
    let errno ← Json.optionalField? "errno" fields
    return ⟨retval, ← errnoOfJson? (errno.getD .null)⟩
  | _ => none

end SyscallResult

end Lifecycle
