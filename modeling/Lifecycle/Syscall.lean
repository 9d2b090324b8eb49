import Lifecycle.Error

/-! Results of system calls: a value, or minus one and an error number. -/

namespace Lifecycle

structure SyscallResult where
  retval : Int32
  errno : Option Errno
deriving DecidableEq

namespace SyscallResult

def ok (retval : Int32) : SyscallResult := ⟨retval, none⟩

def err (errno : Errno) : SyscallResult := ⟨-1, some errno⟩

def isOk (result : SyscallResult) : Bool := result.errno.isNone

/-- A pid is returned as the signed integer with its bits. -/
def ofPid : Except ProcessError Pid → SyscallResult
  | .ok pid => ok pid.toInt32
  | .error error => err error.errno

end SyscallResult

end Lifecycle
