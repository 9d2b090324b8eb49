/-! Names of processes and of the host's tasks. A pid is a 32-bit word, because
user code receives it as one; a task handle is whatever number the host issued. -/

namespace Lifecycle

abbrev Pid := UInt32

/-- The pid of the kernel itself. -/
def kernelPid : Pid := 0

/-- The word that stands for "no parent" where a parent's pid is expected. -/
def noParent : Pid := 0xFFFFFFFF

/-- A pid in the signed form in which user code names its targets. -/
def signedPid (pid : Pid) : Int64 := Int64.ofNat pid.toNat

/-- An opaque handle to a task owned by the host. -/
structure TaskHandle where
  raw : Nat
deriving DecidableEq

def TaskHandle.describe (task : TaskHandle) : String := s!"task#{task.raw}"

end Lifecycle
