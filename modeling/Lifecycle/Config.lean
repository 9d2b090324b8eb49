/-! How large a process table is and what its kernel is called. -/

namespace Lifecycle

/-- The smallest pid space: the kernel and one user process. -/
def minPidSpace : UInt64 := 2

/-- The largest pid space; every pid below it is a positive 32-bit integer. -/
def maxPidSpace : UInt64 := 1048576

structure Config where
  /-- Number of pids, the kernel's included. -/
  maxProcesses : UInt64 := 1024
  kernelName : String := "[kernel]"
deriving DecidableEq

inductive ConfigError
  | capacityOutOfRange (capacity : UInt64)
  | unreadable (name value : String)
deriving DecidableEq

/-- Refuses a pid space outside the two bounds. -/
def Config.validate (config : Config) : Except ConfigError Unit :=
  if minPidSpace ≤ config.maxProcesses ∧ config.maxProcesses ≤ maxPidSpace then .ok ()
  else .error (.capacityOutOfRange config.maxProcesses)

end Lifecycle
