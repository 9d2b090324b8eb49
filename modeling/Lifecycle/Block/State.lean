/-! What state a process is in, as its exit flags show it. -/

namespace Lifecycle

inductive ProcessState
  | running
  /-- Exited, and its status is not collected yet. -/
  | zombie
  /-- Its status is collected, or nobody ever will. -/
  | reaped
deriving DecidableEq

namespace ProcessState

def all : List ProcessState := [running, zombie, reaped]

def name : ProcessState → String
  | running => "running"
  | zombie => "zombie"
  | reaped => "reaped"

def ofName? (name : String) : Option ProcessState := all.find? (·.name == name)

@[simp] theorem ofName?_name (state : ProcessState) : ofName? state.name = some state := by
  cases state <;> decide

end ProcessState

end Lifecycle
