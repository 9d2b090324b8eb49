import Lifecycle.Workload

/-! The command line: the workload on a table sized and named by the environment. -/

namespace Lifecycle

/-- The variable as the environment has it. -/
def readVariable (name : String) : IO Variable := do
  match ← IO.getEnv name with
  | some value => return .text value
  | none => return .unset

end Lifecycle

open Lifecycle in
def main : IO UInt32 := do
  let size ← readVariable Config.sizeVariable
  let name ← readVariable Config.nameVariable
  let result := Workload.command size name
  IO.print result.stdout
  IO.eprint result.stderr
  return result.exitCode
