/-! Exit statuses and the raw words that carry them. The low two bits of a raw
word say how the process ended, the other thirty carry its value, sign
included; the fourth pattern of the low bits belongs to stopped processes and
carries no exit status. -/

namespace Lifecycle

/-- A wait status as user code receives it. -/
abbrev RawStatus := Int32

/-- How a process ended: by its own call, by a signal, by a signal with a core dump. -/
inductive Ending
  | exited
  | signaled
  | cored
deriving DecidableEq

namespace Ending

def all : List Ending := [exited, signaled, cored]

/-- The low two bits of a raw status. -/
def bits : Ending → RawStatus
  | exited => 0
  | signaled => 1
  | cored => 2

def name : Ending → String
  | exited => "exited"
  | signaled => "signaled"
  | cored => "cored"

def ofName? (name : String) : Option Ending := all.find? (·.name == name)

@[simp] theorem ofName?_name (ending : Ending) : ofName? ending.name = some ending := by
  cases ending <;> decide

end Ending

/-- An ending with its exit code or signal number. -/
structure ExitStatus where
  ending : Ending
  value : Int32
deriving DecidableEq

namespace ExitStatus

/-- The two high bits of the value are lost. -/
def encode (status : ExitStatus) : RawStatus := (status.value <<< 2) ||| status.ending.bits

def decode? (raw : RawStatus) : Option ExitStatus :=
  (Ending.all.find? fun ending => (raw &&& 3) == ending.bits).map (⟨·, raw >>> 2⟩)

end ExitStatus

/-- A raw status under the predicates a waiting parent applies to it. -/
structure WaitStatus where
  raw : RawStatus
deriving DecidableEq

namespace WaitStatus

def exited (status : WaitStatus) : Bool := (status.raw &&& 3) == 0

def exitCode (status : WaitStatus) : Int32 := status.raw >>> 2

def signaled (status : WaitStatus) : Bool := (status.raw &&& 3) == 1 || (status.raw &&& 3) == 2

def termSignal (status : WaitStatus) : Int32 := status.raw >>> 2

def coreDumped (status : WaitStatus) : Bool := (status.raw &&& 3) == 2

def stopped (status : WaitStatus) : Bool := (status.raw &&& 3) == 3

def decode? (status : WaitStatus) : Option ExitStatus := ExitStatus.decode? status.raw

end WaitStatus

end Lifecycle
