import Lifecycle.Config
import Lifecycle.Text.Blank
import Lifecycle.Text.Decimal

/-! The configuration that a pair of environment variables asks for. A variable
that is unset and one whose bytes are no text both leave the default. -/

namespace Lifecycle

/-- An environment variable as the program finds it. -/
inductive Variable
  | unset
  | undecodable
  | text (value : String)
deriving DecidableEq

/-- Bytes are a text if they are well-formed UTF-8. -/
def Variable.ofBytes (bytes : ByteArray) : Variable :=
  match String.fromUTF8? bytes with
  | some value => .text value
  | none => .undecodable

namespace Config

def sizeVariable : String := "KERNEL_MAX_PROCESSES"

def nameVariable : String := "KERNEL_NAME"

/-- A size is an unsigned number of 64 bits, blanks at its ends aside. -/
def readSize? (value : String) : Option UInt64 :=
  (Text.readUnsigned? (Text.trim value.toList)).bind fun n =>
    if n < UInt64.size then some (UInt64.ofNat n) else none

def requestedSize : Variable → Except ConfigError UInt64
  | .text value =>
    match readSize? value with
    | some size => .ok size
    | none => .error (.unreadable sizeVariable value)
  | _ => .ok ({} : Config).maxProcesses

/-- An empty name asks for the default, as an unset one does. -/
def requestedName : Variable → String
  | .text value => if value.isEmpty then ({} : Config).kernelName else value
  | _ => ({} : Config).kernelName

def ofEnvironment (size name : Variable) : Except ConfigError Config :=
  match requestedSize size with
  | .error error => .error error
  | .ok maxProcesses =>
    let config : Config := ⟨maxProcesses, requestedName name⟩
    match config.validate with
    | .error error => .error error
    | .ok () => .ok config

end Config

end Lifecycle
