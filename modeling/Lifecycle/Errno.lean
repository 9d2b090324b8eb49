/-! Error numbers that user code sees. Each has a fixed number and a fixed name,
and is found again from either. -/

namespace Lifecycle

inductive Errno
  | enomem
  | efault
  | einval
  | enproc
  | esrch
  | echild
deriving DecidableEq

namespace Errno

def all : List Errno := [enomem, efault, einval, enproc, esrch, echild]

def code : Errno → Int32
  | enomem => 3
  | efault => 6
  | einval => 8
  | enproc => 12
  | esrch => 15
  | echild => 16

def name : Errno → String
  | enomem => "ENOMEM"
  | efault => "EFAULT"
  | einval => "EINVAL"
  | enproc => "ENPROC"
  | esrch => "ESRCH"
  | echild => "ECHILD"

def ofCode? (code : Int32) : Option Errno := all.find? (·.code == code)

def ofName? (name : String) : Option Errno := all.find? (·.name == name)

def describe (errno : Errno) : String := s!"{errno.name} ({errno.code})"

@[simp] theorem ofCode?_code (errno : Errno) : ofCode? errno.code = some errno := by
  cases errno <;> decide

@[simp] theorem ofName?_name (errno : Errno) : ofName? errno.name = some errno := by
  cases errno <;> decide

end Errno

end Lifecycle
