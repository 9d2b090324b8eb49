import Lifecycle.Config.Environment
import Lifecycle.Config.Message
import Lifecycle.Json.Printer
import Lifecycle.Session.Syscall

/-! A small workload. The first process forks four workers and reaps them; the
worker with code zero leaves an orphan behind, which the kernel adopts. Processes
run in any order, one system call at a time; a process whose wait sleeps cannot
run until its child exits. At the end the occupancy of the table is reported. -/

namespace Lifecycle

/-- What a process has still to do. -/
inductive Program
  /-- Fork a worker for each code, then reap those that were forked. -/
  | forkWorkers (codes : List Int32) (children : List (Pid × Int32))
  /-- Wait for each child and count those that did not end with their code. -/
  | reapWorkers (children : List (Pid × Int32)) (failures : Int32)
  /-- Asleep, for a child that should end with this code. -/
  | asleep (wait : Nat) (child : Pid) (code : Int32) (children : List (Pid × Int32))
      (failures : Int32)
  /-- Ask for its own pid. -/
  | introduce (code : Int32)
  | forkOrphan (code : Int32)
  | leave (code : Int32)
deriving DecidableEq

structure Workload where
  session : Session
  programs : Assoc Pid Program := .empty

namespace Workload

def codes : List Int32 := [0, 1, 2, 3]

def isAsleep : Program → Bool
  | .asleep _ _ _ _ _ => true
  | _ => false

/-- Reap these children, or leave if there are none. -/
def reaping (children : List (Pid × Int32)) (failures : Int32) : Program :=
  if children.isEmpty then .leave failures else .reapWorkers children failures

/-- Fork workers for these codes, or go on to reaping if there are none. -/
def forking (codes : List Int32) (children : List (Pid × Int32)) : Program :=
  if codes.isEmpty then reaping children 0 else .forkWorkers codes children

/-- Whether a wait for `child` came back with its pid and with `code`. -/
def isExpected (report : WaitReport) (child : Pid) (code : Int32) : Bool :=
  let status : WaitStatus := ⟨report.destination.getD 0⟩
  report.sysResult.retval == child.toInt32 && status.exited && status.exitCode == code

def failuresAfter (failures : Int32) (report : WaitReport) (child : Pid) (code : Int32) : Int32 :=
  if isExpected report child code then failures else failures + 1

/-- Let the sleeper whose wait has finished go on. -/
def wake (w : Workload) (woken : Woken) : Workload :=
  let entries := w.programs.entries.map fun e =>
    match e.2 with
    | .asleep id child code children failures =>
      if id = woken.id then
        (e.1, reaping children (failuresAfter failures woken.report child code))
      else e
    | _ => e
  { w with programs := entries.foldl (fun m e => m.insert e.1 e.2) .empty }

/-- Take up a session after a system call, with the waits that it woke. -/
def resumeWith (w : Workload) (woke : List Woken) (session : Session) : Workload :=
  woke.foldl wake { w with session := session }

def setProgram (w : Workload) (pid : Pid) (program : Program) : Workload :=
  { w with programs := w.programs.insert pid program }

/-- Fork a child with a program; the child's pid if that succeeded. -/
def fork (w : Workload) (pid : Pid) (via : Via) (child : Program) : Option Pid × Workload :=
  match w.session.forkNow pid via with
  | (.forked _ (.ok (new, _)), woke, session) =>
    (some new, (w.resumeWith woke session).setProgram new child)
  | (_, woke, session) => (none, w.resumeWith woke session)

/-- One system call of a process with this program. -/
def stepProgram (w : Workload) (pid : Pid) : Program → Workload
  | .forkWorkers [] children => w.setProgram pid (reaping children 0)
  | .forkWorkers (code :: codes) children =>
    match w.fork pid .syscall (.introduce code) with
    | (some new, w) => w.setProgram pid (forking codes (children ++ [(new, code)]))
    | (none, w) => w.setProgram pid (forking codes children)
  | .reapWorkers [] failures => w.setProgram pid (.leave failures)
  | .reapWorkers ((child, code) :: children) failures =>
    match w.session.step (.wait pid (signedPid child) 0 .syscall (some 0)) with
    | (.waited report, woke, session) =>
      (w.resumeWith woke session).setProgram pid
        (reaping children (failuresAfter failures report child code))
    | (.blocked id, woke, session) =>
      (w.resumeWith woke session).setProgram pid (.asleep id child code children failures)
    | (_, woke, session) =>
      (w.resumeWith woke session).setProgram pid (reaping children (failures + 1))
  | .asleep _ _ _ _ _ => w
  | .introduce code => w.setProgram pid (if code = 0 then .forkOrphan code else .leave code)
  | .forkOrphan code => (w.fork pid .syscall (.leave 0)).2.setProgram pid (.leave code)
  | .leave code =>
    let (_, woke, session) := w.session.step (.exit pid ⟨.exited, code⟩)
    { w with programs := w.programs.erase pid }.resumeWith woke session

/-- The process that is to run next takes one step, unless it is asleep or gone. -/
def step (w : Workload) (pid : Pid) : Workload :=
  match w.programs.get? pid with
  | some program => if isAsleep program then w else w.stepProgram pid program
  | none => w

/-- Run processes in the order of a schedule. -/
def run (w : Workload) (schedule : List Pid) : Workload := schedule.foldl step w

/-- A process that can run. -/
def next? (w : Workload) : Option Pid :=
  (w.programs.entries.find? fun e => !isAsleep e.2).map (·.1)

/-- Run as long as a process can, up to `fuel` steps. -/
def runAll : Nat → Workload → Workload
  | 0, w => w
  | fuel + 1, w =>
    match w.next? with
    | some pid => runAll fuel (w.step pid)
    | none => w

/-- More steps than all the programs have together: 9 of the first process, 9 of the
workers and 1 of the orphan. -/
def enough : Nat := 64

/-- The first process, forked by the kernel. -/
def start (session : Session) : Option Workload :=
  let (child, w) := fork { session := session } kernelPid .context (forking codes [])
  child.map fun _ => w

/-! ### The command -/

/-- What a command leaves behind. -/
structure CommandResult where
  exitCode : UInt32
  stdout : String
  stderr : String
deriving DecidableEq

/-- A failure and what it was caused by. -/
def failed (context cause : String) : CommandResult :=
  ⟨1, "", "Error: " ++ context ++ "\n\nCaused by:\n    " ++ cause ++ "\n"⟩

def statsText (stats : TableStats) : String :=
  Json.prettyFields [("capacity", .nat stats.capacity), ("live", .nat stats.live),
    ("free", .nat stats.free), ("zombies", .nat stats.zombies)] ++ "\n"

/-- Report the occupancy and shut down; processes still there are an error. -/
def conclude (w : Workload) : CommandResult :=
  let stdout := statsText w.session.kernel.stats
  match w.session.kernel.shutdown.1 with
  | [] => ⟨0, stdout, ""⟩
  | leaked => ⟨1, stdout, "Error: processes leaked at shutdown: [" ++
      ", ".intercalate (leaked.map toString) ++ "]\n"⟩

/-- Boot a table as the environment asks, run the workload and report. -/
def command (size name : Variable) : CommandResult :=
  match Config.ofEnvironment size name with
  | .error error => failed "reading process table config" error.message
  | .ok config =>
    match Session.boot config none with
    | .error (error, _) => failed "booting process table" error.message
    | .ok session =>
      match start session with
      | none => failed "starting init" "no process could be forked"
      | some w => (runAll enough w).conclude

end Workload

end Lifecycle
