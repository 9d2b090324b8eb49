import Lifecycle.Config.Message
import Lifecycle.Family
import Lifecycle.Host.Call
import Lifecycle.PidMap

/-! The kernel: the process table over its host. It is the one place where
blocks are made and torn down. Every operation is a function on the whole state;
a violated check is recorded as the state's fault, and the first one counts.
Calls to the host are kept in a log, the newest first. -/

namespace Lifecycle

structure Kernel where
  config : Config
  pids : PidMap
  family : Family := {}
  blocks : BlockStore := {}
  host : Host := {}
  /-- Neither shut down nor about to be. -/
  live : Bool := true
  calls : List HostCall := []
  fault : Option Fault := none

namespace Kernel

/-- The identity of the kernel's own block, the first one made. -/
def root : BlockId := 0

def block (k : Kernel) (b : BlockId) : Block := k.blocks.get b

def update (k : Kernel) (b : BlockId) (f : Block → Block) : Kernel :=
  { k with blocks := k.blocks.update b f }

/-- Record a fault, unless there is one already. -/
def halt (k : Kernel) (fault : Fault) : Kernel :=
  { k with fault := some (k.fault.getD fault) }

/-! ### Calls to the host -/

def log (k : Kernel) (call : HostCall) : Kernel := { k with calls := call :: k.calls }

/-- A request that a script refuses never reaches the host. -/
def createTask (k : Kernel) (name : String) (refusal : Option Errno) :
    Except Errno TaskHandle × Kernel :=
  match refusal with
  | some errno => (.error errno, k.log (.refuseTask name errno))
  | none =>
    let (task, host) := k.host.createTask name
    (.ok task, { k with host := host }.log (.createTask name task))

def attachThread (k : Kernel) (task : TaskHandle) (pid : Pid) : Kernel :=
  { k with host := k.host.attach task pid }.log (.attach task pid)

def detachThread (k : Kernel) (task : TaskHandle) : Kernel :=
  { k with host := k.host.detach task }.log (.detach task)

def cloneAddressSpace (k : Kernel) (src dst : TaskHandle) (refusal : Option Errno) :
    Option Errno × Kernel :=
  match refusal with
  | some errno => (some errno, k.log (.cloneAddressSpace src dst (some errno)))
  | none =>
    let (answer, host) := k.host.cloneAddressSpace src dst
    (answer, { k with host := host }.log (.cloneAddressSpace src dst answer))

def cloneFdTable (k : Kernel) (src dst : TaskHandle) (refusal : Option Errno) :
    Option Errno × Kernel :=
  match refusal with
  | some errno => (some errno, k.log (.cloneFdTable src dst (some errno)))
  | none =>
    let (answer, host) := k.host.cloneFdTable src dst
    (answer, { k with host := host }.log (.cloneFdTable src dst answer))

/-- The answer is the name of the new thread. -/
def spawnThread (k : Kernel) (task : TaskHandle) (refusal : Option Errno) :
    Except Errno String × Kernel :=
  match refusal with
  | some errno => (.error errno, k.log (.spawn task (some errno)))
  | none =>
    match k.host.spawn task with
    | (.error errno, host) =>
      (.error errno, { k with host := host }.log (.spawn task (some errno)))
    | (.ok name, host) => (.ok name, { k with host := host }.log (.spawn task none))

def terminateThread (k : Kernel) (task : TaskHandle) : Kernel :=
  { k with host := k.host.terminate task }.log (.terminate task)

/-- Close the files of a task and give it up. -/
def discardTask (k : Kernel) (task : TaskHandle) : Kernel :=
  let k := { k with host := k.host.destroyFdTable task }.log (.destroyFdTable task)
  { k with host := k.host.destroyTask task }.log (.destroyTask task)

/-! ### References -/

/-- Look a process up and take a reference on it. -/
def get (k : Kernel) (pid : Pid) : Option BlockId × Kernel :=
  if k.live then
    match k.pids.getRetained k.blocks pid with
    | some (b, blocks) => (some b, { k with blocks := blocks })
    | none => (none, k)
  else (none, k)

/-- Give up the task of a block, the first time only. -/
def discardTaskOf (k : Kernel) (b : BlockId) : Kernel :=
  if (k.block b).taskReleased then k
  else (k.update b fun block => { block with taskReleased := true }).discardTask (k.block b).task

/-- Free the pid of a block, if it is the one installed there. -/
def freePid (k : Kernel) (b : BlockId) : Kernel :=
  match k.pids.deallocate (k.block b).pid (some b) with
  | .ok (_, pids) => { k with pids := pids }
  | .error fault => k.halt fault

/-- Tear down a block without references. -/
def destroy (k : Kernel) (b : BlockId) : Kernel :=
  let pid := (k.block b).pid
  let k := k.freePid b
  let k := { k with family := (k.family.unlink pid).dropList pid }
  k.discardTaskOf b

/-- Give one reference back, and tear the block down if it was the last; true if
it was. -/
def release (k : Kernel) (b : BlockId) : Bool × Kernel :=
  let (last, blocks) := k.blocks.release b
  if last then (true, { k with blocks := blocks }.destroy b)
  else (false, { k with blocks := blocks })

/-- Another reference beside one that is held. -/
def retain (k : Kernel) (b : BlockId) : Kernel :=
  match k.blocks.retain b with
  | .ok blocks => { k with blocks := blocks }
  | .error fault => k.halt fault

/-- Link a child under a parent and point its block there. -/
def attach (k : Kernel) (child parent : BlockId) : Kernel :=
  match k.family.attach (k.block child).pid (k.block parent).pid with
  | .ok family => { k with family := family }.update child (·.adopt (k.block parent).pid)
  | .error fault => k.halt fault

/-! ### Making blocks -/

/-- Install a new block at its pid. -/
def install (k : Kernel) (block : Block) : BlockId × Kernel :=
  let b := k.blocks.size
  let k := { k with blocks := k.blocks.add block }
  match k.pids.install block.pid block.pid b with
  | .ok pids => (b, { k with pids := pids })
  | .error fault => (b, k.halt fault)

/-- Take a pid for a block to come. -/
def reserve (k : Kernel) : Except ProcessError Pid × Kernel :=
  if !k.live then (.error .shutDown, k)
  else match k.pids.allocate with
    | .ok (some pid, pids) => (.ok pid, { k with pids := pids })
    | .ok (none, _) => (.error k.pids.exhausted, k)
    | .error fault => (.error k.pids.exhausted, k.halt fault)

/-- Give back a pid that got no block. -/
def unreserve (k : Kernel) (pid : Pid) : Kernel :=
  match k.pids.deallocate pid none with
  | .ok (_, pids) => { k with pids := pids }
  | .error fault => k.halt fault

/-- Make the block for a reserved pid, once the host has given it a task. -/
def make (k : Kernel) (pid : Pid) (name : String) (refusal : Option Errno) :
    Except ProcessError BlockId × Kernel :=
  match k.createTask name refusal with
  | (.error errno, k) => (.error (.host .createTask errno), k.unreserve pid)
  | (.ok task, k) =>
    let (b, k) := k.install (.fresh pid name task)
    (.ok b, k)

/-- Bring a table up with the kernel's own block at pid 0. A failure leaves the
log of what was asked of the host. -/
def boot (config : Config) (refusal : Option Errno) :
    Except (ProcessError × List HostCall) Kernel :=
  match config.validate with
  | .error error => .error (.invalidConfig error.message, [])
  | .ok () =>
    let k : Kernel := { config := config, pids := .ofCapacity config.maxProcesses.toNat }
    match k.reserve with
    | (.error error, k) => .error (error, k.calls)
    | (.ok pid, k) =>
      let k := if pid = kernelPid then k else k.halt .kernelElsewhere
      match k.createTask config.kernelName refusal with
      | (.error errno, k) => .error (.host .createTask errno, k.calls)
      | (.ok task, k) =>
        let (_, k) := k.install (.kernel config.kernelName task)
        .ok (k.attachThread task kernelPid)

end Kernel

end Lifecycle
