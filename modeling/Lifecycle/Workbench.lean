import Lifecycle.Family
import Lifecycle.Kernel.View
import Lifecycle.PidMap

/-! A pid map, a family and loose control blocks, worked one call at a time. The
blocks lie in numbered slots; a slot filled again forgets its block. -/

namespace Lifecycle

structure Workbench where
  pids : PidMap
  family : Family := {}
  blocks : BlockStore := {}
  slots : Assoc Nat BlockId := .empty

inductive WorkbenchOp
  | newBlock (slot : Nat) (pid : Pid) (name : String)
  /-- Allocate up to `count` pids, as long as there are any. -/
  | allocate (count : Nat)
  | install (pid : Pid) (slot : Nat)
  | deallocate (pid : Pid) (expected : Option Nat)
  | getRetained (pid : Pid)
  | peek (pid : Pid)
  | isAllocated (pid : Pid)
  | capacity
  | describeMap
  | retain (slot : Nat)
  | release (slot : Nat)
  | inspect (slot : Nat)
  | attach (child parent : Nat)
  | childrenOf (pid : Pid)
  | parentLink (pid : Pid)

inductive WorkbenchReply
  | block (info : BlockInfo)
  | allocated (result : Except ProcessError (Option Pid))
  | installed
  /-- The slot of the block that was found, if there is one. -/
  | found (slot : Option Nat)
  | truth (b : Bool)
  | count (n : Nat)
  | text (text : String)
  | retained
  | attached
  | pids (pids : List Pid)
  | parent (pid : Option Pid)
  | emptySlot

/-- What a workbench shows after a step. -/
structure WorkbenchView where
  free : Nat
  live : Nat
  livePids : List Pid
  /-- Slot, pid, count and parent of each block, by slot. -/
  blocks : List (Nat × Pid × Nat × Option Pid)

namespace Workbench

def ofCapacity (capacity : Nat) : Workbench := { pids := .ofCapacity capacity }

/-- The slot that holds a block. -/
def slotOf? (w : Workbench) (b : BlockId) : Option Nat :=
  (w.slots.entries.find? (·.2 == b)).map (·.1)

/-- Allocate up to `count` pids; the last of them, or the first error. -/
def allocate : Nat → Option Pid → PidMap → Except Fault (Except ProcessError (Option Pid) × PidMap)
  | 0, last, m => .ok (.ok last, m)
  | count + 1, _, m =>
    match m.allocate with
    | .error fault => .error fault
    | .ok (none, m) => .ok (.error m.exhausted, m)
    | .ok (some pid, m) => allocate count (some pid) m

/-- Act on the block in a slot that is not empty. -/
def withBlock (w : Workbench) (slot : Nat) (act : BlockId → Except Fault (WorkbenchReply × Workbench)) :
    Except Fault (WorkbenchReply × Workbench) :=
  match w.slots.get? slot with
  | some b => act b
  | none => .ok (.emptySlot, w)

/-- One step, or the fault that ends the work. -/
def step (w : Workbench) : WorkbenchOp → Except Fault (WorkbenchReply × Workbench)
  | .newBlock slot pid name =>
    let task : TaskHandle := ⟨pid.toNat + 1⟩
    let block := if pid = kernelPid then Block.kernel name task else Block.fresh pid name task
    .ok (.block block.info,
      { w with blocks := w.blocks.add block, slots := w.slots.insert slot w.blocks.size })
  | .allocate count => do
    let (result, pids) ← allocate count none w.pids
    .ok (.allocated result, { w with pids := pids })
  | .install pid slot => w.withBlock slot fun b => do
    let pids ← w.pids.install pid (w.blocks.get b).pid b
    .ok (.installed, { w with pids := pids })
  | .deallocate pid expected => do
    let (installed, pids) ← w.pids.deallocate pid (expected.bind w.slots.get?)
    .ok (.found (installed.bind w.slotOf?), { w with pids := pids })
  | .getRetained pid =>
    match w.pids.getRetained w.blocks pid with
    | none => .ok (.found none, w)
    | some (b, blocks) => .ok (.found (w.slotOf? b), { w with blocks := blocks })
  | .peek pid => .ok (.found ((w.pids.peek pid).bind w.slotOf?), w)
  | .isAllocated pid => .ok (.truth (w.pids.isAllocated pid), w)
  | .capacity => .ok (.count w.pids.capacity, w)
  | .describeMap => .ok (.text w.pids.describe, w)
  | .retain slot => w.withBlock slot fun b => do
    let blocks ← w.blocks.retain b
    .ok (.retained, { w with blocks := blocks })
  | .release slot => w.withBlock slot fun b =>
    let (last, blocks) := w.blocks.release b
    .ok (.truth last, { w with blocks := blocks })
  | .inspect slot => w.withBlock slot fun b => .ok (.block (w.blocks.get b).info, w)
  | .attach child parent => w.withBlock child fun c => w.withBlock parent fun p => do
    let pid := (w.blocks.get p).pid
    let family ← w.family.attach (w.blocks.get c).pid pid
    .ok (.attached, { w with family := family, blocks := w.blocks.update c (·.adopt pid) })
  | .childrenOf pid => .ok (.pids (w.family.childrenOf pid), w)
  | .parentLink pid => .ok (.parent (w.family.parentLink? pid), w)

def view (w : Workbench) : WorkbenchView where
  free := w.pids.free
  live := w.pids.live
  livePids := w.pids.livePids
  blocks := (w.slots.entries.mergeSort fun a b => a.1 ≤ b.1).map fun e =>
    (e.1, (w.blocks.get e.2).pid, (w.blocks.get e.2).refCount, (w.blocks.get e.2).parent)

/-- The outcome of each step with the view after it; a fault comes last. -/
def run (w : Workbench) : List WorkbenchOp → List (Except Fault (WorkbenchReply × WorkbenchView))
  | [] => []
  | op :: ops =>
    match w.step op with
    | .error fault => [.error fault]
    | .ok (reply, w) => .ok (reply, w.view) :: run w ops

end Workbench

end Lifecycle
