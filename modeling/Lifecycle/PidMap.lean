import Lifecycle.Block.Store
import Lifecycle.Error

/-! The pid map: which pids are taken, as bits packed into words, and the block
installed at each pid, in a slot array beside them. The bits of the last word
that lie past the pid space are taken from the start and stay so, which lets an
allocation look for a word that is not full and stop at its first clear bit. -/

namespace Lifecycle

structure PidMap where
  capacity : Nat
  /-- Number of pids not taken. -/
  free : Nat
  words : Array UInt64
  slots : Array (Option BlockId)

namespace PidMap

/-- Bits in a word. -/
def wordBits : Nat := 64

def fullWord : UInt64 := 0xFFFFFFFFFFFFFFFF

/-- The word with one bit. -/
def bit (i : Nat) : UInt64 := 1 <<< UInt64.ofNat (i % wordBits)

/-- The words of an empty map. -/
def emptyWords (capacity : Nat) : Array UInt64 :=
  let words := Array.replicate ((capacity + wordBits - 1) / wordBits) 0
  if capacity % wordBits = 0 then words
  else words.setIfInBounds (capacity / wordBits) (~~~ (bit capacity - 1))

def ofCapacity (capacity : Nat) : PidMap where
  capacity := capacity
  free := capacity
  words := emptyWords capacity
  slots := Array.replicate capacity none

/-- Number of pids taken. -/
def live (m : PidMap) : Nat := m.capacity - m.free

def word (m : PidMap) (i : Nat) : UInt64 := m.words.getD (i / wordBits) 0

def isTaken (m : PidMap) (i : Nat) : Bool := m.word i &&& bit i != 0

def take (m : PidMap) (i : Nat) : PidMap :=
  { m with words := m.words.setIfInBounds (i / wordBits) (m.word i ||| bit i) }

def untake (m : PidMap) (i : Nat) : PidMap :=
  { m with words := m.words.setIfInBounds (i / wordBits) (m.word i &&& ~~~ (bit i)) }

/-- The block at a pid, whether the pid is taken or not. -/
def slot (m : PidMap) (i : Nat) : Option BlockId := m.slots.getD i none

def setSlot (m : PidMap) (i : Nat) (b : Option BlockId) : PidMap :=
  { m with slots := m.slots.setIfInBounds i b }

/-! ### Allocation -/

/-- The lowest clear bit of a word, or its length if it is full. -/
def trailingOnes (w : UInt64) : Nat :=
  ((List.range wordBits).find? fun i => w &&& bit i == 0).getD wordBits

/-- The first clear bit of the first word that is not full; the words are
numbered from `i`. -/
def firstClearFrom (i : Nat) : List UInt64 → Option Nat
  | [] => none
  | w :: ws => if w == fullWord then firstClearFrom (i + 1) ws
    else some (i * wordBits + trailingOnes w)

def firstClear (m : PidMap) : Option Nat :=
  (firstClearFrom 0 m.words.toList).filter (· < m.capacity)

/-- Take the lowest free pid. The count of free pids is consulted first; none is
also the answer if the words are full against that count. -/
def allocate (m : PidMap) : Except Fault (Option Pid × PidMap) :=
  if m.free = 0 then .ok (none, m)
  else match m.firstClear with
    | none => .ok (none, m)
    | some i =>
      if (m.slot i).isSome then .error (.occupiedWhenFree (UInt32.ofNat i))
      else .ok (some (UInt32.ofNat i), { m.take i with free := m.free - 1 })

/-- The error of a map with no pid left. -/
def exhausted (m : PidMap) : ProcessError := .pidExhausted (UInt64.ofNat m.capacity)

/-! ### Installing and removing blocks -/

/-- Put the block, whose own pid is `own`, at a pid that is taken and empty. -/
def install (m : PidMap) (pid own : Pid) (b : BlockId) : Except Fault PidMap :=
  if m.capacity ≤ pid.toNat then .error (.outOfRange pid)
  else if own ≠ pid then .error (.wrongPid own pid)
  else if !m.isTaken pid.toNat then .error (.neverAllocated pid)
  else if (m.slot pid.toNat).isSome then .error (.alreadyInstalled pid)
  else .ok (m.setSlot pid.toNat (some b))

/-- Whether an installed block contradicts the one that was expected. -/
def contradicts (installed expected : Option BlockId) : Bool :=
  match installed, expected with
  | some b, some e => b != e
  | _, _ => false

/-- Free a pid and hand out the block that was installed there. A pid that is
not taken stays as it is. -/
def deallocate (m : PidMap) (pid : Pid) (expected : Option BlockId) :
    Except Fault (Option BlockId × PidMap) :=
  if m.capacity ≤ pid.toNat then .ok (none, m)
  else if !m.isTaken pid.toNat then
    if (m.slot pid.toNat).isSome then .error (.occupiedWhenFree pid) else .ok (none, m)
  else if m.capacity < m.free + 1 then .error .tooManyFree
  else if contradicts (m.slot pid.toNat) expected then .error (.differentBlock pid)
  else .ok (m.slot pid.toNat,
    { (m.untake pid.toNat).setSlot pid.toNat none with free := m.free + 1 })

/-! ### Lookup -/

/-- The block installed at a pid that is taken. -/
def lookup (m : PidMap) (pid : Pid) : Option BlockId :=
  if pid.toNat < m.capacity ∧ m.isTaken pid.toNat then m.slot pid.toNat else none

/-- Look a block up and take a reference on it; a block without references
counts as absent. -/
def getRetained (m : PidMap) (s : BlockStore) (pid : Pid) : Option (BlockId × BlockStore) :=
  (m.lookup pid).bind fun b => (s.tryRetain b).map (b, ·)

/-- Look a block up without taking a reference. -/
def peek (m : PidMap) (pid : Pid) : Option BlockId :=
  if pid.toNat < m.capacity then m.slot pid.toNat else none

def isAllocated (m : PidMap) (pid : Pid) : Bool :=
  pid.toNat < m.capacity && m.isTaken pid.toNat

/-- The pids with a block installed, ascending. -/
def livePids (m : PidMap) : List Pid :=
  (m.slots.toList.zipIdx.filter (·.1.isSome)).map fun e => UInt32.ofNat e.2

/-- One step of draining: free the pid and collect its block. -/
def drainAt (out : List BlockId × PidMap) (i : Nat) : List BlockId × PidMap :=
  if out.2.isTaken i then
    match out.2.slot i with
    | some b => (b :: out.1, (out.2.untake i).setSlot i none)
    | none => (out.1, out.2.untake i)
  else out

/-- Free every pid; the blocks that were installed, by ascending pid. -/
def drain (m : PidMap) : List BlockId × PidMap :=
  let out := (List.range m.capacity).foldl drainAt ([], m)
  (out.1.reverse, { out.2 with free := m.capacity })

def describe (m : PidMap) : String :=
  "PidMap \x7b capacity: " ++ toString m.capacity ++ ", free: " ++ toString m.free ++ " \x7d"

end PidMap

end Lifecycle
