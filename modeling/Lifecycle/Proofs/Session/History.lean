import Lifecycle.Session

/-! The history of a session: who forked whom, which waits were committed, who
exited how and what became of the status. It is read off the replies and the state
before each move and restricts no move. Blocks are named by their identity, so
that a process is not taken for a later one with the same pid. -/

namespace Lifecycle

inductive Event
  /-- A fork has made the block of its child. -/
  | born (child forker : BlockId)
  /-- The table's reference on a created block is given back by its holder. -/
  | surrendered (block : BlockId)
  /-- A wait has found a child it may wait for. -/
  | committed (block : BlockId) (caller : Pid)
  | exited (block : BlockId) (status : ExitStatus) (path : ExitPath)
  /-- The exit of its parent has reaped a zombie. -/
  | inherited (block : BlockId)
  /-- A wait has returned a pid and a status. -/
  | collected (block : BlockId) (caller pid : Pid) (status : RawStatus)
deriving DecidableEq

namespace Session

/-- The block that a wait names. -/
def target? (s : Session) (target : Int64) : Option BlockId :=
  (s.kernel.targetPid? target).bind s.kernel.pids.lookup

/-- The children that an exit through `pid` has turned from zombies into reaped ones. -/
def heirs (s : Session) (pid : Pid) (after : Kernel) : List BlockId :=
  (List.range s.kernel.blocks.size).filter fun c =>
    (s.kernel.block c).parent == some pid && (s.kernel.block c).state == .zombie &&
      (after.block c).state == .reaped

/-- What a move tells by its reply, before any sleeper is woken. -/
def actEvents (s : Session) (move : Move) (reply : Reply) (after : Kernel) : List Event :=
  match move, reply with
  | .resume _, .stopped .cloneAddressSpace =>
    match s.frames with
    | ⟨.forkTask parent _, _⟩ :: _ => [.born s.kernel.blocks.size parent]
    | _ => []
  | .exit pid status, .exited _ (some path) =>
    (s.heirs pid after).map .inherited ++
      ((s.kernel.pids.lookup pid).map (Event.exited · status path)).toList
  | .wait caller target _ _ _, .waited report =>
    match report.result, s.target? target with
    | .ok (pid, status), some b => [.committed b caller, .collected b caller pid status]
    | _, _ => []
  | .wait caller target _ _ _, .blocked _ =>
    ((s.target? target).map (Event.committed · caller)).toList
  | .release slot, .released _ =>
    match s.slots.get? slot with
    | some (.bare b) => [.surrendered b]
    | _ => []
  | _, _ => []

/-- What a woken sleeper tells by its result. -/
def wakeEvents (s : Session) (w : Woken) : List Event :=
  match w.report.result, s.parked.find? (·.id == w.id) with
  | .ok (pid, status), some p => [.collected p.block p.caller pid status]
  | _, _ => []

/-- What happens in one move. -/
def events (s : Session) (move : Move) : List Event :=
  s.actEvents move (s.act move).1 (s.act move).2.kernel ++
    (s.act move).2.settle.1.flatMap (s.act move).2.wakeEvents

/-- What has happened after a sequence of moves, on top of `h`. -/
def history (s : Session) (h : List Event) : List Move → List Event
  | [] => h
  | move :: moves => (s.step move).2.2.history (h ++ s.events move) moves

end Session

/-- The moves of a session whose table stays live and whose holders give back what
they have and no more: a created block is surrendered once. -/
def Move.permitted (s : Session) (h : List Event) : Move → Bool
  | .overRelease _ => false
  | .shutdown => false
  | .release slot =>
    match s.slots.get? slot with
    | some (.bare b) => !h.contains (.surrendered b)
    | _ => true
  | _ => true

/-- Whether each of these moves is permitted when its turn comes. -/
def Session.lawful (s : Session) (h : List Event) : List Move → Bool
  | [] => true
  | move :: moves =>
    move.permitted s h && (s.step move).2.2.lawful (h ++ s.events move) moves

/-- The process that forked a block, if a fork made it. -/
def forkerOf (h : List Event) (b : BlockId) : Option BlockId := h.findSome? fun
  | .born child forker => if child = b then some forker else none
  | _ => none

/-! ### What is held outside the table -/

namespace Pending

/-- A child made and not linked. -/
def half? : Pending → Option BlockId
  | forkSpace _ child => some child
  | forkFiles _ child => some child
  | _ => none

/-- A pid taken for a block to come. -/
def reserved? : Pending → Option Pid
  | create pid _ => some pid
  | forkTask _ pid => some pid
  | _ => none

end Pending

namespace Session

/-- The references on a block in slots. -/
def refs (s : Session) (b : BlockId) : Nat := s.slots.entries.countP fun e => e.2 == .ref b

/-- The waits that sleep on a block. -/
def sleepers (s : Session) (b : BlockId) : Nat := s.parked.countP fun w => w.block == b

/-- The stopped forks that hold a block as their parent. -/
def forks (s : Session) (b : BlockId) : Nat :=
  s.frames.countP fun f => f.pending.parent? == some b

/-- The children that are half-forked: made and not linked yet. -/
def halfForked (s : Session) : List BlockId := s.frames.filterMap (·.pending.half?)

end Session

end Lifecycle
