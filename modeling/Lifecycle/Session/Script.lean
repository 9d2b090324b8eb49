import Lifecycle.Session.Query

/-! Scripts for a session. A fork or creation in a script says which calls to the
host are refused, and what is to be done when a call is reached, before it is
made; that work is a script again. A process does not exit in a script while a wait
that it made sleeps, even one made directly, which a session would let it do.
Running a script gives one report a step. -/

namespace Lifecycle

/-- The calls to the host that a step has refused. -/
structure Refusals where
  createTask : Option Errno := none
  cloneAddressSpace : Option Errno := none
  cloneFdTable : Option Errno := none
  spawn : Option Errno := none

/-- A step of a script. The hooks are the work before each call to the host. -/
inductive Op where
  | fork (pid : Pid) (via : Via) (refusals : Refusals)
      (atTask atSpace atFiles atThread : Option (List Op))
  /-- Create `count` blocks, into `slot` and those after it. -/
  | create (name : String) (slot count : Nat) (refusal : Option Errno)
      (atTask : Option (List Op))
  | move (move : Move)
  | ask (query : Query)

instance : Inhabited Op := ⟨.ask .livePids⟩

inductive Outcome
  | reply (reply : Reply)
  | answer (answer : Answer)
  | fault (fault : Fault)

/-- What a step came to, and what happened on the way. -/
inductive Report where
  | mk (outcome : Outcome) (woke : List Woken) (hooks : List (HostService × List Report))
      (calls : List HostCall) (view : Option View)

/-- What has happened in a step so far. -/
structure Gathered where
  woke : List Woken := []
  hooks : List (HostService × List Report) := []
  calls : List HostCall := []

/-- A step in progress: its last reply, what it has gathered, and the session. -/
structure Ongoing where
  reply : Reply
  gathered : Gathered := {}
  session : Session

namespace Session

/-- The calls that the second state has logged beyond the first, oldest first. -/
def callsSince (before after : Session) : List HostCall :=
  (after.kernel.calls.take (after.kernel.calls.length - before.kernel.calls.length)).reverse

/-- Whether a wait sleeps that was made for the process with the context it has. -/
def hasSleeper (s : Session) (pid : Pid) : Bool :=
  match s.contexts.get? pid with
  | some context => s.parked.any (·.context == some context)
  | none => false

/-- Whether a script puts a move off. -/
def putsOff (s : Session) : Move → Bool
  | .exit pid _ => s.hasSleeper pid
  | _ => false

/-- One more move in a step. -/
def advance (s : Session) (g : Gathered) (move : Move) : Ongoing :=
  let (reply, woke, after) := s.step move
  { reply := reply
    gathered := { g with woke := g.woke ++ woke, calls := g.calls ++ callsSince s after }
    session := after }

end Session

namespace Ongoing

/-- Whether the step has stopped before a call to the host, and can go on. -/
def isStopped (p : Ongoing) : Bool :=
  match p.reply with
  | .stopped _ => p.session.kernel.fault.isNone
  | _ => false

/-- At a call to the host, run the hook, then make the call or refuse it. -/
def atCall (p : Ongoing) (service : HostService) (refusal : Option Errno)
    (hook : Session → Option (List Report) × Session) : Ongoing :=
  if p.isStopped then
    let (reports, s) := hook p.session
    let g := { p.gathered with
      hooks := p.gathered.hooks ++ (reports.map (service, ·)).toList }
    if s.kernel.fault.isSome then { p with gathered := g, session := s }
    else s.advance g (.resume refusal)
  else p

/-- Whether the last creation succeeded. -/
def hasCreated (p : Ongoing) : Bool :=
  match p.reply with
  | .created (.ok _) => p.session.kernel.fault.isNone
  | _ => false

/-- Create further blocks as long as creation succeeds. -/
def createMore (name : String) : Nat → Nat → Ongoing → Ongoing
  | 0, _, p => p
  | count + 1, slot, p =>
    if p.hasCreated then
      createMore name count (slot + 1)
        ((p.session.advance p.gathered (.create name slot)).atCall .createTask none
          fun s => (none, s))
    else p

/-- The report of a step that is over. Where it woke waits, the ends of threads
come after all other calls, because a woken wait may act before them. -/
def report (p : Ongoing) (detail : Detail) : Report :=
  match p.session.kernel.fault with
  | some fault => .mk (.fault fault) [] [] [] none
  | none =>
    let calls := p.gathered.calls
    let calls := if p.gathered.woke.isEmpty then calls
      else calls.filter (!·.isTermination) ++ calls.filter (·.isTermination)
    .mk (.reply p.reply) p.gathered.woke p.gathered.hooks calls (p.session.view detail)

end Ongoing

namespace Session

mutual

def runOp (detail : Detail) : Op → Session → Report × Session
  | .fork pid via refusals atTask atSpace atFiles atThread, s =>
    let p := s.advance {} (.fork pid via)
    let p := p.atCall .createTask refusals.createTask (runHook detail atTask)
    let p := p.atCall .cloneAddressSpace refusals.cloneAddressSpace (runHook detail atSpace)
    let p := p.atCall .cloneFdTable refusals.cloneFdTable (runHook detail atFiles)
    let p := p.atCall .spawn refusals.spawn (runHook detail atThread)
    (p.report detail, p.session)
  | .create name slot count refusal atTask, s =>
    let p : Ongoing :=
      match count with
      | 0 => { reply := .idle, session := s }
      | count + 1 =>
        ((s.advance {} (.create name slot)).atCall .createTask refusal (runHook detail atTask))
          |>.createMore name count (slot + 1)
    (p.report detail, p.session)
  | .move move, s =>
    let p : Ongoing :=
      if s.putsOff move then { reply := .busy, session := s } else s.advance {} move
    (p.report detail, p.session)
  | .ask query, s => (.mk (.answer (s.ask query)) [] [] [] (s.view detail), s)

/-- Run steps one after the other, up to the first fault. -/
def runOps (detail : Detail) : List Op → Session → List Report × Session
  | [], s => ([], s)
  | op :: ops, s =>
    let (report, s) := runOp detail op s
    if s.kernel.fault.isSome then ([report], s)
    else
      let (reports, s) := runOps detail ops s
      (report :: reports, s)

def runHook (detail : Detail) : Option (List Op) → Session → Option (List Report) × Session
  | none, s => (none, s)
  | some ops, s =>
    let (reports, s) := runOps detail ops s
    (some reports, s)

end

end Session

end Lifecycle
