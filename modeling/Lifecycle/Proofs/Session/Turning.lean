import Lifecycle.Proofs.Session.Tree

/-! What a move makes of each block: it goes on as it was, or it stops running, because
it exits or because its fork fails, and a wait that sleeps on it has its answer. -/

namespace Lifecycle.Session

/-! ### What a move tells the sleepers -/

/-- The child whose fork fails in a move. -/
def unwinds (s : Session) : Move → Option BlockId
  | .resume refusal =>
    match s.frames with
    | [] => none
    | frame :: _ =>
      match (s.kernel.resume frame.pending refusal).1 with
      | .failed _ => frame.pending.child?
      | _ => none
  | _ => none

/-- The process that exits in a move, and its status. -/
def departs (s : Session) : Move → Option (BlockId × ExitStatus)
  | .exit pid status =>
    match (s.exit pid status).1 with
    | .exited _ (some _) => (s.kernel.pids.lookup pid).map (·, status)
    | _ => none
  | _ => none

/-- What a move answers a sleeper on a block, if it ends the sleep. -/
def answer? (s : Session) (move : Move) (b : BlockId) :
    Option (Except ProcessError (Pid × RawStatus)) :=
  if s.unwinds move = some b then
    some (.error (.noSuchProcess (signedPid (s.kernel.block b).pid)))
  else (s.departs move).bind fun departed =>
    if departed.1 = b then some (.ok ((s.kernel.block b).pid, departed.2.encode)) else none

variable {s : Session} {h : List Event}

/-! ### Exits -/

/-- An exit is refused, or is that of the process at its pid. -/
theorem Sound.exit_cases (hs : s.Sound h) (pid : Pid) (status : ExitStatus) :
    (s.act (.exit pid status)).2.kernel = s.kernel ∧ s.departs (.exit pid status) = none ∨
      ∃ b q, s.departs (.exit pid status) = some (b, status) ∧
        s.kernel.pids.lookup pid = some b ∧ forkerOf h b = some q ∧
        (s.kernel.block b).exiting = false ∧
        (s.act (.exit pid status)).1 = .exited pid (some (s.kernel.exitPath b)) ∧
        ∀ x, ((s.act (.exit pid status)).2.kernel.block x).core =
          (s.kernel.departure b status.encode x).core := by
  unfold departs
  simp only [Session.act, Session.exit]
  split
  · exact Or.inl ⟨rfl, rfl⟩
  · next hn =>
    split
    · exact Or.inl ⟨rfl, rfl⟩
    · obtain ⟨b, hb⟩ := hs.ready.contexts hn
      have hl := hs.lookup_of_serves hb
      obtain ⟨q, hq⟩ := hb.2.1
      have hh : b ∉ s.halfForked := fun hm => hb.2.2.2 (inFlight_of_halfForked hm)
      obtain ⟨k', hk, -, -, core⟩ := hs.kernel.exitThread rfl hl hq hh hb.2.2.1 status
      simp only [hk, hl]
      exact Or.inr ⟨b, q, rfl, rfl, hq, hb.2.2.1, rfl, core⟩

/-! ### What a move makes of a block -/

/-- A block goes on as it did, or stops running and its sleeper is answered. -/
inductive Turn (x y : Block) : Option (Except ProcessError (Pid × RawStatus)) → Prop
  | on (running : y.state = .running ↔ x.state = .running) : Turn x y none
  | gone (pid : y.pid = x.pid) (reaped : y.reaped = true) :
      Turn x y (some (.error (.noSuchProcess (signedPid x.pid))))
  | left {status} (pid : y.pid = x.pid) (code : y.code = status) (exited : y.exited = true)
      (reaped : x.waiter = true → y.reaped = false) : Turn x y (some (.ok (x.pid, status)))

namespace Turn

variable {x y : Block} {answer : Option (Except ProcessError (Pid × RawStatus))}

theorem of_flags (hx : y.exited = x.exited) (hr : y.reaped = x.reaped) : Turn x y none :=
  .on (by rw [Block.state, Block.state, hx, hr])

theorem of_core (hc : y.core = x.core) : Turn x y none :=
  .of_flags (Block.exited_of_core hc) (Block.reaped_of_core hc)

/-- The count does not matter. -/
theorem congr_core {z : Block} (ht : Turn x y answer) (hc : z.core = y.core) :
    Turn x z answer := by
  cases ht with
  | on running =>
    exact .on (by
      rw [← running, Block.state, Block.state, Block.exited_of_core hc, Block.reaped_of_core hc])
  | gone pid reaped =>
    exact .gone ((Block.pid_of_core hc).trans pid) ((Block.reaped_of_core hc).trans reaped)
  | left pid code exited reaped =>
    exact .left ((Block.pid_of_core hc).trans pid) ((Block.code_of_core hc).trans code)
      ((Block.exited_of_core hc).trans exited) fun hw => (Block.reaped_of_core hc).trans (reaped hw)

/-- What runs goes on running exactly if there is no answer. -/
theorem running_iff (ht : Turn x y answer) (hx : x.state = .running) :
    y.state = .running ↔ answer = none := by
  cases ht with
  | on running => simp [running, hx]
  | gone pid reaped => simp [Block.state_eq_running_iff, reaped]
  | left pid code exited reaped => simp [Block.state_eq_running_iff, exited]

theorem of_running (ht : Turn x y answer) (hy : y.state = .running) : x.state = .running := by
  cases ht with
  | on running => exact running.1 hy
  | gone pid reaped => simp [Block.state_eq_running_iff, reaped] at hy
  | left pid code exited reaped => simp [Block.state_eq_running_iff, exited] at hy

end Turn

/-- A change of one block in neither of its last flags. -/
theorem turn_of_update {k k' : Kernel} {c : BlockId} {f : Block → Block}
    (hq : (k.update c f).Quiet k') (hx : (f (k.block c)).exited = (k.block c).exited)
    (hr : (f (k.block c)).reaped = (k.block c).reaped) (b : BlockId) :
    Turn (k.block b) (k'.block b) none :=
  .of_flags (hq.view_of_update Block.exited_of_core hx b)
    (hq.view_of_update Block.reaped_of_core hr b)

/-- A new block runs, as one that is not made yet does. -/
theorem turn_of_add {k k' : Kernel} {pid : Pid} {name : String} {task : TaskHandle}
    (hb : k'.blocks = k.blocks.add (.fresh pid name task)) (b : BlockId) :
    Turn (k.block b) (k'.block b) none := by
  rw [Kernel.block_of_add hb]
  split
  · next hnew =>
    rw [Kernel.block_of_size_le (Nat.le_of_eq hnew.symm)]
    exact .of_flags rfl rfl
  · exact .of_flags rfl rfl

theorem Sound.turn_resume (hs : s.Sound h) (refusal : Option Errno) (b : BlockId) :
    Turn (s.kernel.block b) ((s.act (.resume refusal)).2.kernel.block b)
      (s.answer? (.resume refusal) b) := by
  have hdeparts : s.departs (.resume refusal) = none := rfl
  have hon : s.unwinds (.resume refusal) ≠ some b → s.answer? (.resume refusal) b = none :=
    fun hu => by rw [answer?, if_neg hu, hdeparts]; rfl
  cases hf : s.frames with
  | nil =>
    rw [hon (by rw [unwinds, hf]; simp), act_resume_of_nil hf]
    exact .of_core rfl
  | cons f fs =>
    have hw := (hs.load hf).resume rfl (hs.fits hf) refusal
    have hquiet := quiet_proceed
      { s with kernel := (s.kernel.resume f.pending refusal).2, frames := fs } f.purpose
      (s.kernel.resume f.pending refusal).1
    have hunwinds : s.unwinds (.resume refusal) =
        match (s.kernel.resume f.pending refusal).1 with
        | .failed _ => f.pending.child?
        | _ => none := by rw [unwinds, hf]
    have hlt : ∀ {c}, f.pending.child? = some c → c < s.kernel.blocks.size := fun hc => by
      obtain ⟨q, hq⟩ := (hs.fits hf).forker hc
      exact hs.forker_lt hq
    rw [act_resume_of_cons hf]
    obtain ⟨pending, purpose⟩ := f
    generalize s.kernel.resume pending refusal = out at *
    obtain ⟨progress, k'⟩ := out
    refine Turn.congr_core ?_ (hquiet.core b)
    dsimp only at hw hunwinds hlt ⊢
    cases hw with
    | refused childless quiet _ =>
      rw [hon (by rw [hunwinds, childless]; simp)]
      exact .of_core (quiet.core b)
    | created blocks _ => rw [hon (by simp [hunwinds])]; exact turn_of_add blocks b
    | born blocks _ => rw [hon (by simp [hunwinds])]; exact turn_of_add blocks b
    | copied quiet _ => rw [hon (by simp [hunwinds])]; exact .of_core (quiet.core b)
    | linked running quiet _ =>
      rw [hon (by simp [hunwinds])]
      exact turn_of_update quiet rfl rfl b
    | started quiet _ => rw [hon (by simp [hunwinds])]; exact .of_core (quiet.core b)
    | @unwound _ child _ _ carried quiet _ =>
      have hu : s.unwinds (.resume refusal) = some child := hunwinds.trans carried
      by_cases hbc : child = b
      · subst hbc
        rw [answer?, if_pos hu]
        refine Turn.congr_core ?_ (quiet.core child)
        rw [Kernel.block_update_self (hlt carried)]
        exact .gone rfl rfl
      · rw [hon fun he => hbc (Option.some.inj (hu.symm.trans he))]
        refine .of_core ((quiet.core b).trans ?_)
        rw [Kernel.block_update_of_ne (Ne.symm hbc)]

theorem Sound.turn_exit (hs : s.Sound h) (pid : Pid) (status : ExitStatus) (b : BlockId) :
    Turn (s.kernel.block b) ((s.act (.exit pid status)).2.kernel.block b)
      (s.answer? (.exit pid status) b) := by
  have hunwinds : s.unwinds (.exit pid status) ≠ some b := fun hu => by cases hu
  rw [answer?, if_neg hunwinds]
  rcases hs.exit_cases pid status with ⟨hk, hd⟩ | ⟨c, q, hd, hl, hq, he, -, core⟩
  · rw [hk, hd]
    exact .of_core rfl
  · refine Turn.congr_core ?_ (core b)
    rw [hd, Option.bind_some]
    have hbecomes := s.kernel.becomes c status.encode b
    generalize s.kernel.departure c status.encode b = y at hbecomes ⊢
    cases hbecomes with
    | departed self =>
      subst self
      rw [if_pos rfl]
      refine .left rfl rfl rfl fun hw => ?_
      simp [Block.departed, hw]
    | reaped other _ exited =>
      rw [if_neg (Ne.symm other)]
      exact .on (by simp [Block.state_eq_running_iff, Block.collected, exited])
    | adopted other =>
      rw [if_neg (Ne.symm other)]
      exact .of_flags rfl rfl
    | kept other =>
      rw [if_neg (Ne.symm other)]
      exact .of_core rfl

theorem Sound.turn_wait (hs : s.Sound h) (caller : Pid) (target : Int64) (options : Int32)
    (via : Via) (destination : Option RawStatus) (b : BlockId) :
    Turn (s.kernel.block b)
      ((s.act (.wait caller target options via destination)).2.kernel.block b) none := by
  have hw := hs.kernel.wait caller target options
  simp only [Session.act, Session.wait]
  split
  · exact .of_core rfl
  · generalize s.kernel.wait caller target options = out at hw
    obtain ⟨outcome, k'⟩ := out
    dsimp only at hw ⊢
    cases hw with
    | refused quiet _ => exact .of_core (quiet.core b)
    | collected named found parent waiter reaped exited quiet _ =>
      refine .on ?_
      rw [quiet.state, Kernel.block_update]
      split
      · next hc =>
        obtain ⟨rfl, -⟩ := hc
        simp [Block.state_eq_running_iff, exited, Block.committed, Block.collected]
      · rfl
    | slept named found parent waiter reaped exited quiet _ =>
      exact turn_of_update quiet rfl rfl b

/-- Every move has one of these effects on every block. -/
theorem Sound.turn (hs : s.Sound h) {move : Move} (hp : move.permitted s h = true) (b : BlockId) :
    Turn (s.kernel.block b) ((s.act move).2.kernel.block b) (s.answer? move b) := by
  have hsilent : s.unwinds move = none → s.departs move = none → s.answer? move b = none :=
    fun hu hd => by rw [answer?, hu, if_neg (by simp), hd]; rfl
  cases move with
  | resume refusal => exact hs.turn_resume refusal b
  | exit pid status => exact hs.turn_exit pid status b
  | wait caller target options via destination =>
    rw [hsilent rfl rfl]
    exact hs.turn_wait caller target options via destination b
  | overRelease slot => cases hp
  | shutdown => cases hp
  | release slot =>
    rw [hsilent rfl rfl]
    have heffect := (hs.act hp).effect
    generalize s.actEvents (.release slot) _ _ = es at heffect
    cases heffect with
    | quiet quiet => exact .of_core (quiet.core b)
    | surrendered free quiet => exact .of_core (quiet.core b)
  | _ =>
    rw [hsilent rfl rfl]
    cases (hs.act hp).effect with
    | quiet quiet => exact .of_core (quiet.core b)

end Lifecycle.Session
