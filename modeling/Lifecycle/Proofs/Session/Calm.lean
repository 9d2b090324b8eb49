import Lifecycle.Proofs.Kernel.Closing
import Lifecycle.Proofs.Kernel.Extent
import Lifecycle.Proofs.Session.Begetting
import Lifecycle.Proofs.Session.Commuting
import Lifecycle.Proofs.Session.Emptying

/-! What forks, waits and exits come to in a session in which no fork is stopped and nobody holds
a reference. Of the table it only matters then where each process stands, by its pid, and each
call changes that in a way which does not depend on anything else. -/

namespace Lifecycle

/-- Where a process stands that is installed and not reaped. -/
structure Station where
  block : BlockId
  parent : Option Pid
  state : ProcessState
  /-- Somebody is committed to waiting for it. -/
  waiter : Bool
  code : RawStatus

namespace Station

/-- A child that has been forked. -/
def fresh (b : BlockId) (parent : Pid) : Station := ⟨b, some parent, .running, false, 0⟩

/-- A child whose parent exits comes under the kernel if it runs, and is reaped if not. -/
def handedOn (st : Station) : Option Station :=
  if st.state = .running then some { st with parent := some kernelPid } else none

/-- Another process after the exit of `parent`. -/
def bereft (parent : Pid) (st : Station) : Option Station :=
  if st.parent = some parent then st.handedOn else some st

/-- A process that exits is reaped by the kernel or by whoever waits for it, or left for its
parent. -/
def departed (status : RawStatus) (st : Station) : Option Station :=
  if st.parent = some kernelPid ∨ st.waiter = true then none
  else some { st with state := .zombie, code := status }

end Station

def Block.station (b : BlockId) (x : Block) : Station := ⟨b, x.parent, x.state, x.waiter, x.code⟩

/-- A block shows where its process stands until it is reaped. -/
def Block.station? (b : BlockId) (x : Block) : Option Station :=
  if x.reaped then none else some (x.station b)

def Kernel.station? (k : Kernel) (p : Pid) : Option Station :=
  (k.pids.lookup p).bind fun b => (k.block b).station? b

namespace Block

variable {x y : Block} {b : BlockId} {st : Station}

theorem station?_eq_none_iff : x.station? b = none ↔ x.reaped = true := by
  unfold station?
  cases x.reaped <;> simp

theorem station?_of_reaped (h : x.reaped = true) : x.station? b = none :=
  station?_eq_none_iff.2 h

theorem station?_of_core (h : x.core = y.core) : x.station? b = y.station? b := by
  simp only [station?, station, state, parent_of_core h, exited_of_core h, waiter_of_core h,
    reaped_of_core h, code_of_core h]

theorem station?_eq_some_iff : x.station? b = some st ↔
    x.reaped = false ∧ st = x.station b := by
  unfold station?
  cases x.reaped <;> simp [eq_comm]

/-- Where a child stands after its parent has exited. -/
theorem station?_rehomed (h : x.station? b = some st) : x.rehomed.station? b = st.handedOn := by
  obtain ⟨hr, rfl⟩ := station?_eq_some_iff.1 h
  unfold rehomed Station.handedOn station? station state
  cases he : x.exited <;> simp [hr]

end Block

/-- Where a process stands after it has left. -/
theorem TableEntry.station?_left {e : TableEntry} {b : BlockId} {st : Station}
    (h : e.block.station? b = some st) (status : RawStatus) :
    (e.left status).block.station? b = st.departed status := by
  obtain ⟨hr, rfl⟩ := Block.station?_eq_some_iff.1 h
  unfold Station.departed Block.station
  by_cases hw : e.block.waiter = true
  · rw [left, if_pos hw, if_pos (Or.inr hw)]
    exact Block.station?_of_reaped (by
      rw [Block.reaped_of_core ((core_released _).trans (core_released _))]
      rfl)
  · rw [left, if_neg hw, TableEntry.departed]
    by_cases hp : e.block.parent = some kernelPid
    · rw [if_pos ⟨hp, Bool.eq_false_iff.2 hw⟩, if_pos (Or.inl hp)]
      exact Block.station?_of_reaped (Block.reaped_of_core (core_released _))
    · rw [if_neg fun h => hp h.1, if_neg fun h => h.elim hp hw]
      have hzombie : (e.block.leaving.published status).state = .zombie :=
        (Block.state_eq_zombie_iff _).2 ⟨hr, rfl⟩
      exact Block.station?_eq_some_iff.2 ⟨hr, congrArg (Station.mk b _ · _ _) hzombie.symm⟩

/-- What the station of a process shows of its block. -/
structure Kernel.Shows (k : Kernel) (p : Pid) (st : Station) : Prop where
  found : k.pids.lookup p = some st.block
  reaped : (k.block st.block).reaped = false
  parent : (k.block st.block).parent = st.parent
  state : (k.block st.block).state = st.state
  waiter : (k.block st.block).waiter = st.waiter
  code : (k.block st.block).code = st.code

theorem Kernel.Shows.station {k : Kernel} {p : Pid} {st : Station} (h : k.Shows p st) :
    (k.block st.block).station? st.block = some st :=
  Block.station?_eq_some_iff.2
    ⟨h.reaped, by rw [Block.station, h.parent, h.state, h.waiter, h.code]⟩

theorem Kernel.station?_eq_some_iff {k : Kernel} {p : Pid} {st : Station} :
    k.station? p = some st ↔ k.Shows p st := by
  unfold Kernel.station?
  rw [Option.bind_eq_some_iff]
  constructor
  · rintro ⟨b, hl, hb⟩
    obtain ⟨hr, rfl⟩ := Block.station?_eq_some_iff.1 hb
    exact ⟨hl, hr, rfl, rfl, rfl, rfl⟩
  · exact fun h => ⟨_, h.found, h.station⟩

namespace Session

/-- What orderly moves keep. -/
structure Led (s : Session) : Prop where
  regular : ∃ h, s.Regular h
  hale : s.Hale
  firm : s.Firm
  spaced : s.kernel.host.Spaced

/-- Contexts have numbers of their own, all from before the next. -/
structure Numbered (contexts : Assoc Pid Nat) (next : Nat) : Prop where
  lt : ∀ {p n}, contexts.get? p = some n → n < next
  distinct : ∀ {p q n}, contexts.get? p = some n → contexts.get? q = some n → p = q

/-- A session between the calls of processes that hold no references. -/
structure Calm (s : Session) : Prop extends Led s where
  frames : s.frames = []
  slots : s.slots = .empty
  numbered : Numbered s.contexts s.nextContext

/-- What a call makes of a calm session: afterwards the processes stand as given. -/
structure Turns (s s' : Session) (stations : Pid → Option Station) : Prop where
  calm : s'.Calm
  stations : ∀ p, s'.kernel.station? p = stations p
  /-- Whoever is reaped stays as he is. -/
  reaped : ∀ b, (s.kernel.block b).reaped = true →
    (s'.kernel.block b).core = (s.kernel.block b).core

variable {s s' : Session} {h : List Event} {p c : Pid} {b : BlockId} {st : Station}

/-! ### What is kept -/

theorem Numbered.insert {contexts : Assoc Pid Nat} {next : Nat} (h : Numbered contexts next)
    (c : Pid) : Numbered (contexts.insert c next) (next + 1) where
  lt {q n} hn := by
    rw [Assoc.get?_insert] at hn
    split at hn
    · cases hn
      exact Nat.lt_succ_self _
    · exact Nat.lt_succ_of_lt (h.lt hn)
  distinct {q r n} hq hr := by
    rw [Assoc.get?_insert] at hq hr
    split at hq <;> split at hr
    · next hqc hrc => rw [hqc, hrc]
    · cases hq
      exact absurd (h.lt hr) (Nat.lt_irrefl _)
    · cases hr
      exact absurd (h.lt hq) (Nat.lt_irrefl _)
    · exact h.distinct hq hr

theorem Numbered.erase {contexts : Assoc Pid Nat} {next : Nat} (h : Numbered contexts next)
    (p : Pid) : Numbered (contexts.erase p) next := by
  have hkept : ∀ {q n}, (contexts.erase p).get? q = some n → contexts.get? q = some n :=
    fun {q n} hn => by
      rw [Assoc.get?_erase] at hn
      split at hn
      · cases hn
      · exact hn
  exact ⟨fun hn => h.lt (hkept hn), fun hq hr => h.distinct (hkept hq) (hkept hr)⟩

theorem capacity_step (s : Session) (move : Move) :
    (s.step move).2.2.kernel.pids.capacity = s.kernel.pids.capacity := by
  obtain ⟨ds, hact⟩ := comes_act s move
  obtain ⟨ds', hsettle⟩ := comes_settle (s.act move).2
  exact hsettle.capacity.trans hact.capacity

/-- A stopped fork goes on by calls that nothing is refused to. -/
theorem finishFork_induction {P : Session → Prop}
    (hresume : ∀ s, P s → P (s.step (.resume none)).2.2) (n : Nat)
    {out : Reply × List Woken × Session} (h : P out.2.2) : P (finishFork n out).2.2 := by
  induction n generalizing out with
  | zero => exact h
  | succ n ih =>
    obtain ⟨reply, woke, s⟩ := out
    cases reply with
    | stopped service =>
      have hnext := hresume s h
      rw [finishFork]
      generalize s.step (.resume none) = out at hnext
      exact ih hnext
    | _ => exact h

theorem capacity_forkNow (s : Session) (p : Pid) (via : Via) :
    (s.forkNow p via).2.2.kernel.pids.capacity = s.kernel.pids.capacity :=
  finishFork_induction (P := fun t => t.kernel.pids.capacity = s.kernel.pids.capacity)
    (fun t ht => (t.capacity_step _).trans ht) 4 (s.capacity_step _)

theorem Led.step (h : s.Led) {move : Move} (hm : move.orderly s = true) :
    (s.step move).2.2.Led := by
  obtain ⟨events, r⟩ := h.regular
  have r' := r.step hm
  have hplaced := r'.sound.kernel.placed
  obtain ⟨ds, hd⟩ := comes_settle (s.act move).2
  exact ⟨⟨_, r'⟩, h.hale.step h.firm move hplaced.fault hplaced.live,
    h.firm.step h.hale.fault move, hd.spaced (spaced_act h.spaced move)⟩

theorem led_boot {config : Config} {refusal : Option Errno} (hb : boot config refusal = .ok s) :
    s.Led :=
  ⟨⟨[], regular_boot hb⟩, hale_boot hb, (firm_boot hb).1, spaced_boot hb⟩

namespace Calm

variable (hs : s.Calm)
include hs

theorem orderly_fork (via : Via) : (Move.fork p via).orderly s = true := by
  change s.frames.isEmpty = true
  rw [hs.frames]
  rfl

theorem forkNow_led (p : Pid) (via : Via) : (s.forkNow p via).2.2.Led :=
  finishFork_induction (fun _ hled => hled.step rfl) 4 (hs.step (hs.orderly_fork via))

/-- Nobody holds a reference but the table, and those who sleep. -/
theorem owed_eq (b : BlockId) : (s.account h).owed b = s.sleepers b := by
  have hrefs : s.refs b = 0 := by
    rw [refs, hs.slots]
    rfl
  have hforks : s.forks b = 0 := by
    rw [forks, hs.frames]
    rfl
  change s.refs b + s.sleepers b + s.forks b = s.sleepers b
  omega

/-- Whoever is installed is not reaped. -/
theorem lookup_iff : s.kernel.pids.lookup p = some b ↔
    b < s.kernel.blocks.size ∧ (s.kernel.block b).pid = p ∧ (s.kernel.block b).reaped = false := by
  obtain ⟨h, r⟩ := hs.regular
  have hk := r.sound.kernel
  have hcount : b < s.kernel.blocks.size → (s.kernel.block b).refCount =
      (if (s.kernel.block b).reaped then 0 else 1) + s.sleepers b := fun hlt => by
    have hgiven : (s.account h).given b = false :=
      Bool.eq_false_iff.2 fun hg => r.orderly.not_surrendered r.sound b (List.contains_iff_mem.1 hg)
    rw [hk.counted.count b hlt, hgiven, Bool.or_false, hs.owed_eq]
  constructor
  · intro hl
    obtain ⟨hlt, hpid⟩ := hk.placed.own hl
    refine ⟨hlt, hpid, Bool.eq_false_iff.2 fun hr => hk.counted.counted hl ?_⟩
    have hasleep : s.sleepers b = 0 := by
      rw [r.watched b, if_neg fun hrun => ?_]
      rw [(Block.state_eq_reaped_iff _).2 hr] at hrun
      cases hrun.1
    rw [hcount hlt, if_pos hr, hasleep]
  · rintro ⟨hlt, rfl, hr⟩
    refine hk.counted.installed b hlt ?_
    rw [hcount hlt, hr]
    simp

theorem shows (hl : s.kernel.pids.lookup p = some b) :
    s.kernel.Shows p ((s.kernel.block b).station b) :=
  ⟨hl, (hs.lookup_iff.1 hl).2.2, rfl, rfl, rfl, rfl⟩

theorem live : s.kernel.live = true := hs.hale.kernel.intact.live

theorem block_ne {r : Station} (hp : s.kernel.Shows p st) (hc : s.kernel.Shows c r)
    (hne : p ≠ c) : st.block ≠ r.block := fun hsame => by
  have hpid := (hs.lookup_iff.1 hp.found).2.1
  rw [hsame, (hs.lookup_iff.1 hc.found).2.1] at hpid
  exact hne hpid.symm

/-- Whoever was installed stands where he stood. -/
theorem station?_of_blocks (hl : s'.kernel.pids.lookup p = s.kernel.pids.lookup p)
    (hb : ∀ b < s.kernel.blocks.size, s'.kernel.block b = s.kernel.block b) :
    s'.kernel.station? p = s.kernel.station? p := by
  unfold Kernel.station?
  rw [hl]
  cases hfound : s.kernel.pids.lookup p with
  | none => rfl
  | some b => exact congrArg (Block.station? b) (hb b (hs.lookup_iff.1 hfound).1)

end Calm

/-- Nothing happens to the blocks that were there. -/
theorem Calm.turns (hs' : s'.Calm)
    (hb : ∀ b < s.kernel.blocks.size, s'.kernel.block b = s.kernel.block b) :
    s.Turns s' s'.kernel.station? where
  calm := hs'
  stations _ := rfl
  reaped b hr := by
    have hlt : b < s.kernel.blocks.size := Nat.lt_of_not_le fun hle => by
      rw [Kernel.block_of_size_le hle] at hr
      cases hr
    rw [hb b hlt]

/-! ### Forks -/

/-- A fork whose table has no pid left. -/
structure Repels (s s' : Session) : Prop where
  full : s.kernel.pids.free = 0
  turns : s.Turns s' s.kernel.station?
  contexts : s'.contexts = s.contexts
  parked : s'.parked = s.parked

/-- A fork that goes through. -/
structure Bears (s : Session) (p c : Pid) (s' : Session) : Prop where
  fresh : s.kernel.station? c = none
  turns : s.Turns s' fun x =>
    if x = c then some (.fresh s.kernel.blocks.size p) else s.kernel.station? x
  contexts : s'.contexts = s.contexts.insert c s.nextContext
  nextContext : s'.nextContext = s.nextContext + 1
  parked : s'.parked = s.parked

theorem Restored.repels (h : s.Restored s') (hs : s.Calm) (hled : s'.Led)
    (hfull : s.kernel.pids.free = 0) : s.Repels s' := by
  have hcalm : s'.Calm := {
    toLed := hled
    frames := h.frames.trans hs.frames
    slots := h.slots.trans hs.slots
    numbered := by
      rw [h.contexts, h.nextContext]
      exact hs.numbered }
  have hturns := hcalm.turns h.kernel.blocks
  exact ⟨hfull, { hturns with
    stations := fun x => hs.station?_of_blocks (h.kernel.installed x) h.kernel.blocks },
    h.contexts, h.parked⟩

theorem Begets.bears (h : s.Begets b c s') (hs : s.Calm) (hled : s'.Led)
    (hp : (s.kernel.block b).pid = p) : s.Bears p c s' := by
  have hvacant : s.kernel.pids.lookup c = none :=
    hs.hale.kernel.intact.valid.lookup_of_free h.kernel.vacant
  have hcalm : s'.Calm := {
    toLed := hled
    frames := h.frames.trans hs.frames
    slots := h.slots.trans hs.slots
    numbered := by
      rw [h.contexts, h.nextContext]
      exact hs.numbered.insert c }
  have hturns := hcalm.turns h.kernel.blocks
  refine ⟨?_, { hturns with stations := fun x => ?_ }, h.contexts, h.nextContext, h.parked⟩
  · rw [Kernel.station?, hvacant]
    rfl
  · by_cases hx : x = c
    · rw [if_pos hx, Kernel.station?, h.kernel.installed, if_pos hx]
      dsimp only [Option.bind_some]
      rw [h.kernel.child, hp]
      rfl
    · rw [if_neg hx]
      exact hs.station?_of_blocks ((h.kernel.installed x).trans (if_neg hx)) h.kernel.blocks

/-- A process that runs forks: the table has no pid left, or there is a child. -/
theorem Calm.forkNow (hs : s.Calm) (hp : s.kernel.Shows p st) (hr : st.state = .running) {via : Via}
    (hv : s.canCall via p = true) :
    (∃ error s', s.forkNow p via = (.forked via (.error error), [], s') ∧ s.Repels s') ∨
    ∃ c thread s', s.forkNow p via = (.forked via (.ok (c, thread)), [], s') ∧ s.Bears p c s' := by
  have hled := hs.forkNow_led p via
  have hexiting : (s.kernel.block st.block).exiting = false := by
    rw [hs.hale.kernel.even]
    exact ((Block.state_eq_running_iff _).1 (hp.state.trans hr)).2
  obtain ⟨reply, s₁, result, s', hstep, hfinishes, -, hends⟩ :=
    fork_finishes hs.firm hs.hale.settled via hs.spaced hs.hale.fault hv
  have hfork : s.forkNow p via = (.forked via result, [], s') := by
    rw [Session.forkNow, hstep]
    exact hfinishes.finishFork []
  rw [hfork] at hled
  cases hwhy : s.kernel.obstacle? p with
  | some error =>
    rw [hwhy] at hends
    obtain ⟨rfl, hrestored | ⟨q, hq, hx⟩⟩ := hends
    · have hfull : s.kernel.pids.free = 0 := by
        by_contra hfree
        have hnone := Kernel.obstacle?_eq_none_iff.2
          ⟨hs.live, ⟨_, hp.found, hexiting⟩, Nat.pos_of_ne_zero hfree⟩
        rw [hwhy] at hnone
        cases hnone
      exact Or.inl ⟨error, s', hfork, hrestored.repels hs hled hfull⟩
    · obtain rfl := Option.some.inj (hp.found.symm.trans hq)
      rw [hexiting] at hx
      cases hx
  | none =>
    rw [hwhy] at hends
    obtain ⟨q, c, hq, rfl, hbegets⟩ := hends
    exact Or.inr ⟨c, _, s', hfork, hbegets.bears hs hled (hs.lookup_iff.1 hq).2.1⟩

/-! ### Waits -/

/-- No blocks are made, and none comes back that was reaped. -/
theorem Calm.station?_eq (hs : s.Calm) (hs' : s'.Calm)
    (hsize : s'.kernel.blocks.size = s.kernel.blocks.size)
    (hpid : ∀ b, (s'.kernel.block b).pid = (s.kernel.block b).pid)
    (hreaped : ∀ b, (s.kernel.block b).reaped = true → (s'.kernel.block b).reaped = true)
    (p : Pid) : s'.kernel.station? p =
      (s.kernel.pids.lookup p).bind fun b => (s'.kernel.block b).station? b := by
  have hback : ∀ b, s'.kernel.pids.lookup p = some b → s.kernel.pids.lookup p = some b :=
    fun b hb => by
      obtain ⟨hlt, hown, hr⟩ := hs'.lookup_iff.1 hb
      refine hs.lookup_iff.2
        ⟨hsize ▸ hlt, (hpid b).symm.trans hown, Bool.eq_false_iff.2 fun h => ?_⟩
      rw [hreaped b h] at hr
      cases hr
  unfold Kernel.station?
  cases hl : s.kernel.pids.lookup p with
  | none =>
    cases hl' : s'.kernel.pids.lookup p with
    | none => rfl
    | some b => cases hl.symm.trans (hback b hl')
  | some b =>
    obtain ⟨hlt, hown, -⟩ := hs.lookup_iff.1 hl
    cases hr : (s'.kernel.block b).reaped with
    | false =>
      rw [hs'.lookup_iff.2 ⟨hsize ▸ hlt, (hpid b).trans hown, hr⟩]
    | true =>
      dsimp only [Option.bind_some]
      rw [Block.station?_of_reaped hr]
      cases hl' : s'.kernel.pids.lookup p with
      | none => rfl
      | some b' =>
        obtain rfl := Option.some.inj (hl.symm.trans (hback b' hl'))
        exact Block.station?_of_reaped hr

/-- One installed block changes. -/
theorem Calm.turns_of_quiet (hs : s.Calm) (hs' : s'.Calm)
    (hc : s.kernel.pids.lookup c = some b) {f : Block → Block} (hf : ∀ x, (f x).pid = x.pid)
    (hq : (s.kernel.update b f).Quiet s'.kernel) : s.Turns s' fun x =>
      if x = c then (f (s.kernel.block b)).station? b else s.kernel.station? x := by
  obtain ⟨hlt, hown, hunreaped⟩ := hs.lookup_iff.1 hc
  have hself : (s'.kernel.block b).core = (f (s.kernel.block b)).core := by
    rw [hq.core, Kernel.block_update_self hlt]
  have hother : ∀ x ≠ b, (s'.kernel.block x).core = (s.kernel.block x).core := fun x hx => by
    rw [hq.core, Kernel.block_update_of_ne hx]
  have hkept : ∀ x, (s.kernel.block x).reaped = true → x ≠ b := by
    rintro x hr rfl
    rw [hunreaped] at hr
    cases hr
  refine ⟨hs', fun x => ?_, fun x hr => hother x (hkept x hr)⟩
  have hstations := hs.station?_eq hs' (hq.size.trans (Kernel.size_update ..))
    (fun x => hq.view_of_update Block.pid_of_core (hf _) x)
    (fun x hr => (Block.reaped_of_core (hother x (hkept x hr))).trans hr) x
  rw [hstations]
  by_cases hx : x = c
  · rw [if_pos hx, hx, hc]
    exact Block.station?_of_core hself
  · rw [if_neg hx, Kernel.station?]
    refine Option.bind_congr fun y hy => Block.station?_of_core (hother y ?_)
    rintro rfl
    exact hx ((hs.lookup_iff.1 hy).2.1.symm.trans hown)

/-- A wait that is answered, or not yet. -/
structure Waits (s : Session) (p c : Pid) (via : Via) (destination : Option RawStatus)
    (reply : Reply) (stood : Option Station) (s' : Session) : Prop where
  step : s.step (.wait p (signedPid c) 0 via destination) = (reply, [], s')
  turns : s.Turns s' fun x => if x = c then stood else s.kernel.station? x
  contexts : s'.contexts = s.contexts

theorem Calm.targetPid? (hs : s.Calm) (hc : s.kernel.pids.lookup c = some b)
    (hroot : c ≠ kernelPid) : s.kernel.targetPid? (signedPid c) = some c := by
  obtain ⟨h, r⟩ := hs.regular
  exact targetPid?_signedPid r.sound.kernel.placed.valid hc hroot

/-- The kernel is nobody's child. -/
theorem Calm.ne_kernelPid (hs : s.Calm) (hc : s.kernel.Shows c st) (hparent : st.parent = some p) :
    c ≠ kernelPid := by
  rintro rfl
  obtain ⟨h, r⟩ := hs.regular
  have hroot := r.sound.kernel.lookup_root
  have hnone := r.sound.kernel.ordered.root_parent
  rw [Option.some.inj (hroot.symm.trans hc.found), hc.parent, hparent] at hnone
  cases hnone

/-- A wait that changes the block of the child alone. -/
theorem Calm.waits (hs : s.Calm) (hc : s.kernel.pids.lookup c = some b) {f : Block → Block}
    (hf : ∀ x, (f x).pid = x.pid) {via : Via} {destination : Option RawStatus} {reply : Reply}
    (hact : s.act (.wait p (signedPid c) 0 via destination) = (reply, s'))
    (hq : (s.kernel.update b f).Quiet s'.kernel) (hd : s'.Settled)
    (hcontexts : s'.contexts = s.contexts) (hnext : s'.nextContext = s.nextContext)
    (hframes : s'.frames = s.frames) (hslots : s'.slots = s.slots) :
    s.Waits p c via destination reply ((f (s.kernel.block b)).station? b) s' := by
  have hstep := step_of_settled hact hd
  have horderly : (Move.wait p (signedPid c) 0 via destination).orderly s = true := by
    change s.frames.isEmpty = true
    rw [hs.frames]
    rfl
  have hled := hs.step horderly
  rw [hstep] at hled
  have hcalm : s'.Calm := {
    toLed := hled
    frames := hframes.trans hs.frames
    slots := hslots.trans hs.slots
    numbered := by
      rw [hcontexts, hnext]
      exact hs.numbered }
  exact ⟨hstep, hs.turns_of_quiet hcalm hc hf hq, hcontexts⟩

/-- Whoever somebody sleeps on runs. -/
theorem Calm.running_of_parked (hs : s.Calm) {w : ParkedWait} (hw : w ∈ s.parked) :
    (s.kernel.block w.block).state = .running :=
  by_contra fun hn => by
    rw [← ne_eq, ← isDue_iff, hs.hale.settled w hw] at hn
    cases hn

/-- Nobody sleeps on a zombie that is collected. -/
theorem Calm.settled_collected (hs : s.Calm) {k' : Kernel}
    (hz : (s.kernel.block b).state = .zombie)
    (hq : (s.kernel.update b fun x => x.committed.collected).Quiet k') :
    Settled { s with kernel := k' } := by
  intro w hw
  have hrun := hs.running_of_parked hw
  have hne : w.block ≠ b := fun he => by
    rw [he, hz] at hrun
    cases hrun
  rw [isDue, hq.state, Kernel.block_update_of_ne hne, hrun]
  rfl

/-- Whoever goes to sleep on a child that runs is not due. -/
theorem Calm.settled_slept (hs : s.Calm) {k' : Kernel} (hr : (s.kernel.block b).state = .running)
    (hq : (s.kernel.update b Block.committed).Quiet k') {w : ParkedWait} (hw : w.block = b)
    (n : Nat) : Settled { s with kernel := k', parked := s.parked ++ [w], nextWait := n } := by
  intro v hv
  have hrun : (s.kernel.block v.block).state = .running := by
    rcases List.mem_append.1 hv with hv | hv
    · exact hs.running_of_parked hv
    · rw [List.mem_singleton.1 hv, hw]
      exact hr
  rw [isDue, hq.state, Kernel.view_update Block.state rfl, hrun]
  rfl

/-- A process waits for its child: it sleeps if the child runs, and collects its status if not. -/
theorem Calm.wait (hs : s.Calm) (hc : s.kernel.Shows c st) (hparent : st.parent = some p)
    (hwaiter : st.waiter = false) {via : Via} (hv : s.canCall via p = true)
    (destination : Option RawStatus) :
    (∃ s', st.state = .running ∧
      s.Waits p c via destination (.blocked s.nextWait) (some { st with waiter := true }) s' ∧
      s'.parked = s.parked ++
        [⟨s.nextWait, st.block, p, via, s.contexts.get? p, destination⟩]) ∨
    ∃ s', st.state = .zombie ∧
      s.Waits p c via destination
        (.waited ⟨via, .ok (c, st.code), copyOut destination (.ok (c, st.code))⟩) none s' ∧
      s'.parked = s.parked := by
  obtain ⟨h, r⟩ := hs.regular
  have htarget := hs.targetPid? hc.found (hs.ne_kernelPid hc hparent)
  have hanswer := r.sound.kernel.wait_answer p htarget hc.found hc.reaped
  have hwait := r.sound.kernel.wait p (signedPid c) 0
  rw [if_neg (not_not_intro (hc.parent.trans hparent)),
    if_neg (by rw [hc.waiter, hwaiter]; exact Bool.false_ne_true)] at hanswer
  have hact : s.act (.wait p (signedPid c) 0 via destination) =
      s.wait p (signedPid c) 0 via destination := rfl
  unfold Session.wait at hact
  rw [hv] at hact
  generalize s.kernel.wait p (signedPid c) 0 = out at hanswer hwait hact
  obtain ⟨outcome, k'⟩ := out
  dsimp only at hanswer hwait hact
  rw [if_neg (show ¬(!true) = true by decide)] at hact
  cases hwait with
  | refused quiet sound => split at hanswer <;> cases hanswer
  | collected named found parent waiter reaped exited quiet sound =>
    obtain rfl := Option.some.inj (htarget.symm.trans named)
    obtain rfl := Option.some.inj (hc.found.symm.trans found)
    have hzombie : (s.kernel.block st.block).state = .zombie :=
      (Block.state_eq_zombie_iff _).2 ⟨reaped, exited⟩
    rw [hc.code] at hact
    exact Or.inr ⟨_, hc.state.symm.trans hzombie,
      hs.waits hc.found (f := fun x => x.committed.collected) (fun _ => rfl) hact quiet
        (hs.settled_collected hzombie quiet) rfl rfl rfl rfl, rfl⟩
  | slept named found parent waiter reaped exited quiet sound =>
    obtain rfl := Option.some.inj (htarget.symm.trans named)
    obtain rfl := Option.some.inj (hc.found.symm.trans found)
    have hruns : (s.kernel.block st.block).state = .running :=
      (Block.state_eq_running_iff _).2 ⟨reaped, exited⟩
    have hstation : (s.kernel.block st.block).committed.station? st.block =
        some { st with waiter := true } :=
      Block.station?_eq_some_iff.2 ⟨reaped, by rw [← hc.parent, ← hc.state, ← hc.code]; rfl⟩
    have hwaits := hs.waits hc.found (f := Block.committed) (fun _ => rfl) hact quiet
      (hs.settled_slept hruns quiet rfl _) rfl rfl rfl rfl
    rw [hstation] at hwaits
    exact Or.inl ⟨_, hc.state.symm.trans hruns, hwaits, rfl⟩

/-! ### Exits -/

/-- In a calm session the list of a process holds all its children. -/
theorem Calm.link_iff (hs : s.Calm) (hroot : p ≠ kernelPid) {q : Pid} {x : BlockId}
    (hx : s.kernel.pids.lookup q = some x) :
    (s.kernel.entry x).link = some p ↔ (s.kernel.block x).parent = some p := by
  obtain ⟨h, r⟩ := hs.regular
  have hk := r.sound.kernel
  refine ⟨hs.hale.kernel.tidy.parent, fun hparent => ?_⟩
  have hne : x ≠ Kernel.root := by
    rintro rfl
    rw [hk.ordered.root_parent] at hparent
    cases hparent
  obtain ⟨-, -, hr⟩ := hs.lookup_iff.1 hx
  obtain ⟨y, hy, hattends, hforker⟩ := r.tree.tended hx hne ((Block.state_ne_reaped_iff _).2 hr)
  have hpid : (s.kernel.block y).pid = p := Option.some.inj (hy.symm.trans hparent)
  have hfound := (Kernel.attends_iff.1 hattends).1
  rw [hpid] at hfound
  have hforked : forkerOf h x = some y := hforker.resolve_left fun hroot' => by
    rw [hroot', hk.ordered.root_pid] at hpid
    exact hroot hpid.symm
  have hhalf : x ∉ (s.account h).half := by
    rw [account, halfForked, hs.frames]
    exact List.not_mem_nil
  exact Kernel.link_entry.2 ⟨hk.counted.counted hx,
    hk.kindred.kin hforked hhalf List.not_mem_nil hr hparent (Or.inr hfound)⟩

/-- A process that leaves; whoever waits for it is woken. -/
structure Leaves (s : Session) (p : Pid) (status : ExitStatus) (st : Station) (s' : Session) :
    Prop where
  step : (s.step (.exit p status)).2 =
    ((s.parked.filter (·.block == st.block)).map (·.finish (.ok (p, status.encode))), s')
  turns : s.Turns s' fun x => if x = p then st.departed status.encode
    else (s.kernel.station? x).bind (·.bereft p)
  contexts : s'.contexts = s.contexts.erase p
  parked : s'.parked = s.parked.filter (·.block != st.block)
  left : (s'.kernel.block st.block).station? st.block = st.departed status.encode
  code : (s'.kernel.block st.block).code = status.encode

/-- Where the processes stand after one has left. -/
theorem Calm.turns_of_loses (hs : s.Calm) (hp : s.kernel.Shows p st) (hroot : p ≠ kernelPid)
    {status : RawStatus} (hl : s.kernel.Loses p st.block status s'.kernel) (hs' : s'.Calm)
    (hsize : s'.kernel.blocks.size = s.kernel.blocks.size)
    (hleft : (s'.kernel.block st.block).station? st.block = st.departed status) :
    s.Turns s' fun x => if x = p then st.departed status
      else (s.kernel.station? x).bind (·.bereft p) := by
  -- whoever is reaped is in no list, and has left before
  have hreaped : ∀ x, (s.kernel.block x).reaped = true →
      (s'.kernel.block x).core = (s.kernel.block x).core := fun x hx => by
    have hne : x ≠ st.block := by
      rintro rfl
      rw [hp.reaped] at hx
      cases hx
    rw [hl.core_of_ne hne, if_neg]
    intro hlink
    obtain ⟨q, hq⟩ : ∃ q, s.kernel.pids.lookup q = some x :=
      ⟨_, hs.hale.kernel.intact.installed x (Kernel.link_entry.1 hlink).1⟩
    rw [(hs.lookup_iff.1 hq).2.2] at hx
    cases hx
  refine ⟨hs', fun x => ?_, hreaped⟩
  rw [hs.station?_eq hs' hsize hl.pid_eq
    (fun y hy => (Block.reaped_of_core (hreaped y hy)).trans hy)]
  by_cases hx : x = p
  · rw [if_pos hx, hx, hp.found, Option.bind_some, hleft]
  · rw [if_neg hx, Kernel.station?, Option.bind_assoc]
    refine Option.bind_congr fun y hy => ?_
    obtain ⟨-, hown, hr⟩ := hs.lookup_iff.1 hy
    have hne : y ≠ st.block := by
      rintro rfl
      exact hx (hown.symm.trans hl.pid)
    have hstation : (s.kernel.block y).station? y = some ((s.kernel.block y).station y) :=
      (hs.shows hy).station
    rw [Block.station?_of_core (hl.core_of_ne hne), hstation, Option.bind_some,
      Station.bereft, Block.station]
    by_cases hparent : (s.kernel.block y).parent = some p
    · rw [if_pos ((hs.link_iff hroot hy).2 hparent), if_pos hparent]
      exact Block.station?_rehomed hstation
    · rw [if_neg (mt (hs.link_iff hroot hy).1 hparent), if_neg hparent]
      exact hstation

theorem Calm.exit (hs : s.Calm) (hp : s.kernel.Shows p st) (hr : st.state = .running)
    (hroot : p ≠ kernelPid) (hcan : s.CanExit p) (status : ExitStatus) :
    ∃ s', s.Leaves p status st s' := by
  obtain ⟨hwoken, hsession, hdeparts⟩ := hs.hale.left hp.found hroot (hp.state.trans hr) status
  have hloses := hdeparts.loses
  have hstep := step_of_canExit hcan status
  have horderly : (Move.exit p status).orderly s = true := by
    change s.frames.isEmpty = true
    rw [hs.frames]
    rfl
  have hled := hs.step horderly
  have hsize : (s.leave p status).2.kernel.blocks.size = s.kernel.blocks.size :=
    (size_settle _).trans (Kernel.size_exitThread ..)
  rw [hstep] at hled
  generalize s.leave p status = out at *
  obtain ⟨woken, s'⟩ := out
  dsimp only at *
  subst hwoken
  have hcontexts : s'.contexts = s.contexts.erase p := congrArg Session.contexts hsession
  have hnext : s'.nextContext = s.nextContext := (congrArg Session.nextContext hsession :)
  have hcalm : s'.Calm := {
    toLed := hled
    frames := (congrArg Session.frames hsession).trans hs.frames
    slots := (congrArg Session.slots hsession).trans hs.slots
    numbered := by
      rw [hcontexts, hnext]
      exact hs.numbered.erase p }
  have hleft : (s'.kernel.block st.block).station? st.block = st.departed status.encode := by
    rw [hloses.block_self]
    exact TableEntry.station?_left (by rw [Kernel.block_entry, hp.station]) status.encode
  obtain ⟨reaped, hcore⟩ := hloses.core_self
  exact ⟨s', hstep, hs.turns_of_loses hp hroot hloses hcalm hsize hleft, hcontexts,
    congrArg Session.parked hsession, hleft, Block.code_of_core hcore⟩

/-- The exit of a process concerns its children alone. -/
theorem Leaves.station?_of_ne {status : ExitStatus} (hl : s.Leaves p status st s') (hc : c ≠ p)
    {r : Station} (hr : s.kernel.station? c = some r) (hparent : r.parent ≠ some p) :
    s'.kernel.station? c = some r := by
  rw [hl.turns.stations, if_neg hc, hr, Option.bind_some, Station.bereft, if_neg hparent]

/-! ### The beginning and the end -/

theorem calm_boot {config : Config} {refusal : Option Errno} (hb : boot config refusal = .ok s) :
    s.Calm := by
  have hled := led_boot hb
  obtain ⟨k, -, rfl⟩ := boot_eq hb
  exact ⟨hled, rfl, rfl, ⟨fun hn => (by cases hn), fun hn _ => (by cases hn)⟩⟩

/-- The kernel runs. -/
theorem Calm.shows_kernel (hs : s.Calm) : ∃ st, s.kernel.Shows kernelPid st ∧
    st.state = .running ∧ st.block = Kernel.root := by
  obtain ⟨h, r⟩ := hs.regular
  have hk := r.sound.kernel
  exact ⟨_, hs.shows hk.lookup_root, (Block.state_eq_running_iff _).2
    ⟨hk.reaped_of_not_exiting hk.exiting_root, hk.exited_of_not_exiting hk.exiting_root⟩, rfl⟩

/-- What is left once nobody runs but the kernel. -/
structure Cleared (s : Session) : Prop where
  stats : s.kernel.stats =
    ⟨s.kernel.pids.capacity, 1, s.kernel.pids.capacity - 1, 0⟩
  leaked : s.kernel.shutdown.1 = []

theorem Calm.cleared (hs : s.Calm) (hstopped : ∀ p st, s.kernel.Shows p st → p ≠ kernelPid →
    st.state ≠ .running) : s.Cleared := by
  obtain ⟨h, r⟩ := hs.regular
  have hk := r.sound.kernel
  have hrefs : ∀ b, s.refs b = 0 := fun b => by
    rw [refs, hs.slots]
    rfl
  have hroot : ∀ {p b}, s.kernel.pids.lookup p = some b → b = Kernel.root := fun {p b} hl =>
    r.eq_root hrefs (fun {p b} hl hne => hstopped p _ (hs.shows hl) fun hp => by
      rw [hp, hk.lookup_root] at hl
      exact hne (Option.some.inj hl).symm) hl
  have honly : ∀ p, p ∈ s.kernel.pids.livePids ↔ p = kernelPid := fun p => by
    rw [hk.placed.valid.mem_livePids]
    constructor
    · rintro ⟨b, hl⟩
      rw [← (hs.lookup_iff.1 hl).2.1, hroot hl, hk.ordered.root_pid]
    · rintro rfl
      exact ⟨_, hk.lookup_root⟩
  have hlive : s.kernel.pids.livePids = [kernelPid] :=
    List.perm_singleton.1 ((List.perm_ext_iff_of_nodup hk.placed.valid.nodup_livePids
      (List.nodup_singleton _)).2 fun p => (honly p).trans List.mem_singleton.symm)
  have htaken : ∀ p, s.kernel.pids.isAllocated p = true ↔ p ∈ s.kernel.pids.livePids :=
    fun p => by
      rw [hk.placed.taken, hk.placed.valid.mem_livePids]
      refine or_iff_left fun hm => ?_
      rw [account, hs.frames] at hm
      exact List.not_mem_nil hm
  have hfree := hk.placed.valid.free_add_length hk.placed.valid.nodup_livePids htaken
  rw [hlive, List.length_singleton] at hfree
  have hinstalled : s.kernel.installed = [Kernel.root] := by
    rw [Kernel.installed, Kernel.livePids, hlive, List.filterMap_cons_some
      ((hk.placed.valid.peek_eq _).trans hk.lookup_root)]
    rfl
  obtain ⟨st, hshows, hrunning, hblock⟩ := hs.shows_kernel
  have hstate := hshows.state
  rw [hblock, hrunning] at hstate
  refine ⟨?_, ?_⟩
  · have hlength : s.kernel.pids.live = 1 := by
      unfold PidMap.live
      omega
    have hrest : s.kernel.pids.free = s.kernel.pids.capacity - 1 := by omega
    simp [Kernel.stats, hlength, hrest, hinstalled, hstate]
  · rw [hs.hale.kernel.intact.leaked_eq, Kernel.livePids, hlive]
    rfl

end Session

end Lifecycle
