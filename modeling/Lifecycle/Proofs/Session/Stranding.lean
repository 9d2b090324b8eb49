import Lifecycle.Proofs.Session.Conservation
import Lifecycle.Proofs.Session.Settling

/-! What becomes of sleepers when the table is shut down. Nobody is woken and every pid is
freed, and from then on no exit is heard of any more: what still ends a sleep is that the
fork of its target fails, which it can as long as it has stopped. A wait on any other
process sleeps for ever, whatever is done. -/

namespace Lifecycle.Session

/-- A session whose table is shut down, and whose sleepers sleep on processes that run. -/
structure Dormant (s : Session) : Prop where
  live : s.kernel.live = false
  settled : s.Settled
  parked : ∀ w ∈ s.parked, w.block < s.kernel.blocks.size

/-- What a move may change then, before anybody is woken: the children of stopped forks,
which go on or are reaped. -/
structure Lapse (s s' : Session) : Prop where
  live : s'.kernel.live = false
  size : s.kernel.blocks.size ≤ s'.kernel.blocks.size
  parked : s'.parked = s.parked
  pid : ∀ b < s.kernel.blocks.size, (s'.kernel.block b).pid = (s.kernel.block b).pid
  block : ∀ b < s.kernel.blocks.size, (s'.kernel.block b).core = (s.kernel.block b).core ∨
    b ∈ s.inFlight ∧ ((s'.kernel.block b).state = (s.kernel.block b).state ∨
      (s'.kernel.block b).reaped = true)
  flight : ∀ c ∈ s'.inFlight, c ∈ s.inFlight ∨ s.kernel.blocks.size ≤ c

/-- What is left of such a session later on. -/
structure Remains (s t : Session) : Prop where
  dormant : t.Dormant
  size : s.kernel.blocks.size ≤ t.kernel.blocks.size
  asleep : ∀ w ∈ t.parked, w ∈ s.parked ∧
    (t.kernel.block w.block).pid = (s.kernel.block w.block).pid
  kept : ∀ w ∈ s.parked, w.block ∉ s.inFlight → w ∈ t.parked
  flight : ∀ c ∈ t.inFlight, c ∈ s.inFlight ∨ s.kernel.blocks.size ≤ c

/-- What a shutdown makes of the sleepers of a live session. -/
structure Strands (s : Session) : Prop where
  found : ∀ w ∈ s.parked, (s.kernel.block w.block).state = .running ∧
    s.kernel.pids.lookup (s.kernel.block w.block).pid = some w.block
  silent : (s.step .shutdown).2.1 = []
  asleep : (s.step .shutdown).2.2.parked = s.parked
  lost : ∀ p, (s.step .shutdown).2.2.kernel.pids.lookup p = none
  /-- A sleep ends in some continuation exactly if its target is the child of a stopped fork. -/
  ends : ∀ w ∈ s.parked,
    (∃ moves, w ∉ ((s.step .shutdown).2.2.run moves).parked) ↔ w.block ∈ s.inFlight
  woken : ∀ moves move, ∀ x ∈ (((s.step .shutdown).2.2.run moves).step move).2.1,
    ∃ w ∈ s.parked, w.block ∈ s.inFlight ∧ x = s.forsaken w

variable {s : Session}

/-! ### Moves in a session whose table is shut down -/

theorem Lapse.of_quiet {s' : Session} (hl : s'.kernel.live = false)
    (hq : s.kernel.Quiet s'.kernel) (hp : s'.parked = s.parked) (hf : s'.frames = s.frames) :
    s.Lapse s' :=
  ⟨hl, Nat.le_of_eq hq.size.symm, hp, fun b _ => hq.pid b, fun b _ => Or.inl (hq.core b),
    fun c hc => Or.inl (by rwa [inFlight, hf] at hc)⟩

/-- A fork that goes on may end, with its child reaped, or stop again. -/
theorem lapse_resume (hl : s.kernel.live = false) {f : Frame} {fs : List Frame}
    (hf : s.frames = f :: fs) (refusal : Option Errno) :
    s.Lapse (proceed { s with kernel := (s.kernel.resume f.pending refusal).2, frames := fs }
      f.purpose (s.kernel.resume f.pending refusal).1).2 := by
  have hr := Kernel.resumption s.kernel f.pending refusal
  have hchild : ∀ {c}, f.pending.child? = some c → c ∈ s.inFlight := fun hc =>
    mem_inFlight.2 ⟨f, hf ▸ List.mem_cons_self, hc⟩
  have hq := quiet_proceed { s with kernel := (s.kernel.resume f.pending refusal).2, frames := fs }
    f.purpose (s.kernel.resume f.pending refusal).1
  refine ⟨(live_proceed ..).trans (hr.live.trans hl), hq.size ▸ hr.size, parked_proceed ..,
    fun b hb => (hq.pid b).trans (hr.pid b hb), fun b hb => ?_, fun c hc => ?_⟩
  · rw [hq.core, hq.state, hq.reaped]
    exact (hr.block b hb).imp_right fun hb => ⟨hchild hb.1, hb.2⟩
  · obtain ⟨g, hg, hgc⟩ := mem_inFlight.1 hc
    rcases mem_frames_proceed hg with hg | ⟨next, hn, rfl⟩
    · exact Or.inl (mem_inFlight.2 ⟨g, hf ▸ List.mem_cons_of_mem _ hg, hgc⟩)
    · rcases (hr.next next hn).2 with hold | hnew
      · exact Or.inl (hchild (hold ▸ hgc))
      · exact Or.inr (Nat.le_of_eq (Option.some.inj (hnew.1.symm.trans hgc)))

theorem lapse_act (hl : s.kernel.live = false) (move : Move) : s.Lapse (s.act move).2 := by
  have hp := performsDown hl move
  generalize s.act move = out at hp ⊢
  cases hp with
  | refused => exact .of_quiet hl (.refl _) rfl rfl
  | exit => exact .of_quiet hl (.refl _) rfl rfl
  | resume stopped => exact lapse_resume hl stopped _
  | slot handles =>
    exact .of_quiet (handles.live.trans hl) handles.quiet handles.parked handles.frames

/-! ### Steps -/

/-- Refusing the call that the innermost fork has stopped before ends it, and the sleeps on
its child. -/
theorem refused_step (hd : s.kernel.Down) {f : Frame} {fs : List Frame} (hf : s.frames = f :: fs)
    (hlt : ∀ c, f.pending.child? = some c → c < s.kernel.blocks.size) (errno : Errno) :
    (s.step (.resume (some errno))).2.2.frames = fs ∧
      (s.step (.resume (some errno))).2.2.kernel.Down ∧
      (s.step (.resume (some errno))).2.2.kernel.fault = s.kernel.fault ∧
      ∀ w ∈ (s.step (.resume (some errno))).2.2.parked, f.pending.child? ≠ some w.block := by
  obtain ⟨error, hfailed, hdown, hfault⟩ := hd.resume_refused f.pending errno
  have hact : (s.act (.resume (some errno))).2 =
      { s with kernel := (s.kernel.resume f.pending (some errno)).2, frames := fs } := by
    rw [act_resume_of_cons hf, hfailed]
    cases f.purpose <;> rfl
  have hnext : (s.step (.resume (some errno))).2.2 = (settle
      { s with kernel := (s.kernel.resume f.pending (some errno)).2, frames := fs }).2 :=
    congrArg (fun t : Session => t.settle.2) hact
  obtain ⟨hdown', hfault'⟩ := down_settle
    (s := { s with kernel := (s.kernel.resume f.pending (some errno)).2, frames := fs }) hdown
  rw [hnext]
  refine ⟨frames_settle _, hdown', hfault'.trans hfault, fun w hw hc => ?_⟩
  rw [parked_settle, List.mem_filter, Bool.not_eq_true', ← Bool.not_eq_true, isDue_iff] at hw
  have hrunning := (Block.state_eq_running_iff _).1 (Classical.not_not.1 hw.2)
  rw [Kernel.reaped_resume_refused hc (hlt _ hc) errno] at hrunning
  cases hrunning.1

theorem running_of_settled (hs : s.Settled) {w : ParkedWait} (hw : w ∈ s.parked) :
    (s.kernel.block w.block).state = .running :=
  Classical.not_not.1 fun hn => Bool.false_ne_true ((hs w hw).symm.trans ((isDue_iff ..).2 hn))

namespace Dormant

variable (h : s.Dormant)
include h

/-- A target stops running only by being reaped, as the child of a stopped fork. -/
theorem due_act (move : Move) {w : ParkedWait} (hw : w ∈ s.parked)
    (hd : isDue (s.act move).2.kernel w = true) : w.block ∈ s.inFlight ∧
      ((s.act move).2.kernel.block w.block).reaped = true := by
  have hrunning := running_of_settled h.settled hw
  rw [isDue_iff] at hd
  rcases (lapse_act h.live move).block w.block (h.parked w hw) with hc | ⟨hf, hs | hr⟩
  · refine absurd ?_ hd
    rw [Block.state, Block.reaped_of_core hc, Block.exited_of_core hc]
    exact hrunning
  · exact absurd (hs.trans hrunning) hd
  · exact ⟨hf, hr⟩

theorem remains_step (move : Move) : s.Remains (s.step move).2.2 := by
  have hl := lapse_act h.live move
  have hparked : (s.step move).2.2.parked =
      s.parked.filter (!isDue (s.act move).2.kernel ·) := by
    rw [← hl.parked]
    exact parked_settle _
  have hsize : (s.step move).2.2.kernel.blocks.size = (s.act move).2.kernel.blocks.size :=
    size_settle _
  have hkept : ∀ w ∈ (s.step move).2.2.parked, w ∈ s.parked ∧
      ((s.act move).2.kernel.block w.block).state = .running := fun w hw => by
    rw [hparked, List.mem_filter, Bool.not_eq_true', ← Bool.not_eq_true, isDue_iff] at hw
    exact ⟨hw.1, Classical.not_not.1 hw.2⟩
  refine ⟨⟨(live_settle _).trans hl.live, settled_settle _, fun w hw => ?_⟩, hsize ▸ hl.size,
    fun w hw => ⟨(hkept w hw).1, ?_⟩, fun w hw hf => ?_, fun c hc => hl.flight c ?_⟩
  · rw [hsize]
    exact Nat.lt_of_lt_of_le (h.parked w (hkept w hw).1) hl.size
  · obtain ⟨hin, hrunning⟩ := hkept w hw
    exact (Block.pid_of_core (core_settle hrunning)).trans (hl.pid w.block (h.parked w hin))
  · rw [hparked, List.mem_filter, Bool.not_eq_true']
    exact ⟨hw, Bool.eq_false_iff.2 fun hd => hf (h.due_act move hw hd).1⟩
  · rwa [inFlight, ← frames_settle]

/-- Those woken in a step are told that their target is gone. -/
theorem woken_step (move : Move) {x : Woken} (hx : x ∈ (s.step move).2.1) :
    ∃ w ∈ s.parked, w.block ∈ s.inFlight ∧ x = s.forsaken w := by
  have hl := lapse_act h.live move
  have hdue : ∀ w ∈ (s.act move).2.parked, isDue (s.act move).2.kernel w = true →
      w ∈ s.parked ∧ w.block ∈ s.inFlight ∧
        ((s.act move).2.kernel.block w.block).reaped = true := fun w hw hd => by
    rw [hl.parked] at hw
    exact ⟨hw, h.due_act move hw hd⟩
  change x ∈ (s.act move).2.settle.1 at hx
  rw [settle_of_reaped fun w hw hd => (hdue w hw hd).2.2, List.mem_map] at hx
  obtain ⟨w, hw, rfl⟩ := hx
  obtain ⟨hw, hd⟩ := List.mem_filter.1 hw
  obtain ⟨hin, hflight, -⟩ := hdue w hw hd
  refine ⟨w, hin, hflight, ?_⟩
  rw [forsaken, forsaken, hl.pid w.block (h.parked w hin)]

/-! ### Runs -/

/-- The target of a sleeper was made before, so if it is in flight later it is now. -/
theorem flight_of_remains {t : Session} (hr : s.Remains t) {w : ParkedWait}
    (hw : w ∈ s.parked) (hf : w.block ∈ t.inFlight) : w.block ∈ s.inFlight :=
  (hr.flight _ hf).resolve_right (Nat.not_le.2 (h.parked w hw))

theorem remains_trans {t u : Session} (hst : s.Remains t) (htu : t.Remains u) : s.Remains u where
  dormant := htu.dormant
  size := Nat.le_trans hst.size htu.size
  asleep w hw := by
    obtain ⟨ht, hp⟩ := htu.asleep w hw
    exact ⟨(hst.asleep w ht).1, hp.trans (hst.asleep w ht).2⟩
  kept w hw hf := htu.kept w (hst.kept w hw hf) fun hm => hf (h.flight_of_remains hst hw hm)
  flight c hc := by
    rcases htu.flight c hc with hc | hc
    · exact hst.flight c hc
    · exact Or.inr (Nat.le_trans hst.size hc)

theorem remains_run (moves : List Move) : s.Remains (s.run moves) := by
  induction moves generalizing s with
  | nil =>
    exact ⟨h, Nat.le_refl _, fun w hw => ⟨hw, rfl⟩, fun w hw _ => hw, fun c hc => Or.inl hc⟩
  | cons move moves ih =>
    rw [run_cons]
    split
    · exact ih h
    · have hstep := h.remains_step move
      exact h.remains_trans hstep (ih hstep.dormant)

theorem woken_run (moves : List Move) (move : Move) {x : Woken}
    (hx : x ∈ ((s.run moves).step move).2.1) :
    ∃ w ∈ s.parked, w.block ∈ s.inFlight ∧ x = s.forsaken w := by
  have hr := h.remains_run moves
  obtain ⟨w, hw, hf, rfl⟩ := hr.dormant.woken_step move hx
  obtain ⟨hin, hpid⟩ := hr.asleep w hw
  refine ⟨w, hin, h.flight_of_remains hr hin hf, ?_⟩
  rw [forsaken, forsaken, hpid]

/-- All the stopped forks may be ended in turn, and every sleep on their children. -/
theorem ends_of_flight (hd : s.kernel.Down) (hfault : s.kernel.fault = none)
    (hlt : ∀ c ∈ s.inFlight, c < s.kernel.blocks.size) {w : ParkedWait}
    (hw : w.block ∈ s.inFlight) : ∃ moves, w ∉ (s.run moves).parked := by
  generalize hf : s.frames = fs
  induction fs generalizing s with
  | nil =>
    rw [inFlight, hf] at hw
    cases hw
  | cons f fs ih =>
    have hmem : ∀ c, c ∈ s.inFlight ↔ f.pending.child? = some c ∨
        ∃ g ∈ fs, g.pending.child? = some c := fun c => by simp [mem_inFlight, hf]
    obtain ⟨hframes, hdown, hsame, hended⟩ :=
      refused_step hd hf (fun c hc => hlt c ((hmem c).2 (Or.inl hc))) .enomem
    have hremains := h.remains_step (.resume (some .enomem))
    have hrun : ∀ moves, s.run (.resume (some .enomem) :: moves) =
        (s.step (.resume (some .enomem))).2.2.run moves := fun moves => by
      rw [run_cons, hfault]
      rfl
    have hrest : ∀ c, c ∈ (s.step (.resume (some .enomem))).2.2.inFlight ↔
        ∃ g ∈ fs, g.pending.child? = some c := fun c => by rw [mem_inFlight, hframes]
    rcases (hmem _).1 hw with hc | hg
    · refine ⟨[.resume (some .enomem)], fun hm => ?_⟩
      rw [hrun] at hm
      exact hended w hm hc
    · obtain ⟨moves, hm⟩ := ih hremains.dormant hdown (hsame.trans hfault)
        (fun c hc => Nat.lt_of_lt_of_le (hlt c ((hmem c).2 (Or.inr ((hrest c).1 hc))))
          hremains.size) ((hrest _).2 hg) hframes
      exact ⟨.resume (some .enomem) :: moves, by rwa [hrun]⟩

end Dormant

/-! ### Shutdown -/

variable {h : List Event}

theorem step_shutdown (hd : s.Settled) (hq : s.kernel.Quiet s.kernel.shutdown.2) :
    s.step .shutdown = (.leaked s.kernel.shutdown.1, [],
      { s with kernel := s.kernel.shutdown.2 }) := by
  have hsettled : Settled { s with kernel := s.kernel.shutdown.2 } := fun w hw => by
    have := hd w hw
    rwa [isDue, hq.state]
  have hact : s.act .shutdown =
      (.leaked s.kernel.shutdown.1, { s with kernel := s.kernel.shutdown.2 }) := rfl
  rw [step, hact]
  dsimp only
  rw [settle_of_settled hsettled]

theorem Sound.strands (hs : s.Sound h) (hd : s.Settled) : s.Strands := by
  obtain ⟨hdown, hq, hfault, -⟩ :=
    Kernel.shutdown_spec hs.kernel.placed.live hs.kernel.placed.valid
  have hfound : ∀ w ∈ s.parked, s.kernel.pids.lookup (s.kernel.block w.block).pid = some w.block :=
    fun w hw => hs.lookup_of_names (Or.inr (Or.inl ⟨w, hw, rfl⟩))
  have hstep := step_shutdown hd hq
  have hdormant : Dormant { s with kernel := s.kernel.shutdown.2 } := by
    refine ⟨hdown.live, fun w hw => ?_, fun w hw => ?_⟩
    · have := hd w hw
      rwa [isDue, hq.state]
    · change _ < s.kernel.shutdown.2.blocks.size
      rw [hq.size]
      exact (hs.kernel.placed.own (hfound w hw)).1
  have hforsaken : forsaken { s with kernel := s.kernel.shutdown.2 } = s.forsaken := by
    funext w
    simp only [forsaken, hq.pid]
  refine ⟨fun w hw => ⟨running_of_settled hd hw, hfound w hw⟩, ?_, ?_, ?_, fun w hw => ?_,
    fun moves move x hx => ?_⟩
  · rw [hstep]
  · rw [hstep]
  · rw [hstep]
    exact fun p => hdown.valid.lookup_of_free (hdown.free p)
  · rw [hstep]
    constructor
    · rintro ⟨moves, hm⟩
      exact Classical.byContradiction fun hf => hm ((hdormant.remains_run moves).kept w hw hf)
    · intro hf
      refine hdormant.ends_of_flight hdown (hfault.trans hs.kernel.placed.fault)
        (fun c hc => ?_) hf
      change _ < s.kernel.shutdown.2.blocks.size
      obtain ⟨⟨q, hq'⟩, -⟩ := hs.inFlight_running hc
      rw [hq.size]
      exact hs.forker_lt hq'
  · rw [hstep] at hx
    rw [← hforsaken]
    exact hdormant.woken_run moves move hx

/-- In any run of permitted moves, what a shutdown then makes of the sleepers. -/
theorem shutdown_strands {config : Config} {refusal : Option Errno} {moves : List Move}
    (hb : boot config refusal = .ok s) (hl : s.lawful [] moves = true) : (s.run moves).Strands := by
  obtain ⟨hs, hd⟩ := sound_boot hb
  exact (hs.run hl).strands (hs.run_settled hl hd)

/-- Of two sleepers, one on a process that runs and one on a child still half-forked, the
shutdown strands the first. -/
theorem shutdown_strands_one_of_two : ∃ s : Session, ∃ moves : List Move,
    boot { maxProcesses := 8 } none = .ok s ∧ s.lawful [] moves = true ∧
      (s.run moves).parked.map (·.block) = [2, 3] ∧ (s.run moves).inFlight = [3] ∧
      (s.run moves).Strands := by
  let moves : List Move :=
    [.fork 0 .context, .resume none, .resume none, .resume none, .resume none,
      .fork 1 .context, .resume none, .resume none, .resume none, .resume none,
      .wait 1 2 0 .context none, .fork 0 .context, .resume none, .wait 0 3 0 .context none]
  obtain ⟨s, hb, hl, hblocks, hflight⟩ : ∃ s : Session,
      boot { maxProcesses := 8 } none = .ok s ∧ s.lawful [] moves = true ∧
        (s.run moves).parked.map (·.block) = [2, 3] ∧ (s.run moves).inFlight = [3] :=
    ⟨_, rfl, by decide +kernel⟩
  exact ⟨s, moves, hb, hl, hblocks, hflight, shutdown_strands hb hl⟩

/-- A process sleeps on its child when the table is shut down. The child is found no more,
and whatever is done later the wait is not finished. -/
theorem stranded_by_shutdown : ∃ s : Session, ∃ moves : List Move, ∃ w : ParkedWait,
    boot { maxProcesses := 8 } none = .ok s ∧ s.lawful [] moves = true ∧
      (s.run moves).parked = [w] ∧
      (∀ p, ((s.run moves).step .shutdown).2.2.kernel.pids.lookup p = none) ∧
      ((s.run moves).step .shutdown).2.1 = [] ∧
      ∀ later, w ∈ (((s.run moves).step .shutdown).2.2.run later).parked := by
  let moves : List Move :=
    [.fork 0 .context, .resume none, .resume none, .resume none, .resume none,
      .fork 1 .context, .resume none, .resume none, .resume none, .resume none,
      .wait 1 2 0 .context none]
  obtain ⟨s, w, hb, hl, hparked, hflight⟩ : ∃ (s : Session) (w : ParkedWait),
      boot { maxProcesses := 8 } none = .ok s ∧ s.lawful [] moves = true ∧
        (s.run moves).parked = [w] ∧ (s.run moves).inFlight = [] :=
    ⟨_, ⟨0, 2, 1, .context, some 0, none⟩, rfl, by decide +kernel⟩
  obtain ⟨hs, hd⟩ := sound_boot hb
  have hstrands := (hs.run hl).strands (hs.run_settled hl hd)
  refine ⟨s, moves, w, hb, hl, hparked, hstrands.lost, hstrands.silent, fun later => ?_⟩
  refine Classical.byContradiction fun hm => ?_
  have hin := (hstrands.ends w (by rw [hparked]; exact List.mem_singleton.2 rfl)).1 ⟨later, hm⟩
  rw [hflight] at hin
  cases hin

end Lifecycle.Session
