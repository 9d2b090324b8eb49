import Lifecycle.Proofs.Session.Running

/-! References are conserved. The count of an installed block is the table's own
reference, until the block is reaped, and one for each slot, sleeping wait and
stopped fork that holds it; what any of them names is still at its pid. -/

namespace Lifecycle.Session

variable {s : Session} {h : List Event}

/-- Whether a slot, a sleeping wait or a stopped fork names a block. -/
def Names (s : Session) (b : BlockId) : Prop :=
  (∃ i, s.slots.get? i = some (.ref b)) ∨ (∃ w ∈ s.parked, w.block = b) ∨
    ∃ f ∈ s.frames, f.pending.parent? = some b ∨ f.pending.child? = some b

structure Conserves (s : Session) : Prop where
  live : s.kernel.live = true ∧ s.kernel.fault = none
  count : ∀ {p b}, s.kernel.pids.lookup p = some b → (s.kernel.block b).refCount =
    (if (s.kernel.block b).state = .reaped then 0 else 1) + s.refs b + s.sleepers b + s.forks b
  positive : ∀ {p b}, s.kernel.pids.lookup p = some b → 0 < (s.kernel.block b).refCount
  named : ∀ {b}, s.Names b → s.kernel.pids.lookup (s.kernel.block b).pid = some b
  /-- The pid of a block with a name is not handed out. -/
  kept : ∀ {b p k'}, s.Names b → s.kernel.reserve = (.ok p, k') → p ≠ (s.kernel.block b).pid

theorem Sound.forks_ne_zero {f : Frame} {b : BlockId} (hf : f ∈ s.frames)
    (hp : f.pending.parent? = some b) : s.forks b ≠ 0 := by
  refine Nat.pos_iff_ne_zero.1 (List.countP_pos_iff.2 ⟨f, hf, ?_⟩)
  rw [hp]
  exact beq_self_eq_true _

/-- The child of a stopped fork has not begun to exit. -/
theorem Sound.inFlight_running (hs : s.Sound h) {c : BlockId} (hc : c ∈ s.inFlight) :
    (∃ q, forkerOf h c = some q) ∧ (s.kernel.block c).exiting = false := by
  obtain ⟨f, hf, hp⟩ := mem_inFlight.1 hc
  have hfit := hs.ready.fits f hf
  refine ⟨hfit.forker hp, ?_⟩
  by_cases hh : c ∈ s.halfForked
  · exact (hs.kernel.kindred.half c hh).2.2.1
  · obtain ⟨pending, purpose⟩ := f
    cases pending with
    | create _ _ => cases hp
    | forkTask _ _ => cases hp
    | forkSpace _ _ => cases hp; exact absurd (mem_halfForked.2 ⟨_, hf, rfl⟩) hh
    | forkFiles _ _ => cases hp; exact absurd (mem_halfForked.2 ⟨_, hf, rfl⟩) hh
    | forkThread _ _ => cases hp; exact hfit.2.2

theorem Sound.lookup_of_names (hs : s.Sound h) {b : BlockId} (hb : s.Names b) :
    s.kernel.pids.lookup (s.kernel.block b).pid = some b := by
  rcases hb with ⟨i, hi⟩ | ⟨w, hw, rfl⟩ | ⟨f, hf, hp | hc⟩
  · exact hs.lookup_of_slot hi
  · apply hs.kernel.lookup_of_owed
    have hpos : 0 < s.sleepers w.block :=
      List.countP_pos_iff.2 ⟨w, hw, beq_self_eq_true _⟩
    simp only [account]
    omega
  · apply hs.kernel.lookup_of_owed
    have hne := Sound.forks_ne_zero hf hp
    simp only [account]
    omega
  · obtain ⟨⟨q, hq⟩, he⟩ := hs.inFlight_running (mem_inFlight.2 ⟨f, hf, hc⟩)
    exact hs.kernel.lookup_of_forker hq (hs.kernel.reaped_of_not_exiting he)

/-- A pid that is handed out has no block. -/
theorem Sound.lookup_of_reserve (hs : s.Sound h) {p : Pid} {k' : Kernel}
    (hk : s.kernel.reserve = (.ok p, k')) : s.kernel.pids.lookup p = none := by
  rcases hs.kernel.reserve with he | ⟨q, m, he, hnone, -⟩
  · cases he.symm.trans hk
  · cases he.symm.trans hk
    exact hnone

theorem Sound.conserves (hs : s.Sound h) (hg : ∀ b, Event.surrendered b ∉ h) : s.Conserves where
  live := ⟨hs.kernel.placed.live, hs.kernel.placed.fault⟩
  count {p b} hl := by
    have hgiven : h.contains (.surrendered b) = false :=
      Bool.eq_false_iff.2 fun hc => hg b (List.contains_iff_mem.1 hc)
    rw [hs.kernel.counted.count b (hs.kernel.placed.own hl).1]
    simp only [account, hgiven, Bool.or_false, Block.state_eq_reaped_iff]
    omega
  positive hl := Nat.pos_of_ne_zero (hs.kernel.counted.counted hl)
  named hb := hs.lookup_of_names hb
  kept hb hk hp := by
    have hl := hs.lookup_of_names hb
    rw [← hp, hs.lookup_of_reserve hk] at hl
    cases hl

/-- After any moves in which no bare block is released, references are conserved. -/
theorem references_conserved {config : Config} {refusal : Option Errno} {moves : List Move}
    (hb : boot config refusal = .ok s) (hl : s.lawful [] moves = true)
    (hg : ∀ b, Event.surrendered b ∉ s.history [] moves) : (s.run moves).Conserves :=
  ((sound_boot hb).1.run hl).conserves hg

/-- A fork stopped with its child made: the parent has the table's reference, a slot's
and the fork's, the child the table's, a slot's and a sleeper's. -/
theorem references_conserved_in_flight : ∃ s : Session, ∃ moves : List Move,
    boot { maxProcesses := 8 } none = .ok s ∧ s.lawful [] moves = true ∧
      (∀ b, Event.surrendered b ∉ s.history [] moves) ∧ (s.run moves).Conserves ∧
      ((s.run moves).kernel.block 1).refCount = 3 ∧
      ((s.run moves).kernel.block 2).refCount = 3 := by
  let moves : List Move :=
    [.fork 0 .context, .resume none, .resume none, .resume none, .resume none, .get 1 0,
      .fork 1 .context, .resume none, .resume none, .get 2 1, .wait 0 2 0 .context none]
  obtain ⟨s, hb, hl, hh, h₁, h₂⟩ : ∃ s : Session, boot { maxProcesses := 8 } none = .ok s ∧
      s.lawful [] moves = true ∧ s.history [] moves = [.born 1 0, .born 2 1, .committed 2 0] ∧
      ((s.run moves).kernel.block 1).refCount = 3 ∧
      ((s.run moves).kernel.block 2).refCount = 3 := ⟨_, rfl, by decide +kernel⟩
  have hg : ∀ b, Event.surrendered b ∉ s.history [] moves := by simp [hh]
  exact ⟨s, moves, hb, hl, hg, references_conserved hb hl hg, h₁, h₂⟩

end Lifecycle.Session
