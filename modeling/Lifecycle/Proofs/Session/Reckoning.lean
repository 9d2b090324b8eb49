import Lifecycle.Proofs.Session.Settling

/-! Zombies between moves. Nobody waits for a zombie that is left, and none is a child of the
kernel: those that a wait is committed to are collected when the move that made them settles,
and the kernel's children are reaped as they exit. -/

namespace Lifecycle

namespace Kernel

variable {k : Kernel} {b c : BlockId}

/-- Finishing a sleeper leaves its target reaped. -/
theorem reaped_wake (hb : b < k.blocks.size) : ((k.wake b).2.block b).reaped = true := by
  unfold wake
  split
  · next hr => rw [(quiet_release k b).reaped, hr]
  · rw [(quiet_collect k b).reaped, block_update_self hb]
    rfl

/-- What is reaped stays so. -/
theorem reaped_wake_of_reaped (c : BlockId) (hr : (k.block b).reaped = true) :
    ((k.wake c).2.block b).reaped = true := by
  by_cases hbc : b = c
  · subst hbc
    rw [wake, if_pos hr, (quiet_release k b).reaped, hr]
  · rw [Block.reaped_of_core (core_wake_of_ne hbc), hr]

end Kernel

namespace Session

variable {s : Session} {h : List Event} {b : BlockId}

/-- Nobody waits for a zombie, and none has the kernel for its parent. -/
def Reckoned (s : Session) : Prop := ∀ b, (s.kernel.block b).state = .zombie →
  (s.kernel.block b).waiter = false ∧ (s.kernel.block b).parent ≠ some kernelPid

theorem reaped_foldl_wakeOne (ws : List ParkedWait) (out : List Woken) (t : Session)
    (hb : b < t.kernel.blocks.size) (hw : ∃ w ∈ ws, w.block = b) :
    ((ws.foldl wakeOne (out, t)).2.kernel.block b).reaped = true := by
  induction ws generalizing out t with
  | nil => simp at hw
  | cons v ws ih =>
    rw [List.foldl_cons, wakeOne]
    by_cases hv : v.block = b
    · refine foldl_wakeOne_of (P := fun k => (k.block b).reaped = true)
        (fun c hr => Kernel.reaped_wake_of_reaped c hr) ws _ { t with kernel := _ } ?_
      rw [hv]
      exact Kernel.reaped_wake hb
    · obtain ⟨w, hm, hwb⟩ := hw
      refine ih _ { t with kernel := (t.kernel.wake v.block).2 } ?_ ⟨w, ?_, hwb⟩
      · rw [Kernel.size_wake]
        exact hb
      · rcases List.mem_cons.1 hm with rfl | hm
        · exact absurd hwb hv
        · exact hm

/-- Settling reaps a block that somebody slept on and that has stopped running. -/
theorem reaped_settle (hb : b < s.kernel.blocks.size) (hw : s.sleepers b ≠ 0)
    (hstopped : (s.kernel.block b).state ≠ .running) :
    (s.settle.2.kernel.block b).reaped = true := by
  obtain ⟨w, hm, hwb⟩ := List.countP_pos_iff.1 (Nat.pos_of_ne_zero hw)
  obtain rfl := beq_iff_eq.1 hwb
  exact reaped_foldl_wakeOne _ _ { s with parked := s.parked.filter fun w => !isDue s.kernel w } hb
    ⟨w, List.mem_filter.2 ⟨hm, (isDue_iff ..).2 hstopped⟩, rfl⟩

/-- A zombie that a move leaves, before sleepers wake, was one before, or it exited in the move
and the kernel was not its parent or somebody waited for it. -/
theorem Sound.zombie_act (hs : s.Sound h) {move : Move} {es : List Event} {k' : Kernel}
    (he : s.Effect h move es k') (hr : (k'.block b).reaped = false)
    (hx : (k'.block b).exited = true) : (k'.block b).core = (s.kernel.block b).core ∨
      (s.kernel.block b).state = .running ∧ (k'.block b).waiter = (s.kernel.block b).waiter ∧
        ¬((k'.block b).parent = some kernelPid ∧ (k'.block b).waiter = false) := by
  have hadd : ∀ {k : Kernel} {pid name task}, k.blocks = s.kernel.blocks.add (.fresh pid name task) →
      (k.block b).exited = true → (k.block b).core = (s.kernel.block b).core := fun hb hx => by
    rw [Kernel.block_of_add hb] at hx ⊢
    split
    · next hn =>
      rw [if_pos hn] at hx
      cases hx
    · rfl
  have hupdate : ∀ {c : BlockId} {f : Block → Block}, (s.kernel.update c f).Quiet k' →
      (b = c → (f (s.kernel.block c)).exited = true → (f (s.kernel.block c)).reaped = true) →
      (k'.block b).core = (s.kernel.block b).core := fun hq hf => by
    rw [hq.exited] at hx
    rw [hq.reaped] at hr
    rw [hq.core]
    rw [Kernel.block_update] at hr hx ⊢
    split
    · next hc =>
      rw [if_pos hc] at hr hx
      rw [hc.1] at hr hx
      cases hr.symm.trans (hf hc.1 hx)
    · rfl
  cases he with
  | quiet quiet => exact Or.inl (quiet.core b)
  | surrendered free quiet => exact Or.inl (quiet.core b)
  | made blocks quiet =>
    exact Or.inl ((quiet.core b).trans (hadd blocks ((quiet.exited b).symm.trans hx)))
  | born blocks => exact Or.inl (hadd blocks hx)
  | linked half forker running held quiet =>
    have hrunning := hs.kernel.exited_of_not_exiting (hs.kernel.kindred.half _ half).2.2.1
    exact Or.inl (hupdate quiet fun _ hx => by cases hrunning.symm.trans hx)
  | unwound flight forker running quiet => exact Or.inl (hupdate quiet fun _ _ => rfl)
  | slept named found parent waiter reaped exited quiet =>
    exact Or.inl (hupdate quiet fun _ hx => by cases exited.symm.trans hx)
  | collected named found parent waiter reaped exited quiet =>
    exact Or.inl (hupdate quiet fun _ _ => rfl)
  | @left _ status c _ _ found forker running landed size core =>
    have hcore := core b
    rw [Block.reaped_of_core hcore] at hr
    rw [Block.exited_of_core hcore] at hx
    rw [Block.waiter_of_core hcore, Block.parent_of_core hcore, hcore]
    have hd := s.kernel.becomes c status.encode b
    generalize s.kernel.departure c status.encode b = y at hd hr hx ⊢
    cases hd with
    | departed self =>
      subst self
      refine Or.inr ⟨(Block.state_eq_running_iff _).2 ?_, rfl, of_decide_eq_false hr⟩
      exact ⟨hs.kernel.reaped_of_not_exiting running, hs.kernel.exited_of_not_exiting running⟩
    | reaped => cases hr
    | adopted _ _ running => cases running.symm.trans hx
    | kept => exact Or.inl rfl

theorem Sound.reckoned_step (hs : s.Sound h) (hw : s.Watched) (hc : s.Reckoned) {move : Move}
    (hp : move.permitted s h = true) : (s.step move).2.2.Reckoned := by
  obtain ⟨heffect, hsound⟩ := hs.act hp
  have hburies : (s.act move).2.kernel.Buries (s.step move).2.2.kernel := hsound.settle.1.buries
  intro b hz
  obtain ⟨hr, hx⟩ := (Block.state_eq_zombie_iff _).1 hz
  have hr₁ := hburies.unreaped b hr
  have hx₁ := (hburies.exited b).symm.trans hx
  rw [hburies.waiter, hburies.parent]
  rcases hs.zombie_act heffect hr₁ hx₁ with hcore | ⟨hrunning, hwaiter, hparent⟩
  · rw [Block.waiter_of_core hcore, Block.parent_of_core hcore]
    refine hc b ((Block.state_eq_zombie_iff _).2 ?_)
    rw [← Block.reaped_of_core hcore, ← Block.exited_of_core hcore]
    exact ⟨hr₁, hx₁⟩
  · -- a sleeper would have collected it
    have hunclaimed : ((s.act move).2.kernel.block b).waiter = false := by
      refine Bool.eq_false_iff.2 fun hclaimed => ?_
      have hbefore : s.sleepers b = 1 := by
        rw [hw b, if_pos ⟨hrunning, hwaiter ▸ hclaimed⟩]
      have hafter : (s.act move).2.sleepers b ≠ 0 := by
        rw [sleepers, (hs.parks hp).1, List.countP_append]
        unfold sleepers at hbefore
        omega
      have hstopped : ((s.act move).2.kernel.block b).state ≠ .running := fun hn => by
        rw [((Block.state_eq_running_iff _).1 hn).2] at hx₁
        cases hx₁
      have hlt : b < (s.act move).2.kernel.blocks.size := Nat.lt_of_not_le fun hle => by
        rw [Kernel.block_of_size_le hle] at hx₁
        cases hx₁
      have hreaped : ((s.step move).2.2.kernel.block b).reaped = true :=
        reaped_settle hlt hafter hstopped
      rw [hr] at hreaped
      cases hreaped
    exact ⟨hunclaimed, fun hp => hparent ⟨hp, hunclaimed⟩⟩

end Session

end Lifecycle
