import Lifecycle.Kernel.Fork
import Lifecycle.Proofs.Kernel.Making

/-! What a fork or creation comes to at each of its stops. It holds a reference on
its parent throughout, a pid until the child has its block, and from then until
the link the child as one that is still half-forked. -/

namespace Lifecycle

namespace Pending

/-- What a stopped fork or creation holds. -/
def load (a : Account) : Pending → Account
  | create pid _ => a.reserve pid
  | forkTask parent pid => (a.owe parent).reserve pid
  | forkSpace parent child => (a.owe parent).carry child
  | forkFiles parent child => (a.owe parent).carry child
  | forkThread parent _ => a.owe parent

/-- The child is the parent's own, and has not begun to exit when it gets its thread. -/
def Fits (k : Kernel) (a : Account) : Pending → Prop
  | create _ _ => True
  | forkTask _ _ => True
  | forkSpace parent child => a.forker child = some parent
  | forkFiles parent child => a.forker child = some parent
  | forkThread parent child => a.forker child = some parent ∧ child ∉ a.half ∧
      (k.block child).exiting = false

end Pending

namespace Kernel

variable {k : Kernel} {a : Account}

/-- What making the call that is due comes to. -/
inductive Resumed (k : Kernel) (a : Account) : Pending → Progress → Kernel → Prop
  | refused {pending error k'} (childless : pending.child? = none) (quiet : k.Quiet k')
      (sound : k'.Sound a) : Resumed k a pending (.failed error) k'
  | created {pid name task k'} (blocks : k'.blocks = k.blocks.add (.fresh pid name task))
      (sound : k'.Sound a) : Resumed k a (.create pid name) (.created k.blocks.size) k'
  | born {parent pid name task k'} (blocks : k'.blocks = k.blocks.add (.fresh pid name task))
      (sound : k'.Sound ((a.beget k.blocks.size parent |>.owe parent).carry k.blocks.size)) :
      Resumed k a (.forkTask parent pid) (.stopped (.forkSpace parent k.blocks.size)) k'
  | copied {parent child k'} (quiet : k.Quiet k') (sound : k'.Sound ((a.owe parent).carry child)) :
      Resumed k a (.forkSpace parent child) (.stopped (.forkFiles parent child)) k'
  | linked {parent child k'} (running : (k.block parent).exiting = false)
      (quiet : (k.update child (·.adopt (k.block parent).pid)).Quiet k')
      (sound : k'.Sound (a.owe parent)) :
      Resumed k a (.forkFiles parent child) (.stopped (.forkThread parent child)) k'
  | started {parent child thread k'} (quiet : k.Quiet k') (sound : k'.Sound a) :
      Resumed k a (.forkThread parent child) (.forked (k.block child).pid thread) k'
  | unwound {pending child error k'} (carried : pending.child? = some child)
      (quiet : (k.update child Block.unwound).Quiet k') (sound : k'.Sound a) :
      Resumed k a pending (.failed error) k'

/-! ### Beginning -/

theorem Sound.beginCreate (h : k.Sound a) (name : String) :
    (∃ error, k.beginCreate name = (.failed error, k)) ∨
      ∃ p k', k.beginCreate name = (.stopped (.create p name), k') ∧
        k.Quiet k' ∧ k'.Sound (a.reserve p) := by
  unfold Kernel.beginCreate
  rcases h.reserve with he | ⟨p, m, he, -, hs⟩
  · rw [he]
    exact Or.inl ⟨_, rfl⟩
  · rw [he]
    exact Or.inr ⟨p, _, rfl, ⟨rfl, fun _ => rfl⟩, hs⟩

/-- A fork begins if its parent is installed and there is a pid. -/
theorem Sound.beginFork (h : k.Sound a) (pid : Pid) :
    (∃ error k', k.beginFork pid = (.failed error, k') ∧ k.Quiet k' ∧ k'.Sound a) ∨
      ∃ q p k', k.beginFork pid = (.stopped (.forkTask q p), k') ∧ k.pids.lookup pid = some q ∧
        k.Quiet k' ∧ k'.Sound ((a.owe q).reserve p) := by
  have hb := k.beginsFork pid
  have hretained : ∀ q, k.Quiet (k.update q .retained) := fun q => .of_update q _ fun _ => rfl
  generalize k.beginFork pid = out at hb ⊢
  cases hb with
  | refused => exact Or.inl ⟨_, k, rfl, .refl k, h⟩
  | @full q _ _ found reserve =>
    have hs := h.retained found.installed
    rcases hs.reserve with he | ⟨p, m, he, -, -⟩
    · cases he.symm.trans reserve
      exact Or.inl ⟨_, _, rfl, (hretained q).trans (quiet_release ..), hs.release⟩
    · cases he.symm.trans reserve
  | @begun q _ _ found reserve =>
    rcases (h.retained found.installed).reserve with he | ⟨p, m, he, -, hp⟩
    · cases he.symm.trans reserve
    · cases he.symm.trans reserve
      exact Or.inr ⟨q, _, _, rfl, found.installed, (hretained q).trans ⟨rfl, fun _ => rfl⟩, hp⟩

/-! ### Unwinding -/

theorem quiet_abandon (k : Kernel) (child : BlockId) :
    (k.update child Block.unwound).Quiet (k.abandon child) :=
  quiet_release ..

theorem Sound.abandon (h : k.Sound a) {child parent : BlockId}
    (hf : a.forker child = some parent) (he : (k.block child).exiting = false) :
    (k.abandon child).Sound (a.land child) := by
  have hx := h.reaped_of_not_exiting he
  exact (h.reap (f := Block.unwound) (Block.rises_unwound _) hf hx rfl).release

/-- A fork that fails gives back the child and the reference on the parent. -/
theorem Sound.unwind {child parent : BlockId} (h : k.Sound a) (hf : a.forker child = some parent)
    (he : (k.block child).exiting = false) {a' : Account} (ha : a.land child = a'.owe parent)
    (error : ProcessError) {pending : Pending} (hc : pending.child? = some child) {k₀ : Kernel}
    (hk : k.table = k₀.table) :
    Resumed k₀ a' pending ((k.abandon child).endFork parent (.failed error)).1
      ((k.abandon child).endFork parent (.failed error)).2 := by
  have hs := h.abandon hf he
  rw [ha] at hs
  have hq := (Quiet.of_table hk).update child (f := Block.unwound) fun _ => rfl
  have hout := (hq.trans (quiet_abandon k child)).trans (quiet_release (k.abandon child) parent)
  simp only [endFork]
  exact .unwound hc hout hs.release

/-- A fork that has a child holds it and its parent, and the child has not begun to exit. -/
theorem Sound.of_flight {pending : Pending} {parent child : BlockId}
    (h : k.Sound (pending.load a)) (hp : pending.Fits k a) (held : pending.parent? = some parent)
    (flight : pending.child? = some child) : (pending.load a).forker child = some parent ∧
      (k.block child).exiting = false ∧ (pending.load a).land child = a.owe parent := by
  cases pending with
  | create pid name => cases flight
  | forkTask parent pid => cases flight
  | forkSpace parent child =>
    cases held
    cases flight
    exact ⟨hp, (h.kindred.half child List.mem_cons_self).2.2.1, Account.land_carry ..⟩
  | forkFiles parent child =>
    cases held
    cases flight
    exact ⟨hp, (h.kindred.half child List.mem_cons_self).2.2.1, Account.land_carry ..⟩
  | forkThread parent child =>
    cases held
    cases flight
    exact ⟨hp.1, hp.2.2, Account.land_of_not_mem hp.2.1⟩

/-! ### Resuming -/

/-- A block that is made for a fork is the child of its parent, still half-forked. -/
theorem Sound.born {parent child : BlockId} {pid : Pid} {k' : Kernel} {refusal : Option Errno}
    (h : k.Sound ((a.owe parent).reserve pid))
    (made : k.make pid (k.block parent).name refusal = (.ok child, k')) :
    Resumed k a (.forkTask parent pid) (.stopped (.forkSpace parent child)) k' := by
  obtain ⟨rfl, hs, ⟨task, hb⟩, hl⟩ := h.make_ok made
  have hlt : parent < k.blocks.size :=
    (h.placed.own (h.lookup_of_owed (b := parent) (by simp [Account.reserve]))).1
  have hsize : k.blocks.size < k'.blocks.size := by
    rw [size_of_add hb]
    exact Nat.lt_succ_self _
  have hblock : k'.block k.blocks.size = .fresh pid (k.block parent).name task := by
    rw [block_of_add hb, if_pos rfl]
  have hf : a.forker k.blocks.size = none := Option.eq_none_iff_forall_ne_some.2 fun q hq =>
    absurd (h.kindred.born hq).2 (Nat.lt_irrefl _)
  have hg : a.given k.blocks.size = false := Bool.eq_false_iff.2 fun hg =>
    absurd (h.kindred.given hg).1 (Nat.lt_irrefl _)
  exact .born hb (hs.beget hsize hlt hf hg (by rw [hblock]; rfl) (by rw [hblock]; rfl)
    (by rw [hblock]; exact hl))

theorem Sound.linkChild {parent child : BlockId} (h : k.Sound ((a.owe parent).carry child))
    (ha : a.adrift = []) (hf : a.forker child = some parent) {k₀ : Kernel}
    (hk : k.table = k₀.table) :
    Resumed k₀ a (.forkFiles parent child) (k.linkChild parent child).1
      (k.linkChild parent child).2 := by
  obtain ⟨_, _, he, hl⟩ := h.kindred.half child List.mem_cons_self
  have hlinks := k.links parent child
  generalize k.linkChild parent child = out at hlinks ⊢
  cases hlinks with
  | unwound => exact h.unwind hf he (Account.land_carry ..) _ rfl hk
  | attached running =>
    have hr := h.lookup_of_owed (b := parent) (by simp [Account.carry])
    have hs := h.attach hf hl (h.reaped_of_not_exiting he) hr (Or.inl rfl)
      (fun x hx => absurd (ha ▸ hx) List.not_mem_nil)
    have hland : (((a.owe parent).carry child).land child).settle child = a.owe parent := by
      rw [Account.land_carry, Account.settle, List.erase_of_not_mem]
      simp [Account.owe, ha]
    rw [hland] at hs
    have hq : (k₀.update child (·.adopt (k₀.block parent).pid)).Quiet
        (k.update child (·.adopt (k.block parent).pid)) := by
      rw [block_eq_of_table hk]
      exact (Quiet.of_table hk).update child fun _ => rfl
    have ht : ((k.attach child parent).attachThread ((k.attach child parent).block child).task
        ((k.attach child parent).block child).pid).table = (k.attach child parent).table := rfl
    exact .linked (by rwa [← block_eq_of_table hk])
      ((hq.trans (quiet_attach hl)).trans (.of_table ht)) (hs.of_table ht)

theorem Sound.resume {pending : Pending} (h : k.Sound (pending.load a)) (ha : a.adrift = [])
    (hp : pending.Fits k a) (refusal : Option Errno) :
    Resumed k a pending (k.resume pending refusal).1 (k.resume pending refusal).2 := by
  have hr := k.resumes pending refusal
  generalize k.resume pending refusal = out at hr ⊢
  cases hr with
  | uncreated made =>
    obtain ⟨hs, hq⟩ := Sound.make_error (a := a) h made
    exact .refused rfl hq hs
  | created made =>
    obtain ⟨rfl, hs, ⟨task, hb⟩, -⟩ := Sound.make_ok (a := a) h made
    exact .created hb hs
  | @unborn parent _ _ _ made =>
    obtain ⟨hs, hq⟩ := Sound.make_error (a := a.owe parent) h made
    exact .refused rfl (hq.trans (quiet_release ..)) hs.release
  | born made => exact Sound.born h made
  | @unwound _ parent child _ _ held flight refused =>
    obtain ⟨hf, he, hland⟩ := h.of_flight hp held flight
    rw [← block_eq_of_table refused.called.table] at he
    exact (h.of_table refused.called.table).unwind hf he hland _ flight refused.called.table
  | copied space =>
    have hcalled := Called.space space
    exact .copied hcalled.quiet (h.of_table hcalled.table)
  | linked files =>
    have ht := (Called.files files).table
    exact (Sound.of_table h ht).linkChild ha hp ht
  | @complete parent child _ _ spawned =>
    have hcalled := Called.spawn spawned
    rw [block_eq_of_table hcalled.table]
    have hs := Sound.of_table h hcalled.table
    exact .started (hcalled.quiet.trans (quiet_release ..)) hs.release

end Kernel

end Lifecycle
