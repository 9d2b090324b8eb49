import Lifecycle.Proofs.Kernel.Forking

/-! What a fork or creation that goes on does to the blocks of any table. It makes one at the most;
of those that there were, only the child of the fork changes. -/

namespace Lifecycle.Kernel

variable {k k' : Kernel}

/-! ### Making a block -/

@[simp] theorem live_destroy (k : Kernel) (b : BlockId) : (k.destroy b).live = k.live := by
  simp only [destroy, live_discardTaskOf]
  unfold freePid
  split <;> rfl

@[simp] theorem live_release (k : Kernel) (b : BlockId) : (k.release b).2.live = k.live := by
  rw [release_eq]
  split
  · exact live_destroy ..
  · rfl

@[simp] theorem live_unreserve (k : Kernel) (pid : Pid) : (k.unreserve pid).live = k.live := by
  unfold unreserve
  split <;> rfl

@[simp] theorem live_attach (k : Kernel) (c r : BlockId) : (k.attach c r).live = k.live := by
  unfold attach
  split <;> rfl

theorem install_frame (k : Kernel) (block : Block) :
    (k.install block).1 = k.blocks.size ∧
      (k.install block).2.blocks = k.blocks.add block ∧ (k.install block).2.live = k.live := by
  unfold install
  dsimp only
  split <;> exact ⟨rfl, rfl, rfl⟩

/-- A block that is refused leaves the others alone. -/
theorem make_error {pid : Pid} {name : String} {refusal : Option Errno} {error : ProcessError}
    (made : k.make pid name refusal = (.error error, k')) :
    k'.live = k.live ∧ k.Quiet k' := by
  cases refusal with
  | none => cases made
  | some errno =>
    have hq : k.Quiet (k.log (.refuseTask name errno)) := .of_table rfl
    cases made
    exact ⟨live_unreserve .., hq.trans (quiet_unreserve ..)⟩

/-- A block that is made has the next identity. -/
theorem make_ok {pid : Pid} {name : String} {refusal : Option Errno} {b : BlockId}
    (made : k.make pid name refusal = (.ok b, k')) :
    k'.live = k.live ∧ b = k.blocks.size ∧
      ∃ task, k'.blocks = k.blocks.add (.fresh pid name task) := by
  cases refusal with
  | some errno => cases made
  | none =>
    obtain ⟨task, k₁, hk, ht⟩ : ∃ task k₁, k.createTask name none = (.ok task, k₁) ∧
        k₁.table = k.table := ⟨_, _, rfl, rfl⟩
    obtain ⟨hb, hblocks, hlive⟩ := install_frame k₁ (.fresh pid name task)
    have htable : k₁.blocks = k.blocks := congrArg Table.blocks ht
    rw [htable] at hb hblocks
    simp only [make, hk, hb] at made
    cases made
    exact ⟨hlive.trans (congrArg Table.live ht), rfl, task, hblocks⟩

/-! ### Calls to the host -/

/-- An address space is copied between tasks that the host knows. -/
theorem tasks_of_cloneAddressSpace {src dst : TaskHandle} {refusal : Option Errno}
    (hk : k.cloneAddressSpace src dst refusal = (none, k')) :
    refusal = none ∧ ∃ record, k.host.task? src = some record := by
  cases refusal with
  | some errno => cases hk
  | none =>
    have hc := k.host.copiesSpace src dst
    unfold cloneAddressSpace at hk
    generalize k.host.cloneAddressSpace src dst = out at hc hk
    cases hc with
    | refused => cases hk
    | done known there => exact ⟨rfl, _, known⟩

/-- Files are copied between tasks that the host knows. -/
theorem tasks_of_cloneFdTable {src dst : TaskHandle} {refusal : Option Errno}
    (hk : k.cloneFdTable src dst refusal = (none, k')) :
    refusal = none ∧ (∃ record, k.host.task? src = some record) ∧
      ∃ record, k.host.task? dst = some record := by
  cases refusal with
  | some errno => cases hk
  | none =>
    have hc := k.host.copiesFiles src dst
    unfold cloneFdTable at hk
    generalize k.host.cloneFdTable src dst = out at hc hk
    cases hc with
    | refused => cases hk
    | done known there => exact ⟨rfl, ⟨_, known⟩, _, there⟩

/-- A thread is started in a task that the host knows. -/
theorem task_of_spawnThread {task : TaskHandle} {refusal : Option Errno} {thread : String}
    (hk : k.spawnThread task refusal = (.ok thread, k')) :
    refusal = none ∧ ∃ record, k.host.task? task = some record := by
  cases refusal with
  | some errno => cases hk
  | none =>
    unfold spawnThread Host.spawn at hk
    cases ht : k.host.task? task with
    | none => simp [ht] at hk
    | some record => exact ⟨rfl, record, rfl⟩

/-! ### What becomes of the blocks -/

/-- What a fork or creation that goes on does to the blocks of any table. -/
inductive Advances (k : Kernel) (pending : Pending) (k' : Kernel) : Prop
  | quiet (quiet : k.Quiet k')
  | made {k₁ : Kernel} {pid : Pid} {name : String} {task : TaskHandle}
      (blocks : k₁.blocks = k.blocks.add (.fresh pid name task)) (quiet : k₁.Quiet k')
  | unwound {child : BlockId} (flight : pending.child? = some child)
      (quiet : (k.update child Block.unwound).Quiet k')
  | linked {parent child : BlockId} (files : pending = .forkFiles parent child)
      (running : (k.block parent).exiting = false)
      (quiet : (k.update child (·.adopt (k.block parent).pid)).Quiet k')

/-- The child of a fork is given up, after calls to the host. -/
theorem Advances.unwind {k₀ : Kernel} {pending : Pending} {parent child : BlockId}
    (hc : pending.child? = some child) (hq : k₀.Quiet k) (progress : Progress) :
    k₀.Advances pending ((k.abandon child).endFork parent progress).2 := by
  have hend := (quiet_abandon k child).trans (quiet_release (k.abandon child) parent)
  have hstart : (k₀.update child Block.unwound).Quiet (k.update child Block.unwound) :=
    hq.update child fun _ => rfl
  have hout := hstart.trans hend
  unfold endFork
  dsimp only
  exact .unwound hc hout

theorem advances_linkChild (parent child : BlockId) {k₀ : Kernel} (ht : k.table = k₀.table) :
    k₀.Advances (.forkFiles parent child) (k.linkChild parent child).2 := by
  have hparent : k.block parent = k₀.block parent := block_eq_of_table ht parent
  have hlinks := k.links parent child
  generalize k.linkChild parent child = out at hlinks ⊢
  cases hlinks with
  | unwound => exact .unwind rfl (.of_table ht) _
  | attached running =>
    rw [hparent] at running
    have hthread := Quiet.of_table (table_attachThread (k.attach child parent)
      ((k.attach child parent).block child).task ((k.attach child parent).block child).pid)
    cases hl : k.family.parentLink? (k.block child).pid with
    | none =>
      refine .linked rfl running (Quiet.trans ?_ ((quiet_attach hl).trans hthread))
      rw [hparent]
      exact (Quiet.of_table ht).update child fun _ => rfl
    | some previous =>
      -- a fault, and no block changes
      have hk : k.Quiet (k.attach child parent) := by
        rw [attach_linked hl]
        exact ⟨rfl, fun _ => rfl⟩
      exact .quiet ((Quiet.of_table ht).trans (hk.trans hthread))

theorem advances_resume (k : Kernel) (pending : Pending) (refusal : Option Errno) :
    k.Advances pending (k.resume pending refusal).2 := by
  have hr := k.resumes pending refusal
  generalize k.resume pending refusal = out at hr ⊢
  cases hr with
  | uncreated made => exact .quiet (make_error made).2
  | created made =>
    obtain ⟨-, -, task, hblocks⟩ := make_ok made
    exact .made hblocks (.refl _)
  | @unborn parent _ _ k' made => exact .quiet ((make_error made).2.trans (quiet_release k' parent))
  | born made =>
    obtain ⟨-, -, task, hblocks⟩ := make_ok made
    exact .made hblocks (.refl _)
  | unwound held flight refused => exact .unwind flight refused.called.quiet _
  | copied space => exact .quiet (Called.space space).quiet
  | @linked parent child _ files => exact advances_linkChild parent child (Called.files files).table
  | @complete parent _ _ k' spawned =>
    exact .quiet ((Called.spawn spawned).quiet.trans (quiet_release k' parent))

namespace Advances

variable {pending : Pending} (h : k.Advances pending k')
include h

theorem size : k.blocks.size ≤ k'.blocks.size := by
  cases h with
  | quiet quiet => exact Nat.le_of_eq quiet.size.symm
  | made blocks quiet => exact Nat.le_of_lt (quiet.size ▸ size_of_add blocks ▸ Nat.lt_succ_self _)
  | unwound flight quiet => exact Nat.le_of_eq (quiet.size.trans (size_update ..)).symm
  | linked files running quiet => exact Nat.le_of_eq (quiet.size.trans (size_update ..)).symm

/-- Of the blocks that there were, only the child of the fork changes: it goes on or is reaped. -/
theorem block {b : BlockId} (hb : b < k.blocks.size) :
    (k'.block b).pid = (k.block b).pid ∧ ((k'.block b).core = (k.block b).core ∨
      pending.child? = some b ∧
        ((k'.block b).state = (k.block b).state ∨ (k'.block b).reaped = true)) := by
  cases h with
  | quiet quiet => exact ⟨quiet.pid b, Or.inl (quiet.core b)⟩
  | made blocks quiet =>
    rw [← block_of_add_of_lt blocks hb]
    exact ⟨quiet.pid b, Or.inl (quiet.core b)⟩
  | @unwound child flight quiet =>
    refine ⟨quiet.view_of_update Block.pid_of_core rfl b, ?_⟩
    by_cases hbc : b = child
    · subst hbc
      refine Or.inr ⟨flight, Or.inr ?_⟩
      rw [quiet.reaped, block_update_self hb]
      rfl
    · exact Or.inl (by rw [quiet.core, block_update_of_ne hbc])
  | @linked parent child files running quiet =>
    refine ⟨quiet.view_of_update Block.pid_of_core rfl b, ?_⟩
    by_cases hbc : b = child
    · subst hbc files
      exact Or.inr ⟨rfl, Or.inl ((quiet.state b).trans (view_update Block.state rfl b))⟩
    · exact Or.inl (by rw [quiet.core, block_update_of_ne hbc])

end Advances

/-- What resuming leaves as it was: every block but the child of the fork, which goes on
or is reaped. -/
structure Resumption (k : Kernel) (pending : Pending) (out : Progress × Kernel) : Prop where
  live : out.2.live = k.live
  size : k.blocks.size ≤ out.2.blocks.size
  pid : ∀ b < k.blocks.size, (out.2.block b).pid = (k.block b).pid
  block : ∀ b < k.blocks.size, (out.2.block b).core = (k.block b).core ∨
    pending.child? = some b ∧
      ((out.2.block b).state = (k.block b).state ∨ (out.2.block b).reaped = true)
  next : ∀ next, out.1 = .stopped next → next.parent? = pending.parent? ∧
    (next.child? = pending.child? ∨
      next.child? = some k.blocks.size ∧ k.blocks.size < out.2.blocks.size)

theorem live_unwind (k : Kernel) (child parent : BlockId) (progress : Progress) :
    ((k.abandon child).endFork parent progress).2.live = k.live := by
  have hchild : (k.abandon child).live = k.live := live_release ..
  rw [endFork, live_release, hchild]

theorem live_resume (k : Kernel) (pending : Pending) (refusal : Option Errno) :
    (k.resume pending refusal).2.live = k.live := by
  have hr := k.resumes pending refusal
  generalize k.resume pending refusal = out at hr ⊢
  have hcalled : ∀ {k'}, k.Called k' → k'.live = k.live := fun hc => congrArg Table.live hc.table
  cases hr with
  | uncreated made => exact (make_error made).1
  | created made => exact (make_ok made).1
  | @unborn parent _ _ k' made => exact (live_release k' parent).trans (make_error made).1
  | born made => exact (make_ok made).1
  | @unwound _ parent child _ k' held flight refused =>
    exact (live_unwind k' child parent _).trans (hcalled refused.called)
  | copied space => exact hcalled (.space space)
  | @linked parent child k' files =>
    have hlinks := k'.links parent child
    generalize k'.linkChild parent child = out at hlinks ⊢
    cases hlinks with
    | unwound => exact (live_unwind k' child parent _).trans (hcalled (.files files))
    | attached => exact (live_attach k' child parent).trans (hcalled (.files files))
  | @complete parent _ _ k' spawned =>
    exact (live_release k' parent).trans (hcalled (.spawn spawned))

/-- A fork that stops again keeps its parent, and its child if it has one. -/
theorem next_of_resume {pending next : Pending} {refusal : Option Errno}
    (hn : (k.resume pending refusal).1 = .stopped next) : next.parent? = pending.parent? ∧
      (next.child? = pending.child? ∨ next.child? = some k.blocks.size ∧
        k.blocks.size < (k.resume pending refusal).2.blocks.size) := by
  have hr := k.resumes pending refusal
  generalize k.resume pending refusal = out at hr hn ⊢
  cases hr with
  | born made =>
    cases hn
    obtain ⟨-, rfl, task, hblocks⟩ := make_ok made
    exact ⟨rfl, Or.inr ⟨rfl, size_of_add hblocks ▸ Nat.lt_succ_self _⟩⟩
  | copied space =>
    cases hn
    exact ⟨rfl, Or.inl rfl⟩
  | @linked parent child k' files =>
    have hlinks := k'.links parent child
    generalize k'.linkChild parent child = out at hlinks hn ⊢
    cases hlinks with
    | unwound => cases hn
    | attached =>
      cases hn
      exact ⟨rfl, Or.inl rfl⟩
  | _ => cases hn

theorem resumption (k : Kernel) (pending : Pending) (refusal : Option Errno) :
    k.Resumption pending (k.resume pending refusal) where
  live := live_resume ..
  size := (advances_resume ..).size
  pid _ hb := ((advances_resume ..).block hb).1
  block _ hb := ((advances_resume ..).block hb).2
  next _ hn := next_of_resume hn

end Lifecycle.Kernel
