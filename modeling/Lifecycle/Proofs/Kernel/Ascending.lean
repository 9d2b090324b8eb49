import Lifecycle.Proofs.Kernel.Closing

/-! How blocks change in the course of a run. Flags rise in their order and none falls, and a
status is written in the change in which its process exits. What a fork or creation does to
blocks when it goes on is listed case by case, for any table. -/

namespace Lifecycle

/-- Steps that a process may take, or not take, from one state to another. -/
inductive ProcessState.LeadsTo : ProcessState → ProcessState → Prop
  | stays (state : ProcessState) : LeadsTo state state
  | exits : LeadsTo running zombie
  | collected : LeadsTo zombie reaped
  | gone : LeadsTo running reaped

namespace Block

/-- The flags of a block stand in their order. -/
structure Orderly (b : Block) : Prop where
  exiting : b.exited = true → b.exiting = true
  exited : b.reaped = true → b.exited = true

/-- How a block may change: no flag falls, and its status is written as it exits, if at all. -/
structure Ascends (x y : Block) : Prop where
  pid : y.pid = x.pid
  exiting : x.exiting = true → y.exiting = true
  exited : x.exited = true → y.exited = true
  reaped : x.reaped = true → y.reaped = true
  waiter : x.waiter = true → y.waiter = true
  code : x.exited = true ∨ y.exited = false → y.code = x.code

variable {x y z : Block}

namespace Ascends

theorem refl (x : Block) : x.Ascends x := ⟨rfl, id, id, id, id, fun _ => rfl⟩

theorem trans (h : x.Ascends y) (h' : y.Ascends z) : x.Ascends z where
  pid := h'.pid.trans h.pid
  exiting hx := h'.exiting (h.exiting hx)
  exited hx := h'.exited (h.exited hx)
  reaped hx := h'.reaped (h.reaped hx)
  waiter hx := h'.waiter (h.waiter hx)
  code := by
    rintro (hx | hz)
    · exact (h'.code (Or.inl (h.exited hx))).trans (h.code (Or.inl hx))
    · have hy : y.exited = false :=
        Bool.eq_false_iff.2 fun hy => Bool.eq_false_iff.1 hz (h'.exited hy)
      exact (h'.code (Or.inr hz)).trans (h.code (Or.inr hy))

theorem of_core (hc : y.core = x.core) : x.Ascends y where
  pid := pid_of_core hc
  exiting := (exiting_of_core hc).trans
  exited := (exited_of_core hc).trans
  reaped := (reaped_of_core hc).trans
  waiter := (waiter_of_core hc).trans
  code _ := code_of_core hc

/-- A process runs, is a zombie and is reaped, and may skip what is in between. -/
theorem state (h : x.Ascends y) : x.state.LeadsTo y.state := by
  cases hr : x.reaped with
  | true =>
    rw [x.state_eq_reaped_iff.2 hr, y.state_eq_reaped_iff.2 (h.reaped hr)]
    exact .stays _
  | false =>
    cases hx : x.exited with
    | true =>
      rw [x.state_eq_zombie_iff.2 ⟨hr, hx⟩]
      cases hy : y.reaped with
      | true => rw [y.state_eq_reaped_iff.2 hy]; exact .collected
      | false => rw [y.state_eq_zombie_iff.2 ⟨hy, h.exited hx⟩]; exact .stays _
    | false =>
      rw [x.state_eq_running_iff.2 ⟨hr, hx⟩]
      cases y.state with
      | running => exact .stays _
      | zombie => exact .exits
      | reaped => exact .gone

end Ascends

theorem Orderly.of_core (h : x.Orderly) (hc : y.core = x.core) : y.Orderly where
  exiting := by rw [exited_of_core hc, exiting_of_core hc]; exact h.exiting
  exited := by rw [reaped_of_core hc, exited_of_core hc]; exact h.exited

theorem ascends_unwound (x : Block) : x.Ascends x.unwound :=
  ⟨rfl, fun _ => rfl, fun _ => rfl, fun _ => rfl, id, fun _ => rfl⟩

theorem orderly_unwound (x : Block) : x.unwound.Orderly := ⟨fun _ => rfl, fun _ => rfl⟩

theorem ascends_committed (x : Block) : x.Ascends x.committed :=
  ⟨rfl, id, id, id, fun _ => rfl, fun _ => rfl⟩

theorem ascends_collected (x : Block) : x.Ascends x.collected :=
  ⟨rfl, id, id, fun _ => rfl, id, fun _ => rfl⟩

theorem Orderly.collected (h : x.Orderly) (he : x.exited = true) : x.collected.Orderly :=
  ⟨h.exiting, fun _ => he⟩

theorem ascends_adopt (x : Block) (p : Pid) : x.Ascends (x.adopt p) :=
  ⟨rfl, id, id, id, id, fun _ => rfl⟩

/-- A process that runs publishes its status. -/
theorem ascends_departed (hx : x.exited = false) (hr : x.reaped = false) (status : RawStatus) :
    x.Ascends (x.departed status) where
  pid := rfl
  exiting _ := rfl
  exited _ := rfl
  reaped h := by cases hr.symm.trans h
  waiter := id
  code := by
    rintro (h | h)
    · cases hx.symm.trans h
    · cases h

theorem orderly_departed (x : Block) (status : RawStatus) : (x.departed status).Orderly :=
  ⟨fun _ => rfl, fun _ => rfl⟩

end Block

namespace Kernel

/-- A table whose blocks have changed into those of another; the new ones are the kernel's. -/
structure Ascends (k k' : Kernel) : Prop where
  size : k.blocks.size ≤ k'.blocks.size
  block : ∀ b < k.blocks.size, (k.block b).Ascends (k'.block b)
  orderly : ∀ b < k.blocks.size, (k.block b).Orderly → (k'.block b).Orderly
  new : ∀ b, k.blocks.size ≤ b → b < k'.blocks.size →
    (k'.block b).Orderly ∧ (k'.block b).parent = some kernelPid

variable {k k₁ k' : Kernel}

namespace Ascends

theorem refl (k : Kernel) : k.Ascends k where
  size := Nat.le_refl _
  block _ _ := .refl _
  orderly _ _ := id
  new _ hb hb' := absurd hb' (Nat.not_lt_of_le hb)

/-- Changes in which no block is made before the last. -/
theorem trans (h : k.Ascends k₁) (h' : k₁.Ascends k') (hs : k'.blocks.size = k₁.blocks.size)
    (hp : ∀ b, k.blocks.size ≤ b → (k'.block b).parent = (k₁.block b).parent) :
    k.Ascends k' where
  size := hs ▸ h.size
  block b hb := (h.block b hb).trans (h'.block b (Nat.lt_of_lt_of_le hb h.size))
  orderly b hb ho := h'.orderly b (Nat.lt_of_lt_of_le hb h.size) (h.orderly b hb ho)
  new b hb hb' := by
    rw [hs] at hb'
    obtain ⟨ho, hparent⟩ := h.new b hb hb'
    exact ⟨h'.orderly b hb' ho, (hp b hb).trans hparent⟩

theorem of_size (hs : k'.blocks.size = k.blocks.size)
    (hb : ∀ b, (k.block b).Ascends (k'.block b))
    (ho : ∀ b, (k.block b).Orderly → (k'.block b).Orderly) : k.Ascends k' where
  size := Nat.le_of_eq hs.symm
  block b _ := hb b
  orderly b _ := ho b
  new _ hle hlt := absurd (hs ▸ hlt) (Nat.not_lt_of_le hle)

theorem of_update {c : BlockId} {f : Block → Block} (hq : (k.update c f).Quiet k')
    (hf : (k.block c).Ascends (f (k.block c)))
    (ho : (k.block c).Orderly → (f (k.block c)).Orderly) : k.Ascends k' := by
  refine .of_size (hq.size.trans (size_update ..)) (fun b => ?_) fun b hb => ?_
  · refine Block.Ascends.trans ?_ (.of_core (hq.core b))
    rw [block_update]
    split
    · next h => rw [h.1]; exact hf
    · exact .refl _
  · refine Block.Orderly.of_core ?_ (hq.core b)
    rw [block_update]
    split
    · next h => rw [h.1] at hb ⊢; exact ho hb
    · exact hb

/-- A block is made, and runs under the kernel. -/
theorem of_add {pid : Pid} {name : String} {task : TaskHandle}
    (hb : k₁.blocks = k.blocks.add (.fresh pid name task)) (hq : k₁.Quiet k') :
    k.Ascends k' where
  size := by
    rw [hq.size, size_of_add hb]
    exact Nat.le_succ _
  block b hlt := .of_core ((hq.core b).trans (congrArg _ (block_of_add_of_lt hb hlt)))
  orderly b hlt ho := ho.of_core ((hq.core b).trans (congrArg _ (block_of_add_of_lt hb hlt)))
  new b hle hlt := by
    rw [hq.size, size_of_add hb] at hlt
    obtain rfl : b = k.blocks.size := Nat.le_antisymm (Nat.le_of_lt_succ hlt) hle
    have hnew : k₁.block k.blocks.size = .fresh pid name task := by
      rw [block_of_add hb, if_pos rfl]
    refine ⟨Block.Orderly.of_core ?_ (hq.core _), by rw [hq.parent, hnew]; rfl⟩
    rw [hnew]
    exact ⟨nofun, nofun⟩

end Ascends

theorem Quiet.ascends (h : k.Quiet k') : k.Ascends k' :=
  .of_size h.size (fun b => .of_core (h.core b)) fun b hb => hb.of_core (h.core b)

theorem ascends_unwound {c : BlockId} (hq : (k.update c Block.unwound).Quiet k') :
    k.Ascends k' :=
  .of_update hq (Block.ascends_unwound _) fun _ => Block.orderly_unwound _

/-- An exit of a process that runs. -/
theorem ascends_departure {b : BlockId} {status : RawStatus} (he : (k.block b).exited = false)
    (hr : (k.block b).reaped = false) (hs : k'.blocks.size = k.blocks.size)
    (hc : ∀ x, (k'.block x).core = (k.departure b status x).core) : k.Ascends k' := by
  refine .of_size hs (fun x => ?_) fun x hx => ?_
  · refine Block.Ascends.trans ?_ (.of_core (hc x))
    have hd := k.becomes b status x
    generalize k.departure b status x = y at hd ⊢
    cases hd with
    | departed self => exact self ▸ Block.ascends_departed he hr status
    | reaped => exact Block.ascends_collected _
    | adopted => exact Block.ascends_adopt _ kernelPid
    | kept => exact .refl _
  · refine Block.Orderly.of_core ?_ (hc x)
    have hd := k.becomes b status x
    generalize k.departure b status x = y at hd ⊢
    cases hd with
    | departed => exact Block.orderly_departed _ status
    | reaped _ _ exited => exact hx.collected exited
    | adopted => exact ⟨hx.exiting, hx.exited⟩
    | kept => exact hx

/-! ### Forks and creations -/

namespace Advances

variable {pending : Pending} (h : k.Advances pending k')
include h

theorem ascends : k.Ascends k' := by
  cases h with
  | quiet quiet => exact quiet.ascends
  | made blocks quiet => exact .of_add blocks quiet
  | unwound flight quiet => exact ascends_unwound quiet
  | linked files running quiet =>
    exact .of_update quiet (Block.ascends_adopt ..) fun ho => ⟨ho.exiting, ho.exited⟩

/-- A block comes under another parent only if it is the child that the fork links. -/
theorem parent {c : BlockId} (hc : c < k.blocks.size) :
    (k'.block c).parent = (k.block c).parent ∨ ∃ q, pending = .forkFiles q c ∧
      (k.block q).exiting = false ∧
      (k'.block c).parent = ((k.block c).adopt (k.block q).pid).parent := by
  cases h with
  | quiet quiet => exact Or.inl (quiet.parent c)
  | made blocks quiet =>
    exact Or.inl ((quiet.parent c).trans (congrArg _ (block_of_add_of_lt blocks hc)))
  | unwound flight quiet =>
    exact Or.inl (quiet.view_of_update Block.parent_of_core rfl c)
  | @linked q child files running quiet =>
    by_cases hcc : c = child
    · subst hcc
      refine Or.inr ⟨q, files, running, ?_⟩
      rw [quiet.parent, block_update_self hc]
    · exact Or.inl (by rw [quiet.parent, block_update_of_ne hcc])

end Advances

/-- No fork links its child in a table that is shut down. -/
theorem Spent.parent_resume (h : k.Spent) (pending : Pending) (refusal : Option Errno)
    {c : BlockId} (hc : c < k.blocks.size) :
    ((k.resume pending refusal).2.block c).parent = (k.block c).parent := by
  rcases (advances_resume k pending refusal).parent hc with hsame | ⟨q, rfl, -⟩
  · exact hsame
  · have hcarried : (Pending.forkFiles q c).child? = some c := rfl
    obtain ⟨parent, error, k₁, -, ht, -, hk⟩ := h.resume_eq hcarried refusal
    rw [hk, Kernel.endFork]
    dsimp only
    rw [(quiet_release ..).parent, (quiet_abandon ..).parent, view_update Block.parent rfl,
      block_eq_of_table ht]

end Kernel

end Lifecycle
