import Lifecycle.Proofs.Kernel.Departing
import Lifecycle.Proofs.Kernel.Thinning
import Lifecycle.Proofs.Kernel.Perishing

/-! What holds of a live table before and after every operation but an exit, whatever its callers
do: it is intact and tidy, who has begun to exit has exited, and no more references are counted
than there are holders. Nobody comes to run who did not. -/

namespace Lifecycle

/-- How a block changes to which nothing is added: references may go, and its process may be
reaped. -/
structure Block.Wanes (b b' : Block) : Prop where
  pid : b'.pid = b.pid
  parent : b'.parent = b.parent
  counted : b'.refCount ≠ 0 → b.refCount ≠ 0
  flags : (b'.exiting = b.exiting ∧ b'.exited = b.exited ∧ b'.reaped = b.reaped) ∨
    (b'.exiting = true ∧ b'.exited = true ∧ b'.reaped = true)

theorem Block.Wanes.of_core {b b' : Block} (hc : b'.core = b.core)
    (hn : b'.refCount ≠ 0 → b.refCount ≠ 0) : b.Wanes b' :=
  ⟨Block.pid_of_core hc, Block.parent_of_core hc, hn,
    Or.inl ⟨Block.exiting_of_core hc, Block.exited_of_core hc, Block.reaped_of_core hc⟩⟩

namespace Kernel

/-- Whoever runs afterwards ran before, and is waited for if somebody waited then. -/
def Spares (k k' : Kernel) : Prop := ∀ b, (k'.block b).state = .running →
  (k.block b).state = .running ∧ (k'.block b).waiter = (k.block b).waiter

/-- A live table whose blocks count no more references than the account knows of. -/
structure Hale (k : Kernel) (a : Account) : Prop where
  intact : k.Intact a.reserved
  tidy : k.Tidy
  even : ∀ b, (k.block b).exiting = (k.block b).exited
  bounded : ∀ b, (k.block b).refCount ≤ (if (k.block b).reaped then 0 else 1) + a.owed b

/-- A table that another has become, with its account. -/
structure LeadsTo (k k' : Kernel) (a : Account) : Prop where
  hale : k'.Hale a
  spares : k.Spares k'

variable {k k₁ k' : Kernel} {a a' : Account} {b : BlockId}

theorem Quiet.spares (h : k.Quiet k') : k.Spares k' := fun b hb =>
  ⟨by rwa [← h.state], h.waiter b⟩

theorem Spares.trans (h : k.Spares k₁) (h' : k₁.Spares k') : k.Spares k' := fun b hb => by
  obtain ⟨hrunning, hw⟩ := h' b hb
  obtain ⟨hbefore, hw'⟩ := h b hrunning
  exact ⟨hbefore, hw.trans hw'⟩

/-- A process that is reaped runs no more. -/
theorem spares_update {f : Block → Block} (hf : ∀ x, (f x).reaped = true) :
    k.Spares (k.update b f) := fun x hx => by
  rw [block_update] at hx ⊢
  split at hx
  · exact absurd ((Block.state_eq_running_iff _).1 hx).1 (by simp [hf])
  · next hxb =>
    rw [if_neg hxb]
    exact ⟨hx, rfl⟩

theorem Hale.refl (h : k.Hale a) : k.LeadsTo k a := ⟨h, fun _ hb => ⟨hb, rfl⟩⟩

theorem LeadsTo.trans (h : k.LeadsTo k₁ a') (h' : k₁.LeadsTo k' a) : k.LeadsTo k' a :=
  ⟨h'.hale, h.spares.trans h'.spares⟩

/-- A holder who is not counted may be on the account. -/
theorem Hale.owe (h : k.Hale a) (b : BlockId) : k.Hale (a.owe b) where
  intact := h.intact
  tidy := h.tidy
  even := h.even
  bounded x := by
    have hx := h.bounded x
    rw [Account.owed_owe]
    omega

/-! ### Single changes -/

theorem Thins.link {x : BlockId} {p : Pid} (ht : k.Thins k') (h : k.family.Coherent)
    (h' : k'.family.Coherent) (hb : (k.block x).Wanes (k'.block x))
    (hl : (k'.entry x).link = some p) : (k.entry x).link = some p := by
  rw [link_entry, h'.mirror, hb.pid] at hl
  rw [link_entry, h.mirror]
  exact ⟨hb.counted hl.1, (ht.lists p).subset hl.2⟩

theorem Hale.wane (h : k.Hale a) (hi : k'.Intact a'.reserved) (ht : k.Thins k')
    (hb : ∀ x, (k.block x).Wanes (k'.block x))
    (hn : ∀ x, (k'.block x).refCount ≤ (if (k'.block x).reaped then 0 else 1) + a'.owed x) :
    k'.Hale a' := by
  refine ⟨hi, h.tidy.wanes fun x => ⟨?_, ?_, ?_, ?_, ?_⟩, fun x => ?_, hn⟩
  · simpa using (hb x).pid
  · simpa using (hb x).parent
  · simpa using (hb x).counted
  · rw [block_entry, block_entry]
    exact (hb x).flags.imp And.right And.right
  · exact ht.link h.intact.family hi.family (hb x)
  · rcases (hb x).flags with ⟨hexiting, hexited, -⟩ | ⟨hexiting, hexited, -⟩
    · rw [hexiting, hexited]
      exact h.even x
    · rw [hexiting, hexited]

/-- Counts change, and no flags. -/
theorem Hale.quiet (h : k.Hale a) (hi : k'.Intact a'.reserved) (ht : k.Thins k')
    (hq : k.Quiet k') (hz : ∀ x, (k'.block x).refCount ≠ 0 → (k.block x).refCount ≠ 0)
    (hn : ∀ x, (k'.block x).refCount ≤ (if (k.block x).reaped then 0 else 1) + a'.owed x) :
    k.LeadsTo k' a' :=
  ⟨h.wane hi ht (fun x => .of_core (hq.core x) (hz x)) fun x => hq.reaped x ▸ hn x, hq.spares⟩

theorem Hale.release (h : k.Hale (a.owe b)) : k.LeadsTo (k.release b).2 a := by
  have hcount := refCount_release k b
  refine h.quiet (h.intact.release b) (h.intact.thins_release b) (quiet_release ..)
    (fun x hx => ?_) fun x => ?_
  · rw [hcount] at hx
    omega
  · have hx := h.bounded x
    rw [Account.owed_owe] at hx
    rw [hcount]
    by_cases hxb : x = b
    · rw [if_pos hxb] at hx ⊢
      omega
    · rwa [if_neg hxb] at hx ⊢

theorem Hale.retained (h : k.Hale a) (hz : (k.block b).refCount ≠ 0) :
    k.LeadsTo (k.update b .retained) (a.owe b) := by
  have ha : k.Alike (k.update b .retained) := .retained hz
  refine h.quiet (h.intact.alike ha) (.of_alike ha) (.of_update b _ fun _ => rfl)
    (fun x hx => by rwa [ne_eq, ← ha.vacant]) fun x => ?_
  have hx := h.bounded x
  rw [block_update, Account.owed_owe]
  split
  · next hxb =>
    rw [if_pos hxb.1]
    exact Nat.succ_le_succ hx
  · exact Nat.le_trans hx (Nat.add_le_add_left (Nat.le_add_right ..) _)

/-- The table's own reference is somebody's to give back when a process is reaped. -/
theorem Hale.reap (h : k.Hale a) {f : Block → Block}
    (hf : ∀ x, (f x).pid = x.pid ∧ (f x).task = x.task ∧ (f x).taskReleased = x.taskReleased ∧
      (f x).refCount = x.refCount)
    (hb : (k.block b).Wanes (f (k.block b))) (hr : ∀ x, (f x).reaped = true) :
    k.LeadsTo (k.update b f) (a.owe b) := by
  have ha : k.Alike (k.update b f) := .of_update b f hf
  refine ⟨h.wane (h.intact.alike ha) (.of_alike ha) (fun x => ?_) fun x => ?_, spares_update hr⟩
  · rw [block_update]
    split
    · next hx => rwa [hx.1]
    · exact .of_core rfl id
  · have hx := h.bounded x
    rw [block_update, Account.owed_owe]
    split
    · next hxb =>
      rw [(hf _).2.2.2, hr, if_pos rfl, if_pos hxb.1]
      split at hx <;> omega
    · omega

theorem Hale.collected (h : k.Hale a) (he : (k.block b).exited = true) :
    k.LeadsTo (k.update b .collected) (a.owe b) :=
  h.reap (fun _ => ⟨rfl, rfl, rfl, rfl⟩)
    ⟨rfl, rfl, id, Or.inr ⟨(h.even b).trans he, he, rfl⟩⟩ fun _ => rfl

theorem Hale.unwound (h : k.Hale a) (b : BlockId) :
    k.LeadsTo (k.update b .unwound) (a.owe b) :=
  h.reap (fun _ => ⟨rfl, rfl, rfl, rfl⟩) ⟨rfl, rfl, id, Or.inr ⟨rfl, rfl, rfl⟩⟩ fun _ => rfl

/-- A wait is committed. -/
theorem Hale.committed (h : k.Hale a) (b : BlockId) : (k.update b .committed).Hale a := by
  have ha : k.Alike (k.update b .committed) := .of_update b _ fun _ => ⟨rfl, rfl, rfl, rfl⟩
  refine h.wane (h.intact.alike ha) (.of_alike ha) (fun x => ?_) fun x => ?_
  · rw [block_update]
    split <;> exact ⟨rfl, rfl, id, Or.inl ⟨rfl, rfl, rfl⟩⟩
  · rw [block_update]
    split <;> exact h.bounded x

/-- The host is called, or a check fails. -/
theorem Hale.alike (h : k.Hale a) (ha : k.Alike k') (hb : ∀ x, k'.block x = k.block x) :
    k.LeadsTo k' a := by
  have hq : k.Quiet k' := ⟨ha.size, fun x => congrArg Block.core (hb x)⟩
  refine h.quiet (h.intact.alike ha) (.of_alike ha) hq (fun x hx => by rwa [← hb]) fun x => ?_
  rw [hb]
  exact h.bounded x

/-- A pid is taken or given back. -/
theorem Hale.with_pids (h : k.Hale a) {m : PidMap} (hi : { k with pids := m }.Intact a'.reserved)
    (hl : m.lookup = k.pids.lookup) (ho : a'.owed = a.owed) :
    k.LeadsTo { k with pids := m } a' := by
  refine h.quiet hi (.of_lookup rfl hl) ⟨rfl, fun _ => rfl⟩ (fun _ => id) fun x => ?_
  rw [ho]
  exact h.bounded x

theorem Hale.reserve (h : k.Hale a) : k.reserve = (.error k.pids.exhausted, k) ∨
    ∃ p k', k.reserve = (.ok p, k') ∧ k.LeadsTo k' (a.reserve p) := by
  rcases reserve_spec h.intact.live h.intact.valid with he | ⟨-, p, m, he, hv, ht, -, hc, -, hl, hta⟩
  · exact Or.inl he.2
  · have hi := h.intact.with_pids (h.intact.placed.reserve hv ht hc hl hta).2 hl
    have hleads : k.LeadsTo _ (a.reserve p) := h.with_pids hi hl rfl
    exact Or.inr ⟨p, _, he, hleads⟩

theorem Hale.unreserve {p : Pid} (h : k.Hale (a.reserve p)) : k.LeadsTo (k.unreserve p) a := by
  have hi : k.Intact (p :: a.reserved) := h.intact
  have hmem : p ∈ p :: a.reserved := List.mem_cons_self
  obtain ⟨m, hm, -, -, -, hl, -⟩ :=
    unreserve_spec hi.valid ((hi.taken p).2 (Or.inr hmem)) (hi.empty hmem)
  have hafter := hi.unreserve
  rw [hm] at hafter ⊢
  exact h.with_pids hafter hl rfl

/-- A block that runs is added to no list. -/
theorem Tidy.add (h : k.Tidy) {new : Block} (hr : new.state = .running)
    (hb : ∀ x, k'.block x = if x = k.blocks.size then new else k.block x)
    (hl : ∀ {x q}, (k'.entry x).link = some q → x ≠ k.blocks.size ∧ (k.entry x).link = some q) :
    k'.Tidy := by
  have hold : ∀ {x}, x ≠ k.blocks.size → k'.block x = k.block x := fun hx => by
    rw [hb, if_neg hx]
  have hzombie : ∀ {x}, (k'.block x).state = .zombie → x ≠ k.blocks.size := fun {x} hz hx => by
    rw [hb, if_pos hx, hr] at hz
    cases hz
  refine ⟨fun {x q} hx => ?_, fun {x} hz hn y hy => ?_, fun {x} hz hn => ?_,
    fun {x} hroot hx => ?_, fun x hreaped => ?_⟩
  · obtain ⟨hx, hlink⟩ := hl hx
    rw [hold hx]
    exact h.parent hlink
  · have hx := hzombie hz
    rw [hold hx] at hz hn hy
    exact h.tended hz hn y (hl hy).2
  · have hx := hzombie hz
    rw [hold hx] at hz hn ⊢
    exact h.root hz hn
  · obtain ⟨hx, hlink⟩ := hl hx
    rw [hold hx] at hroot hlink
    exact h.loop hroot hlink
  · have hx : x ≠ k.blocks.size := fun hx => by
      rw [hb, if_pos hx, ((Block.state_eq_running_iff _).1 hr).1] at hreaped
      cases hreaped
    rw [hold hx] at hreaped ⊢
    exact h.reaped x hreaped

/-- A new block has no parent's list to be in. -/
theorem Hale.make_done {p : Pid} (h : k.Hale (a.reserve p)) (name : String) :
    ∃ k', k.make p name none = (.ok k.blocks.size, k') ∧ k.LeadsTo k' a := by
  have hi : k.Intact (p :: a.reserved) := h.intact
  have hmem : p ∈ p :: a.reserved := List.mem_cons_self
  have hempty := hi.empty hmem
  obtain ⟨k', hk, hb, -, hf, -⟩ :=
    make_spec hi.valid ((hi.taken p).2 (Or.inr hmem)) hempty name
  have hafter : k'.Intact a.reserved := by
    obtain ⟨k'', hk', hi'⟩ := hi.make_done name
    cases hk.symm.trans hk'
    exact hi'
  have hblock := block_of_add hb
  have hlink : ∀ {x q}, (k'.entry x).link = some q → x ≠ k.blocks.size ∧
      (k.entry x).link = some q := fun {x q} hl => by
    rw [link_entry, hf, hblock] at hl
    split at hl
    · obtain ⟨c, hc⟩ := hi.child hl.2
      cases hempty.symm.trans hc
    · next hx => exact ⟨hx, link_entry.2 hl⟩
  refine ⟨k', hk, ⟨hafter, h.tidy.add rfl hblock hlink, fun x => ?_, fun x => ?_⟩, fun x hx => ?_⟩
  · rw [hblock]
    split
    · rfl
    · exact h.even x
  · rw [hblock]
    split
    · exact Nat.le_add_right 1 _
    · exact h.bounded x
  · rw [hblock] at hx ⊢
    split at hx
    · next hnew =>
      rw [if_pos hnew, hnew, block_of_size_le (Nat.le_refl _)]
      exact ⟨rfl, rfl⟩
    · next hnew =>
      rw [if_neg hnew]
      exact ⟨hx, rfl⟩

section Attach

variable {r : List Pid} {c q : BlockId}

/-- A child that is linked has another parent now. -/
theorem Intact.block_attach (h : k.Intact r) (hc : (k.block c).refCount ≠ 0)
    (hq : (k.block q).refCount ≠ 0) (hl : (k.entry c).link = none) (x : BlockId) :
    (k.attach c q).block x =
      if x = c then { k.block x with parent := some (k.block q).pid } else k.block x := by
  have hentry := congrArg TableEntry.block (h.entry_attach (q := q) hc hl x)
  rw [block_entry] at hentry
  rw [hentry]
  split
  · rw [TableEntry.under, block_entry,
      Block.adopt_of_lookup h.valid h.placed.bound (h.installed q hq)]
  · rw [block_entry]

/-- Nothing else changes in the blocks. -/
theorem Intact.view_attach {α : Type} (h : k.Intact r) (hc : (k.block c).refCount ≠ 0)
    (hq : (k.block q).refCount ≠ 0) (hl : (k.entry c).link = none) (g : Block → α)
    (hg : ∀ (b : Block) p, g { b with parent := some p } = g b) (x : BlockId) :
    g ((k.attach c q).block x) = g (k.block x) := by
  rw [h.block_attach hc hq hl]
  split
  · exact hg ..
  · rfl

/-- A child that is in no list comes under a parent that runs. -/
theorem Tidy.attach (ht : k.Tidy) (h : k.Intact r) (hc : (k.block c).refCount ≠ 0)
    (hq : (k.block q).refCount ≠ 0) (hcq : c ≠ q) (he : (k.block q).exited = false)
    (hl : (k.entry c).link = none) : (k.attach c q).Tidy := by
  have hlink : ∀ {x p}, ((k.attach c q).entry x).link = some p →
      x = c ∧ p = (k.block q).pid ∨ x ≠ c ∧ (k.entry x).link = some p := fun {x p} hx => by
    rw [h.entry_attach hc hl] at hx
    split at hx
    · next hxc => exact Or.inl ⟨hxc, (Option.some.inj hx).symm⟩
    · next hxc => exact Or.inr ⟨hxc, hx⟩
  have hpid := h.view_attach hc hq hl Block.pid fun _ _ => rfl
  have hcount := h.view_attach hc hq hl Block.refCount fun _ _ => rfl
  have hstate := h.view_attach hc hq hl Block.state fun _ _ => rfl
  refine ⟨fun {x p} hx => ?_, fun {x} hz hn y hy => ?_, fun {x} hz hn => ?_,
    fun {x} hroot hx => ?_, fun x hr => ?_⟩
  · rw [h.block_attach hc hq hl]
    rcases hlink hx with ⟨hxc, rfl⟩ | ⟨hxc, hx⟩
    · rw [if_pos hxc]
    · rw [if_neg hxc]
      exact ht.parent hx
  · rw [hstate] at hz
    rw [hcount] at hn
    rw [hpid] at hy
    rcases hlink hy with ⟨-, hp⟩ | ⟨-, hy⟩
    · obtain rfl := h.eq_of_pid hn hq hp
      rw [((Block.state_eq_zombie_iff _).1 hz).2] at he
      cases he
    · exact ht.tended hz hn y hy
  · rw [hstate] at hz
    rw [hcount] at hn
    rw [hpid]
    exact ht.root hz hn
  · rw [hpid] at hroot hx
    rcases hlink hx with ⟨rfl, hp⟩ | ⟨-, hx⟩
    · exact hcq (h.eq_of_pid hc hq hp)
    · exact ht.loop hroot hx
  · rw [h.view_attach hc hq hl Block.reaped fun _ _ => rfl] at hr
    rw [h.view_attach hc hq hl Block.exited fun _ _ => rfl]
    exact ht.reaped x hr

/-- A fork links its child under a parent that runs, unless it is linked already. -/
theorem Hale.attach (h : k.Hale a) (hc : (k.block c).refCount ≠ 0)
    (hq : (k.block q).refCount ≠ 0) (hcq : c ≠ q) (he : (k.block q).exited = false) :
    k.LeadsTo (k.attach c q) a := by
  have hi := h.intact.attach (h.intact.installed c hc) (Or.inr (h.intact.installed q hq))
  cases hl : k.family.parentLink? (k.block c).pid with
  | some p =>
    rw [attach_linked hl]
    exact h.alike (.halt ..) fun _ => rfl
  | none =>
    have hnone : (k.entry c).link = none := by rwa [entry_of_counted hc]
    refine ⟨⟨hi, h.tidy.attach h.intact hc hq hcq he hnone, fun x => ?_, fun x => ?_⟩,
      fun x hx => ?_⟩
    · rw [h.intact.view_attach hc hq hnone Block.exiting fun _ _ => rfl,
        h.intact.view_attach hc hq hnone Block.exited fun _ _ => rfl]
      exact h.even x
    · rw [h.intact.view_attach hc hq hnone Block.refCount fun _ _ => rfl,
        h.intact.view_attach hc hq hnone Block.reaped fun _ _ => rfl]
      exact h.bounded x
    · rw [h.intact.view_attach hc hq hnone Block.state fun _ _ => rfl] at hx
      exact ⟨hx, h.intact.view_attach hc hq hnone Block.waiter (fun _ _ => rfl) x⟩

end Attach

/-! ### Operations -/

theorem Hale.abandon (h : k.Hale a) (child : BlockId) : k.LeadsTo (k.abandon child) a := by
  have hunwound := h.unwound child
  exact hunwound.trans hunwound.hale.release

/-- A fork gives up its child, and its reference on the parent. -/
theorem Hale.unwind (h : k.Hale (a.owe b)) (child : BlockId) :
    k.LeadsTo ((k.abandon child).release b).2 a := by
  have habandoned := h.abandon child
  exact habandoned.trans habandoned.hale.release

theorem Hale.collect (h : k.Hale (a.owe b)) (he : (k.block b).exited = true) :
    k.LeadsTo (k.collect b).2 a := by
  have hcollected := h.collected he
  have hfirst := hcollected.trans hcollected.hale.release
  rw [collect_eq]
  exact hfirst.trans hfirst.hale.release

/-- A sleeper on a process that runs no more gives back its reference. -/
theorem Hale.wake (h : k.Hale (a.owe b)) (hs : (k.block b).state ≠ .running) :
    k.LeadsTo (k.wake b).2 a := by
  unfold Kernel.wake
  split
  · exact h.release
  · next hr =>
    have hreaped : (k.block b).reaped = false := by simpa using hr
    rw [ne_eq, Block.state_eq_running_iff] at hs
    exact h.collect (by simpa [hreaped] using hs)

/-- What a wait comes to: it is over, or it sleeps on a process that runs and nobody waited for. -/
inductive Waits (k : Kernel) (a : Account) : WaitOutcome × Kernel → Prop
  | done {result : Except ProcessError (Pid × RawStatus)} {k' : Kernel} (leads : k.LeadsTo k' a) :
      Waits k a (.done result, k')
  | asleep {b : BlockId} {k' : Kernel} (hale : k'.Hale (a.owe b)) (lt : b < k.blocks.size)
      (running : (k.block b).state = .running) (waiter : (k.block b).waiter = false)
      (quiet : (k.update b .committed).Quiet k') : Waits k a (.asleep b, k')

/-- A process that has exited is no longer spared, whoever waits for it. -/
theorem spares_committed (he : (k.block b).exited = true) : k.Spares (k.update b .committed) := by
  intro x hx
  rw [block_update] at hx ⊢
  split at hx
  · next hxb =>
    obtain ⟨rfl, -⟩ := hxb
    cases he.symm.trans ((Block.state_eq_running_iff _).1 hx).2
  · next hxb =>
    rw [if_neg hxb]
    exact ⟨hx, rfl⟩

theorem Hale.wait (h : k.Hale a) (caller : Pid) (target : Int64) (options : Int32) :
    k.Waits a (k.wait caller target options) := by
  have hw := k.asks caller target options
  generalize k.wait caller target options = out at hw ⊢
  cases hw with
  | refused => exact .done h.refl
  | @collected _ b named found parent reaped waiter exited =>
    have hheld := h.retained found.counted
    have hexited : ((k.update b .retained).block b).exited = true :=
      (view_update Block.exited rfl b).trans exited
    obtain ⟨hale, hspares⟩ := (hheld.hale.committed b).collect
      (by rw [found.block_committed]; exact exited)
    exact .done ⟨hale, hheld.spares.trans ((spares_committed hexited).trans hspares)⟩
  | @asleep _ b named found parent reaped waiter exited =>
    have hq : k.Quiet (k.update b .retained) := .of_update b _ fun _ => rfl
    exact .asleep ((h.retained found.counted).hale.committed b) found.lt
      ((Block.state_eq_running_iff _).2 ⟨reaped, exited⟩) waiter (hq.update b fun _ => rfl)

/-! ### Forks and creations -/

end Kernel

/-- What a fork or creation holds that has been begun or resumed. -/
def Progress.load (a : Account) : Progress → Account
  | .stopped next => next.load a
  | _ => a

/-- The child of a fork is not its own parent. -/
def Pending.Apart (pending : Pending) : Prop :=
  ∀ c, pending.child? = some c → pending.parent? ≠ some c

namespace Kernel

/-- A fork or creation has been begun or gone on: what it holds now, and that its child, if it has
one, is another than its parent. -/
structure Proceeds (k : Kernel) (a : Account) (out : Progress × Kernel) : Prop where
  leads : k.LeadsTo out.2 (out.1.load a)
  apart : ∀ next, out.1 = .stopped next → next.Apart

variable {k k₁ k' : Kernel} {a a' : Account} {b parent child : BlockId}

theorem Proceeds.of_failed {error : ProcessError} (h : k.LeadsTo k' a) :
    k.Proceeds a (.failed error, k') :=
  ⟨h, fun next hn => by cases hn⟩

theorem Proceeds.of_childless {next : Pending} (h : k.LeadsTo k' (next.load a))
    (hc : next.child? = none) : k.Proceeds a (.stopped next, k') := by
  refine ⟨h, fun next' hn c hc' => ?_⟩
  cases hn
  cases hc.symm.trans hc'

theorem Hale.beginCreate (h : k.Hale a) (name : String) : k.Proceeds a (k.beginCreate name) := by
  unfold Kernel.beginCreate
  rcases h.reserve with he | ⟨p, k', he, hreserved⟩
  · rw [he]
    exact .of_failed h.refl
  · rw [he]
    exact .of_childless hreserved rfl

theorem Hale.beginFork (h : k.Hale a) (pid : Pid) : k.Proceeds a (k.beginFork pid) := by
  have hb := k.beginsFork pid
  generalize k.beginFork pid = out at hb ⊢
  cases hb with
  | refused => exact .of_failed h.refl
  | full found reserve =>
    have hheld := h.retained found.counted
    rcases hheld.hale.reserve with he | ⟨p, k', he, -⟩
    · cases he.symm.trans reserve
      exact .of_failed (hheld.trans hheld.hale.release)
    · cases he.symm.trans reserve
  | begun found reserve =>
    have hheld := h.retained found.counted
    rcases hheld.hale.reserve with he | ⟨p, k', he, hreserved⟩
    · cases he.symm.trans reserve
    · cases he.symm.trans reserve
      exact .of_childless (hheld.trans hreserved) rfl

theorem Hale.make {p : Pid} (h : k.Hale (a.reserve p)) {name : String} {refusal : Option Errno}
    {result : Except ProcessError BlockId} (made : k.make p name refusal = (result, k')) :
    k.LeadsTo k' a ∧ ∀ c, result = .ok c → c = k.blocks.size := by
  cases refusal with
  | some errno =>
    have ha : k.Alike (k.log (.refuseTask name errno)) := .of_host rfl rfl fun _ => rfl
    have hlogged := h.alike ha fun _ => rfl
    have hback := hlogged.trans hlogged.hale.unreserve
    cases made
    exact ⟨hback, fun c hc => by cases hc⟩
  | none =>
    obtain ⟨k₁, hk, hl⟩ := h.make_done name
    cases hk.symm.trans made
    exact ⟨hl, fun c hc => (Except.ok.inj hc).symm⟩

/-- A stopped fork that has called the host. -/
theorem Hale.called (h : k.Hale a) (ha : k.Alike k') (ht : k'.table = k.table) :
    k.LeadsTo k' a :=
  h.alike ha (block_eq_of_table ht)

/-- That a child is not linked yet makes no difference to what is counted. -/
theorem Hale.of_carry (h : k.Hale (a.carry child)) : k.Hale a :=
  ⟨h.intact, h.tidy, h.even, h.bounded⟩

theorem LeadsTo.carry (h : k.LeadsTo k' a) (child : BlockId) : k.LeadsTo k' (a.carry child) :=
  ⟨⟨h.hale.intact, h.hale.tidy, h.hale.even, h.hale.bounded⟩, h.spares⟩

theorem Hale.linkChild (h : k.Hale (a.owe parent)) (hc : (k.block child).refCount ≠ 0)
    (hp : (k.block parent).refCount ≠ 0) (hd : child ≠ parent) :
    k.Proceeds a (k.linkChild parent child) := by
  have hl := k.links parent child
  generalize k.linkChild parent child = out at hl ⊢
  cases hl with
  | unwound => exact .of_failed (h.unwind child)
  | attached running =>
    have hlinked := h.attach hc hp hd ((h.even parent).symm.trans running)
    refine ⟨hlinked.trans (hlinked.hale.called (.attachThread ..) rfl), fun next hn c hc => ?_⟩
    cases hn
    cases hc
    exact fun hpc => hd (Option.some.inj hpc).symm

/-- A fork that has a child holds a reference on its parent. -/
theorem Hale.of_flight {pending : Pending} (h : k.Hale (pending.load a))
    (held : pending.parent? = some parent) (flight : pending.child? = some child) :
    k.Hale (a.owe parent) := by
  cases pending with
  | create pid name => cases held
  | forkTask _ pid => cases flight
  | forkSpace =>
    cases held
    exact h.of_carry
  | forkFiles =>
    cases held
    exact h.of_carry
  | forkThread =>
    cases held
    exact h

/-- Whatever it has stopped before, a fork or creation goes on with what it holds. -/
theorem Hale.resume {pending : Pending} (h : k.Hale (pending.load a))
    (hb : pending.Below k.blocks.size) (hd : pending.Apart) (refusal : Option Errno) :
    k.Proceeds a (k.resume pending refusal) := by
  have hcalled : ∀ {k' parent}, k.Hale (a.owe parent) → k.Called k' →
      k.LeadsTo k' (a.owe parent) := fun hh hc => hh.called hc.alike hc.table
  have hr := k.resumes pending refusal
  generalize k.resume pending refusal = out at hr ⊢
  cases hr with
  | uncreated made => exact .of_failed (Hale.make h made).1
  | created made => exact ⟨(Hale.make h made).1, fun next hn => by cases hn⟩
  | unborn made =>
    have hmade := (Hale.make h made).1
    exact .of_failed (hmade.trans hmade.hale.release)
  | @born parent _ child _ made =>
    obtain ⟨hmade, hchild⟩ := Hale.make h made
    refine ⟨hmade.carry child, fun next hn c hc hp => ?_⟩
    cases hn
    cases hc
    obtain rfl := Option.some.inj hp
    exact Nat.ne_of_lt (hb.1 parent rfl) (hchild parent rfl)
  | @unwound _ parent child _ _ held flight refused =>
    have hunwound := hcalled (h.of_flight held flight) refused.called
    exact .of_failed (hunwound.trans (hunwound.hale.unwind child))
  | @copied parent child _ space =>
    refine ⟨(hcalled (Hale.of_carry h) (.space space)).carry child, fun next hn c hc => ?_⟩
    cases hn
    cases hc
    exact hd child rfl
  | @linked parent child k' files =>
    -- files are copied only between tasks that are there, and their processes are installed
    have hlinking := hcalled (Hale.of_carry h) (.files files)
    have ht := (Called.files files).table
    obtain ⟨-, ⟨_, source⟩, ⟨_, target⟩⟩ := tasks_of_cloneFdTable files
    have hchild : (k'.block child).refCount ≠ 0 := by
      rw [block_eq_of_table ht]
      exact h.intact.counted (h.intact.lookup_of_task (hb.2 child rfl) target)
    have hparent : (k'.block parent).refCount ≠ 0 := by
      rw [block_eq_of_table ht]
      exact h.intact.counted (h.intact.lookup_of_task (hb.1 parent rfl) source)
    have hlinked := hlinking.hale.linkChild hchild hparent
      fun hcp => hd child rfl (congrArg some hcp.symm)
    exact ⟨hlinking.trans hlinked.leads, hlinked.apart⟩
  | complete spawned =>
    have hstarted := hcalled h (.spawn spawned)
    exact ⟨hstarted.trans hstarted.hale.release, fun next hn => by cases hn⟩

/-! ### Boot -/

/-- A table comes up with nobody linked and everybody running. -/
theorem hale_boot {config : Config} {refusal : Option Errno}
    (h : Kernel.boot config refusal = .ok k) : k.Hale .initial := by
  have ha := alone_boot h
  obtain ⟨name, task, hblock⟩ := ha.block
  have hflags : ∀ b, (k.block b).exiting = false ∧ (k.block b).exited = false ∧
      (k.block b).reaped = false ∧ (k.block b).refCount ≤ 1 := fun b => by
    rw [hblock]
    split
    · exact ⟨rfl, rfl, rfl, Nat.le_refl 1⟩
    · exact ⟨rfl, rfl, rfl, Nat.zero_le 1⟩
  have hlink : ∀ {b p}, (k.entry b).link ≠ some p := fun {b p} hl => by
    rw [link_entry, ha.family] at hl
    cases hl.2
  have hzombie : ∀ {b}, (k.block b).state ≠ .zombie := fun {b} hz => by
    rw [Block.state_eq_zombie_iff, (hflags b).2.1] at hz
    cases hz.2
  refine ⟨intact_boot h, ⟨fun hl => absurd hl hlink, fun hz => absurd hz hzombie,
    fun hz => absurd hz hzombie, fun _ => hlink, fun b hr => ?_⟩, fun b => ?_, fun b => ?_⟩
  · rw [(hflags b).2.2.1] at hr
    cases hr
  · rw [(hflags b).1, (hflags b).2.1]
  · rw [(hflags b).2.2.1]
    exact (hflags b).2.2.2

end Kernel

end Lifecycle
