import Lifecycle.Proofs.Kernel.Hale

/-! A table that a process has left: it has exited, and its status is consumed if somebody waited.
What holds of every table between two moves holds after that. -/

namespace Lifecycle

/-- A process after it has left: collected if somebody waited, and else departed. -/
def TableEntry.left (status : RawStatus) (e : TableEntry) : TableEntry :=
  if e.block.waiter = true then ((e.departed status).update .collected).released.released
  else e.departed status

namespace TableEntry

variable {e : TableEntry} {status : RawStatus}

/-- A process that has left is a zombie or reaped. -/
theorem core_left (status : RawStatus) (e : TableEntry) : ∃ reaped, (e.left status).block.core =
    { e.block.leaving.published status with reaped := reaped }.core := by
  by_cases hw : e.block.waiter = true
  · rw [left, if_pos hw, departed_of_waiter hw]
    exact ⟨true, by rw [core_released, core_released]; rfl⟩
  · rw [left, if_neg hw, departed]
    dsimp only
    split
    · exact ⟨true, core_released _⟩
    · exact ⟨e.block.reaped, rfl⟩

theorem link_of_left {p : Pid} (hl : (e.left status).link = some p) : e.link = some p := by
  unfold left at hl
  split at hl
  · have hkept := link_of_released (link_of_released hl)
    exact link_of_departed hkept
  · exact link_of_departed hl

/-- A process that leaves loses the table's reference if it is reaped, and with it that of its
sleeper. -/
theorem left_cases (status : RawStatus) (e : TableEntry) :
    (e.block.waiter = true ∧ (e.left status).block.reaped = true ∧
        (e.left status).block.refCount = e.block.refCount - 1 - 1) ∨
      (e.block.waiter = false ∧ (e.left status).block.reaped = true ∧
        (e.left status).block.refCount = e.block.refCount - 1) ∨
      e.block.waiter = false ∧ (e.left status).block.reaped = e.block.reaped ∧
        (e.left status).block.refCount = e.block.refCount := by
  cases hw : e.block.waiter with
  | true =>
    refine Or.inl ⟨rfl, ?_⟩
    rw [left, if_pos hw, departed_of_waiter hw, refCount_released, refCount_released,
      Block.reaped_of_core (core_released _), Block.reaped_of_core (core_released _)]
    exact ⟨rfl, rfl⟩
  | false =>
    have hleft : e.left status = e.departed status := if_neg (by simp [hw])
    refine Or.inr ?_
    rw [hleft]
    unfold departed
    dsimp only
    split
    · rw [refCount_released, Block.reaped_of_core (core_released _)]
      exact Or.inl ⟨rfl, rfl, rfl⟩
    · exact Or.inr ⟨rfl, rfl, rfl⟩

/-- So does a child that is reaped with its parent. -/
theorem bereft_cases (p : Pid) (e : TableEntry) :
    ((e.bereft p).block.reaped = e.block.reaped ∧
        (e.bereft p).block.refCount = e.block.refCount) ∨
      e.block.reaped = false ∧ (e.bereft p).block.reaped = true ∧
        (e.bereft p).block.refCount = e.block.refCount - 1 := by
  unfold bereft handedOn
  split
  · split
    · exact Or.inl ⟨rfl, rfl⟩
    · split
      · next hr =>
        rw [refCount_released, Block.reaped_of_core (core_released _)]
        exact Or.inr ⟨hr, rfl, rfl⟩
      · exact Or.inl ⟨rfl, rfl⟩
  · exact Or.inl ⟨rfl, rfl⟩

/-- Only children that run stay linked, under the kernel. -/
theorem parent_bereft {p q : Pid} (h : e.link = some q → e.block.parent = some q)
    (hl : (e.bereft p).link = some q) : (e.bereft p).block.parent = some q := by
  unfold bereft at hl ⊢
  split
  · next hp =>
    rw [if_pos hp] at hl
    obtain rfl := link_of_handedOn hl
    unfold handedOn at hl ⊢
    split
    · rfl
    · next he =>
      rw [if_neg he] at hl
      split at hl
      · cases link_of_released hl
      · cases hl
  · next hp =>
    rw [if_neg hp] at hl
    exact h hl

end TableEntry

namespace Kernel

/-- A table that a running process of a user's has left for another. -/
structure Loses (k : Kernel) (p : Pid) (b : BlockId) (status : RawStatus) (k' : Kernel) :
    Prop where
  entry : ∀ x, k'.entry x = if x = b then (k.entry x).left status else (k.entry x).bereft p
  pid : (k.block b).pid = p
  user : p ≠ kernelPid
  running : (k.block b).state = .running

/-- A running process of a user's has left a table for another, and only the kernel's children
have become more. -/
structure Departs (k : Kernel) (r : List Pid) (p : Pid) (b : BlockId) (status : RawStatus)
    (k' : Kernel) : Prop where
  loses : k.Loses p b status k'
  intact : k'.Intact r
  books : (k.terminateThread (k.block b).task).SameBooks k'
  children : ∀ q, q ≠ kernelPid → (k'.childBlocks q).Sublist (k.childBlocks q)

/-! ### Leaving -/

section Leaving

variable {k : Kernel} {a : Account} {p : Pid} {b : BlockId}

/-- A thread that ends is counted, whichever task it belongs to. -/
theorem SameBooks.terminateThread {k' : Kernel} (h : k.SameBooks k') (t t' : TaskHandle) :
    (k.terminateThread t).SameBooks (k'.terminateThread t') :=
  ⟨h.fault, h.capacity, h.created, h.tasks, h.spawned, congrArg (· + 1) h.terminated⟩

/-- A process that runs exits, and ends its thread. -/
theorem Hale.entry_exitThread (h : k.Hale a) (hb : k.pids.lookup p = some b) (hp : p ≠ kernelPid)
    (hr : (k.block b).state = .running) (status : ExitStatus) :
    (k.terminateThread (k.block b).task).SameBooks (k.exitThread p status).2 ∧
      ∀ x, (k.exitThread p status).2.entry x = if x = b
        then (k.entry x).departed status.encode else (k.entry x).bereft p := by
  obtain ⟨-, hexited⟩ := (Block.state_eq_running_iff _).1 hr
  obtain ⟨hbooks, hentry⟩ := h.intact.entry_exit h.tidy hb hp ((h.even b).trans hexited)
    status.encode
  rw [exitThread_of_found (h.intact.found hb)]
  exact ⟨hbooks.terminateThread _ _, fun x => (entry_terminateThread ..).trans (hentry x)⟩

/-- Nobody waits, and it has left. -/
theorem Hale.loses_exitThread (h : k.Hale a) (hb : k.pids.lookup p = some b) (hp : p ≠ kernelPid)
    (hr : (k.block b).state = .running) (hw : (k.block b).waiter = false) (status : ExitStatus) :
    k.Loses p b status.encode (k.exitThread p status).2 := by
  refine ⟨fun x => ?_, (h.intact.own hb).2, hp, hr⟩
  rw [(h.entry_exitThread hb hp hr status).2]
  split
  · next hx =>
    subst hx
    rw [TableEntry.left, if_neg (by simp [hw])]
  · rfl

/-- Somebody waits, who wakes with the status and collects it. -/
theorem Hale.loses_wake (h : k.Hale a) (hb : k.pids.lookup p = some b) (hp : p ≠ kernelPid)
    (hr : (k.block b).state = .running) (hw : (k.block b).waiter = true) (status : ExitStatus) :
    ((k.exitThread p status).2.wake b).1 = .ok (p, status.encode) ∧
      (k.exitThread p status).2.SameBooks ((k.exitThread p status).2.wake b).2 ∧
      k.Loses p b status.encode ((k.exitThread p status).2.wake b).2 := by
  obtain ⟨hpid, hz⟩ := h.intact.lookup_iff.1 hb
  have hentry := (h.entry_exitThread hb hp hr status).2
  -- the status is there
  have hgone : (k.exitThread p status).2.block b =
      (k.block b).leaving.published status.encode := by
    have hblock := congrArg TableEntry.block (hentry b)
    rw [if_pos rfl, TableEntry.departed_of_waiter (by simpa using hw)] at hblock
    simpa using hblock
  have hpid' : ((k.exitThread p status).2.block b).pid = p := by
    rw [hgone]
    exact hpid
  have hreaped : ((k.exitThread p status).2.block b).reaped = false := by
    rw [hgone]
    exact ((Block.state_eq_running_iff _).1 hr).1
  have hbarren : ∀ x, ((k.exitThread p status).2.entry x).link ≠ some p := fun x hx => by
    rw [hentry] at hx
    split at hx
    · next hxb =>
      subst hxb
      exact h.tidy.loop (hpid ▸ hp) (hpid ▸ TableEntry.link_of_departed hx)
    · exact TableEntry.link_bereft_ne hp hx
  obtain ⟨hbooks, hcollected⟩ := (h.intact.exitThread p status).entry_collect (b := b)
    (by rw [size_exitThread]; exact h.intact.lt_of_refCount hz) (hpid'.symm ▸ hp)
    (hpid'.symm ▸ hbarren)
  have hwake : (k.exitThread p status).2.wake b = (k.exitThread p status).2.collect b := by
    unfold Kernel.wake
    rw [hreaped]
    rfl
  refine ⟨?_, hwake ▸ hbooks, ⟨fun x => ?_, hpid, hp, hr⟩⟩
  · rw [hwake, collect_eq, hpid', hgone]
    rfl
  · rw [hwake, hcollected, hentry]
    split
    · next hx =>
      subst hx
      rw [TableEntry.left, if_pos (by simpa using hw)]
    · rfl

end Leaving

namespace Loses

variable {k k' : Kernel} {p : Pid} {b x : BlockId} {status : RawStatus}
  (h : k.Loses p b status k')
include h

theorem block_self : k'.block b = ((k.entry b).left status).block := by
  rw [← block_entry, h.entry, if_pos rfl]

theorem block_of_ne (hx : x ≠ b) : k'.block x = ((k.entry x).bereft p).block := by
  rw [← block_entry, h.entry, if_neg hx]

theorem core_self : ∃ reaped, (k'.block b).core =
    { (k.block b).leaving.published status with reaped := reaped }.core := by
  obtain ⟨reaped, hc⟩ := TableEntry.core_left status (k.entry b)
  rw [block_entry] at hc
  exact ⟨reaped, by rw [h.block_self, hc]⟩

theorem core_of_ne (hx : x ≠ b) : (k'.block x).core =
    (if (k.entry x).link = some p then (k.block x).rehomed else k.block x).core := by
  rw [h.block_of_ne hx, TableEntry.bereft]
  split
  · rw [TableEntry.core_handedOn, block_entry]
  · rw [block_entry]

theorem pid_eq (x : BlockId) : (k'.block x).pid = (k.block x).pid := by
  by_cases hx : x = b
  · subst hx
    obtain ⟨reaped, hc⟩ := h.core_self
    exact (Block.pid_of_core hc).trans rfl
  · refine (Block.pid_of_core (h.core_of_ne hx)).trans ?_
    split
    · exact Block.rehomed_pid _
    · rfl

theorem waiter_eq (x : BlockId) : (k'.block x).waiter = (k.block x).waiter := by
  by_cases hx : x = b
  · subst hx
    obtain ⟨reaped, hc⟩ := h.core_self
    exact (Block.waiter_of_core hc).trans rfl
  · refine (Block.waiter_of_core (h.core_of_ne hx)).trans ?_
    split
    · exact Block.rehomed_waiter _
    · rfl

/-- All others run on. -/
theorem running_iff : (k'.block x).state = .running ↔ x ≠ b ∧ (k.block x).state = .running := by
  by_cases hx : x = b
  · subst hx
    obtain ⟨reaped, hc⟩ := h.core_self
    refine iff_of_false (fun hs => ?_) fun hs => hs.1 rfl
    exact Bool.false_ne_true
      (((Block.state_eq_running_iff _).1 hs).2.symm.trans (Block.exited_of_core hc))
  · rw [h.block_of_ne hx, TableEntry.running_bereft, block_entry]
    exact (and_iff_right hx).symm

/-- Whoever runs on loses no reference. -/
theorem refCount_eq (hs : (k'.block x).state = .running) :
    (k'.block x).refCount = (k.block x).refCount := by
  obtain ⟨hx, -⟩ := h.running_iff.1 hs
  obtain ⟨hr, -⟩ := (Block.state_eq_running_iff _).1 hs
  rw [h.block_of_ne hx] at hr ⊢
  rcases TableEntry.bereft_cases p (k.entry x) with ⟨-, hn⟩ | ⟨-, hr', -⟩
  · exact hn.trans (by rw [block_entry])
  · exact absurd (hr.symm.trans hr') Bool.false_ne_true

/-- A zombie is the process that has left, or was one before and is no child of that one. -/
theorem zombie_of_ne (hx : x ≠ b) (hz : (k'.block x).state = .zombie) :
    k'.entry x = k.entry x := by
  have hc := h.core_of_ne hx
  rw [h.entry, if_neg hx]
  refine if_neg fun hl => ?_
  rw [if_pos hl] at hc
  rw [Block.state_eq_zombie_iff, Block.reaped_of_core hc, Block.exited_of_core hc] at hz
  rw [Block.rehomed_reaped, Block.rehomed_exited] at hz
  simp [hz.2] at hz

/-- Nobody is linked under the process that has left. -/
theorem link_of_link (ht : k.Tidy) {q : Pid} (hl : (k'.entry x).link = some q) :
    q ≠ p ∧ (q = kernelPid ∧ x ≠ b ∨ (k.entry x).link = some q) := by
  rw [h.entry] at hl
  split at hl
  · next hx =>
    subst hx
    have hlink := TableEntry.link_of_left hl
    refine ⟨?_, Or.inr hlink⟩
    rintro rfl
    have hloop := ht.loop (x := x) (h.pid ▸ h.user)
    rw [h.pid] at hloop
    exact hloop hlink
  · next hx =>
    refine ⟨fun hq => TableEntry.link_bereft_ne h.user (hq ▸ hl), ?_⟩
    unfold TableEntry.bereft at hl
    split at hl
    · exact Or.inl ⟨TableEntry.link_of_handedOn hl, hx⟩
    · exact Or.inr hl

theorem tidy (ht : k.Tidy) : k'.Tidy := by
  refine ⟨fun {x q} hl => ?_, fun {x} hz hn y hy => ?_, fun {x} hz hn => ?_,
    fun {x} hk hl => ?_, fun x hr => ?_⟩
  · rw [← block_entry]
    rw [h.entry] at hl ⊢
    split at hl
    · next hx =>
      obtain ⟨reaped, hc⟩ := TableEntry.core_left status (k.entry x)
      have hparent := ht.parent (TableEntry.link_of_left hl)
      rw [← block_entry] at hparent
      rw [if_pos hx, Block.parent_of_core hc]
      exact hparent
    · next hx =>
      rw [if_neg hx]
      exact TableEntry.parent_bereft (fun hl => by simpa using ht.parent hl) hl
  · rw [h.pid_eq] at hy
    obtain ⟨hne, hy⟩ := h.link_of_link ht hy
    have hx : x ≠ b := fun hx => hne (hx ▸ h.pid)
    have hsame := congrArg TableEntry.block (h.zombie_of_ne hx hz)
    rw [block_entry, block_entry] at hsame
    rw [hsame] at hz hn
    rcases hy with ⟨hkernel, -⟩ | hy
    · exact ht.root hz hn hkernel
    · exact ht.tended hz hn y hy
  · rw [h.pid_eq]
    by_cases hx : x = b
    · rw [hx, h.pid]
      exact h.user
    · have hsame := congrArg TableEntry.block (h.zombie_of_ne hx hz)
      rw [block_entry, block_entry] at hsame
      rw [hsame] at hz hn
      exact ht.root hz hn
  · rw [h.pid_eq] at hk hl
    rcases (h.link_of_link ht hl).2 with ⟨hkernel, -⟩ | hl
    · exact hk hkernel
    · exact ht.loop hk hl
  · by_cases hx : x = b
    · subst hx
      obtain ⟨reaped, hc⟩ := h.core_self
      exact Block.exited_of_core hc
    · have hc := h.core_of_ne hx
      rw [Block.reaped_of_core hc] at hr
      rw [Block.exited_of_core hc]
      split
      · next hl =>
        rw [if_pos hl, Block.rehomed_reaped, Bool.or_eq_true] at hr
        rw [Block.rehomed_exited]
        exact hr.elim id (ht.reaped x)
      · next hl =>
        rw [if_neg hl] at hr
        exact ht.reaped x hr

theorem even (he : ∀ x, (k.block x).exiting = (k.block x).exited) (x : BlockId) :
    (k'.block x).exiting = (k'.block x).exited := by
  by_cases hx : x = b
  · subst hx
    obtain ⟨reaped, hc⟩ := h.core_self
    rw [Block.exiting_of_core hc, Block.exited_of_core hc]
    rfl
  · have hc := h.core_of_ne hx
    rw [Block.exiting_of_core hc, Block.exited_of_core hc]
    split
    · rw [Block.rehomed_exiting, Block.rehomed_exited]
      exact he x
    · exact he x

/-- The sleeper on the process that has left gives back its reference, and the table those of
the processes that are reaped. -/
theorem bounded {owed owed' : BlockId → Nat}
    (hn : ∀ x, (k.block x).refCount ≤ (if (k.block x).reaped then 0 else 1) + owed x)
    (hself : owed b ≤ owed' b + if (k.block b).waiter = true then 1 else 0)
    (hrest : ∀ x, x ≠ b → owed x ≤ owed' x) (x : BlockId) :
    (k'.block x).refCount ≤ (if (k'.block x).reaped then 0 else 1) + owed' x := by
  have hbefore := hn x
  by_cases hx : x = b
  · subst hx
    obtain ⟨hreaped, -⟩ := (Block.state_eq_running_iff _).1 h.running
    have hcases := TableEntry.left_cases status (k.entry x)
    rw [← h.block_self, block_entry] at hcases
    rw [hreaped] at hbefore
    rcases hcases with ⟨hw, hr, hn⟩ | ⟨hw, hr, hn⟩ | ⟨hw, hr, hn⟩
    all_goals
      rw [hr, hn]
      rw [hw] at hself
      simp only [hreaped, if_true, if_false, Bool.false_eq_true] at hbefore hself ⊢
      omega
  · have hafter := hrest x hx
    have hcases := TableEntry.bereft_cases p (k.entry x)
    rw [← h.block_of_ne hx, block_entry] at hcases
    rcases hcases with ⟨hr, hn⟩ | ⟨hr, hr', hn⟩
    · rw [hr, hn]
      omega
    · rw [hr', hn]
      simp only [hr, if_true, if_false, Bool.false_eq_true] at hbefore ⊢
      omega

end Loses

/-! ### Checks -/

section Checks

variable {k : Kernel} {c q : BlockId} {p : Pid} {r : List Pid}

theorem fault_of_foldl {α : Type} {f : Kernel → α → Kernel}
    (hf : ∀ {k : Kernel} {c : α}, (f k c).fault = none → k.fault = none) (cs : List α)
    {k : Kernel} (h : (cs.foldl f k).fault = none) : k.fault = none := by
  induction cs generalizing k with
  | nil => exact h
  | cons c cs ih => exact hf (ih h)

theorem fault_of_attach (h : (k.attach c q).fault = none) : k.fault = none := by
  unfold attach at h
  split at h
  · exact h
  · cases h

theorem fault_of_rehome (h : (k.rehome c).fault = none) : k.fault = none := by
  unfold rehome at h
  split at h
  · exact fault_of_attach h
  · split at h
    · exact fault_of_release (k := k.update c _) h
    · exact h

theorem fault_of_holdChild (pid : Pid) (out : List BlockId × Kernel)
    (h : (holdChild p out pid).2.fault = none) : out.2.fault = none := by
  unfold holdChild at h
  split at h
  · exact h
  · dsimp only at h
    split at h
    · exact h
    · cases h

theorem fault_of_rearrangeChildren (h : (k.rearrangeChildren p).fault = none) :
    k.fault = none := by
  have hfold : ∀ (pids : List Pid) (out : List BlockId × Kernel),
      (pids.foldl (holdChild p) out).2.fault = none → out.2.fault = none := fun pids => by
    induction pids with
    | nil => exact fun _ => id
    | cons pid pids ih => exact fun out hf => fault_of_holdChild pid out (ih _ hf)
  have hheld := fault_of_foldl (f := rehome) fault_of_rehome _
    (fault_of_foldl (f := fun k b => (k.release b).2) fault_of_release _ h)
  exact hfold _ _ hheld

theorem fault_of_publishExit {status : RawStatus}
    (h : (k.publishExit c status).2.fault = none) : k.fault = none := by
  unfold publishExit at h
  dsimp only at h
  split at h
  · have hbefore := fault_of_release h
    exact hbefore
  · exact h

theorem flags_of_beginExit (h : (k.beginExit c).fault = none) :
    (k.block c).isKernel = false ∧ (k.block c).exiting = false := by
  have hhalt : ∀ fault, (k.halt fault).block c = k.block c := fun _ => rfl
  unfold beginExit at h
  cases hk : (k.block c).isKernel with
  | true =>
    simp only [hk, if_true, hhalt] at h
    split at h <;> cases h
  | false =>
    simp only [hk, Bool.false_eq_true, if_false] at h
    split at h
    · cases h
    · next he => exact ⟨rfl, by simpa using he⟩

/-- No check fails when a process exits that is not the kernel and does not exit already. -/
theorem Intact.exits_of_fault (h : k.Intact r) (hc : k.pids.lookup p = some c) {status : RawStatus}
    (hf : (k.exit p status).2.fault = none) : p ≠ kernelPid ∧ (k.block c).exiting = false := by
  obtain ⟨hpid, hz⟩ := h.lookup_iff.1 hc
  have hself : (k.update c .retained).block c = (k.block c).retained :=
    block_update_self (h.lt_of_refCount hz) _
  rw [(h.exit_eq hc status).2] at hf
  have hflags := flags_of_beginExit
    (fault_of_rearrangeChildren (fault_of_publishExit (fault_of_release hf)))
  rw [hself] at hflags
  exact ⟨by simpa [Block.isKernel, Block.retained, hpid] using hflags.1, hflags.2⟩

end Checks

end Kernel

end Lifecycle
