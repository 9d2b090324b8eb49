import Lifecycle.Proofs.Kernel.Entries
import Lifecycle.Proofs.Host

/-! What an exit comes to in each entry of a table: that of the process that exits, those of
its children, and no others. -/

namespace Lifecycle

namespace TableEntry

/-- A child without a parent, which somebody holds: it comes under the kernel if it runs, and is
reaped if it has exited and is not reaped. -/
def rehomed (e : TableEntry) : TableEntry :=
  if e.block.exited = false then e.under kernelPid
  else if e.block.reaped = false then (e.update .collected).released
  else e

/-- A child whose parent exits. It comes under the kernel if it runs; else it leaves the list, and
is reaped unless it has been. -/
def handedOn (e : TableEntry) : TableEntry :=
  if e.block.exited = false then e.under kernelPid
  else if e.block.reaped = false then (e.adrift.update .collected).released
  else e.adrift

/-- Another process after the exit of `parent`. -/
def bereft (parent : Pid) (e : TableEntry) : TableEntry :=
  if e.link = some parent then e.handedOn else e

/-- A process after its exit: reaped if it is the kernel's and nobody waits. -/
def departed (status : RawStatus) (e : TableEntry) : TableEntry :=
  let gone := (e.update (·.leaving.published status)).detached
  if e.block.parent = some kernelPid ∧ e.block.waiter = false
  then (gone.update .collected).released else gone

end TableEntry

namespace TableEntry

variable {e : TableEntry} {p : Pid}

/-- A child is held, moved on and let go of. -/
theorem released_rehomed (hz : e.block.refCount ≠ 0) :
    ((e.adrift.update .retained).rehomed).released = e.handedOn := by
  have he : (e.adrift.update .retained).block.exited = e.block.exited := rfl
  have hr : (e.adrift.update .retained).block.reaped = e.block.reaped := rfl
  have hn : (e.adrift.update .retained).block.refCount ≠ 1 := by
    simp only [block_update, block_adrift, Block.retained]
    omega
  unfold handedOn rehomed
  rw [he, hr]
  split
  · exact released_of_ne (e := under kernelPid _) hn
  · split
    · rw [released_of_ne (e := TableEntry.update _ .collected) hn]
      rfl
    · rw [released_of_ne hn]
      rfl

/-- A child that is held and moved on has one reference left only if it was a zombie. -/
theorem zombie_of_rehomed (hz : e.block.refCount ≠ 0)
    (hn : (e.adrift.update .retained).rehomed.block.refCount = 1) :
    e.block.state = .zombie := by
  have he : (e.adrift.update .retained).block.exited = e.block.exited := rfl
  have hr : (e.adrift.update .retained).block.reaped = e.block.reaped := rfl
  have hone : ∀ {b : Block}, b.refCount = e.block.refCount + 1 → b.refCount ≠ 1 := by omega
  rw [Block.state_eq_zombie_iff]
  unfold rehomed at hn
  rw [he, hr] at hn
  split at hn
  · exact absurd hn (hone rfl)
  · next hexited =>
    split at hn
    · next hreaped => exact ⟨hreaped, by simpa using hexited⟩
    · exact absurd hn (hone rfl)

/-- A process is held from the beginning of its exit to the end. -/
theorem released_departed {status : RawStatus} (hz : e.block.refCount ≠ 0) :
    (if e.block.parent = some kernelPid ∧ e.block.waiter = false
      then ((((e.update .retained).update .leaving).update (·.published status)).detached.update
        .collected).released
      else (((e.update .retained).update .leaving).update (·.published status)).detached).released =
    e.departed status := by
  have hn : e.block.refCount + 1 ≠ 1 := by omega
  unfold departed
  dsimp only
  split
  · rw [released_of_ne (e := (((e.update .retained).update .leaving).update
      (·.published status)).detached.update .collected) hn]
    rfl
  · exact released_of_ne (e := (((e.update .retained).update .leaving).update
      (·.published status)).detached) hn

theorem link_of_released {q : Pid} (hl : e.released.link = some q) : e.link = some q := by
  unfold released at hl
  split at hl
  · cases hl
  · exact hl

theorem link_of_departed {status : RawStatus} {q : Pid}
    (hl : (e.departed status).link = some q) : e.link = some q := by
  unfold departed at hl
  dsimp only at hl
  split at hl
  · have hkept := link_of_released hl
    exact hkept
  · exact hl

/-- Where a child comes that is handed on. -/
theorem link_of_handedOn {q : Pid} (hl : e.handedOn.link = some q) : q = kernelPid := by
  unfold handedOn at hl
  split at hl
  · exact (Option.some.inj hl).symm
  · split at hl
    · cases link_of_released hl
    · cases hl

/-- Nobody is left under a parent that has handed its children on. -/
theorem link_bereft_ne (hp : p ≠ kernelPid) : (e.bereft p).link ≠ some p := by
  unfold bereft
  split
  · exact fun hl => hp (link_of_handedOn hl)
  · next hl => exact hl

theorem core_released (e : TableEntry) : e.released.block.core = e.block.core := by
  unfold released
  split <;> rfl

theorem refCount_released (e : TableEntry) : e.released.block.refCount = e.block.refCount - 1 := by
  unfold released
  split <;> rfl

theorem pid_released (e : TableEntry) : e.released.block.pid = e.block.pid :=
  Block.pid_of_core e.core_released

/-- A process keeps its pid when it publishes its status, and is reaped then or is not. -/
theorem pid_published {c : Prop} [Decidable c] (status : RawStatus) (e : TableEntry) :
    (if c then ((e.update (·.published status)).detached.update .collected).released
      else (e.update (·.published status)).detached).block.pid = e.block.pid := by
  split
  · exact pid_released _
  · rfl

theorem core_handedOn (e : TableEntry) : e.handedOn.block.core = e.block.rehomed.core := by
  unfold handedOn Block.rehomed
  by_cases he : e.block.exited = false
  · rw [if_pos he, if_neg (by simp [he])]
    rfl
  · have hexited : e.block.exited = true := by simpa using he
    rw [if_neg he, if_pos hexited]
    by_cases hr : e.block.reaped = false
    · rw [if_pos hr]
      exact core_released _
    · have hreaped : e.block.reaped = true := by simpa using hr
      rw [if_neg hr, ← hreaped]
      rfl

/-- The exit of a parent stops nobody else. -/
theorem running_bereft (p : Pid) (e : TableEntry) :
    (e.bereft p).block.state = .running ↔ e.block.state = .running := by
  unfold bereft
  split
  · have hc := core_handedOn e
    rw [Block.state_eq_running_iff, Block.state_eq_running_iff, Block.reaped_of_core hc,
      Block.exited_of_core hc]
    unfold Block.rehomed
    split
    · next he => simp [he]
    · exact .rfl
  · exact .rfl

theorem exited_departed (status : RawStatus) (e : TableEntry) :
    (e.departed status).block.exited = true := by
  unfold departed
  dsimp only
  split
  · exact Block.exited_of_core (core_released _)
  · rfl

/-- Somebody waits, so that the process is not reaped at once. -/
theorem departed_of_waiter {status : RawStatus} (hw : e.block.waiter = true) :
    e.departed status = (e.update (·.leaving.published status)).detached := by
  unfold departed
  rw [if_neg]
  rintro ⟨-, hn⟩
  cases hn.symm.trans hw

theorem pid_rehomed (e : TableEntry) : e.rehomed.block.pid = e.block.pid := by
  unfold rehomed
  split
  · rfl
  · split
    · exact pid_released _
    · rfl

end TableEntry

namespace Kernel

variable {k k₀ k₁ k' : Kernel} {r : List Pid} {b x : BlockId}

/-! ### What is counted -/

/-- No check fails, no pid is lost, and the host has as many tasks as were made and not
destroyed, if it had before. -/
structure SameBooks (k k' : Kernel) : Prop where
  fault : k'.fault = k.fault
  capacity : k'.pids.capacity = k.pids.capacity
  created : k'.host.counters.created = k.host.counters.created
  tasks : k'.host.counters.destroyed + k'.host.tasks.size =
    k.host.counters.destroyed + k.host.tasks.size
  spawned : k'.host.counters.spawned = k.host.counters.spawned
  terminated : k'.host.counters.terminated = k.host.counters.terminated

namespace SameBooks

theorem of_host (hf : k'.fault = k.fault) (hp : k'.pids.capacity = k.pids.capacity)
    (hh : k'.host = k.host) : k.SameBooks k' :=
  ⟨hf, hp, by rw [hh], by rw [hh], by rw [hh], by rw [hh]⟩

theorem refl (k : Kernel) : k.SameBooks k := .of_host rfl rfl rfl

theorem trans (h : k.SameBooks k₁) (h' : k₁.SameBooks k') : k.SameBooks k' where
  fault := h'.fault.trans h.fault
  capacity := h'.capacity.trans h.capacity
  created := h'.created.trans h.created
  tasks := h'.tasks.trans h.tasks
  spawned := h'.spawned.trans h.spawned
  terminated := h'.terminated.trans h.terminated

theorem detachThread (k : Kernel) (task : TaskHandle) : k.SameBooks (k.detachThread task) :=
  ⟨rfl, rfl, rfl, congrArg _ (Assoc.size_modify ..), rfl, rfl⟩

end SameBooks

/-- A task that is destroyed counts, and one that is not there makes no difference. -/
theorem books_discardTask (k : Kernel) (task : TaskHandle) : k.SameBooks (k.discardTask task) := by
  have hfiles : (k.host.destroyFdTable task).tasks.size = k.host.tasks.size :=
    Assoc.size_modify ..
  have hhost : (k.discardTask task).host = (k.host.destroyFdTable task).destroyTask task := rfl
  unfold Host.destroyTask at hhost
  split at hhost
  · next ht =>
    have hsize := Assoc.size_erase ht
    refine ⟨rfl, rfl, by rw [hhost]; rfl, ?_, by rw [hhost]; rfl, by rw [hhost]; rfl⟩
    rw [hhost, ← hfiles, ← hsize]
    exact Nat.add_right_comm ..
  · refine ⟨rfl, rfl, by rw [hhost]; rfl, ?_, by rw [hhost]; rfl, by rw [hhost]; rfl⟩
    rw [hhost, hfiles]
    rfl

theorem Intact.books_release (h : k.Intact r) (b : BlockId) : k.SameBooks (k.release b).2 := by
  rw [release_eq]
  split
  · next hn =>
    have hb := h.installed b (by omega)
    have hpid : ((k.update b .released).block b).pid = (k.block b).pid :=
      view_update Block.pid rfl b
    obtain ⟨-, hcap, -, -, -, -, -, hfault, -⟩ :=
      destroy_spec (k := k.update b .released) (b := b) h.valid (by rw [hpid]; exact hb)
    obtain ⟨k₁, hk, hblocks, hhost⟩ := destroy_eq_discardTaskOf (k.update b .released) b
    have hbooks : k₁.SameBooks (k₁.discardTaskOf b) := by
      rw [discardTaskOf_eq]
      split
      · exact .refl _
      · have hupdate : k₁.SameBooks (k₁.update b Block.untasked) := .of_host rfl rfl rfl
        exact hupdate.trans (books_discardTask ..)
    rw [← hk] at hbooks
    have hsame : k₁.host = k.host := hhost
    refine ⟨hfault, hcap, hbooks.created.trans ?_, hbooks.tasks.trans ?_,
      hbooks.spawned.trans ?_, hbooks.terminated.trans ?_⟩ <;> rw [hsame]
  · exact .of_host rfl rfl rfl

/-! ### What holds between moves -/

/-- Whoever is linked under a process has it as its parent; zombies have no children left, and the
kernel is none of them. -/
structure Tidy (k : Kernel) : Prop where
  parent : ∀ {x p}, (k.entry x).link = some p → (k.block x).parent = some p
  tended : ∀ {x}, (k.block x).state = .zombie → (k.block x).refCount ≠ 0 →
    ∀ y, (k.entry y).link ≠ some (k.block x).pid
  root : ∀ {x}, (k.block x).state = .zombie → (k.block x).refCount ≠ 0 →
    (k.block x).pid ≠ kernelPid
  /-- No process is its own child. -/
  loop : ∀ {x}, (k.block x).pid ≠ kernelPid → (k.entry x).link ≠ some (k.block x).pid
  reaped : ∀ x, (k.block x).reaped = true → (k.block x).exited = true

end Kernel

/-- How an entry changes to which nothing is added: references and links may go, and the process
may be reaped. -/
structure TableEntry.Wanes (e e' : TableEntry) : Prop where
  pid : e'.block.pid = e.block.pid
  parent : e'.block.parent = e.block.parent
  counted : e'.block.refCount ≠ 0 → e.block.refCount ≠ 0
  flags : (e'.block.exited = e.block.exited ∧ e'.block.reaped = e.block.reaped) ∨
    (e'.block.exited = true ∧ e'.block.reaped = true)
  link : ∀ {p}, e'.link = some p → e.link = some p

theorem TableEntry.Wanes.refl (e : TableEntry) : e.Wanes e :=
  ⟨rfl, rfl, id, Or.inl ⟨rfl, rfl⟩, id⟩

/-- A process that is held begins to exit. -/
theorem TableEntry.wanes_leaving {e : TableEntry} (hz : e.block.refCount ≠ 0) :
    e.Wanes ((e.update .retained).update .leaving) :=
  ⟨rfl, rfl, fun _ => hz, Or.inl ⟨rfl, rfl⟩, id⟩

theorem TableEntry.Wanes.zombie {e e' : TableEntry} (h : e.Wanes e')
    (hz : e'.block.state = .zombie) : e.block.state = .zombie := by
  rw [Block.state_eq_zombie_iff] at hz ⊢
  rcases h.flags with ⟨he, hr⟩ | ⟨-, hr⟩
  · rwa [← he, ← hr]
  · cases hz.1.symm.trans hr

namespace Kernel

variable {k k₀ k₁ k' : Kernel} {r : List Pid} {b x : BlockId}

theorem Tidy.wanes (h : k.Tidy) (hw : ∀ x, (k.entry x).Wanes (k'.entry x)) : k'.Tidy := by
  have hpid : ∀ x, (k'.block x).pid = (k.block x).pid := fun x => by simpa using (hw x).pid
  have hcounted : ∀ {x}, (k'.block x).refCount ≠ 0 → (k.block x).refCount ≠ 0 := fun {x} => by
    simpa using (hw x).counted
  have hzombie : ∀ {x}, (k'.block x).state = .zombie → (k.block x).state = .zombie :=
    fun {x} => by simpa using (hw x).zombie
  refine ⟨fun {x p} hl => ?_, fun {x} hz hn y hl => ?_, fun {x} hz hn => ?_,
    fun {x} hk hl => ?_, fun x hr => ?_⟩
  · have hparent := (hw x).parent
    simp only [block_entry] at hparent
    rw [hparent]
    exact h.parent ((hw x).link hl)
  · rw [hpid] at hl
    exact h.tended (hzombie hz) (hcounted hn) y ((hw y).link hl)
  · rw [hpid]
    exact h.root (hzombie hz) (hcounted hn)
  · rw [hpid] at hk hl
    exact h.loop hk ((hw x).link hl)
  · have hflags := (hw x).flags
    simp only [block_entry] at hflags
    rcases hflags with ⟨he, hr'⟩ | ⟨he, -⟩
    · rw [he]
      exact h.reaped x (hr' ▸ hr)
    · exact he

/-! ### Children -/

/-- On the way from `k₀`, nobody but the kernel gets children, and nothing breaks. -/
structure Handing (k₀ : Kernel) (r : List Pid) (k : Kernel) : Prop where
  intact : k.Intact r
  books : k₀.SameBooks k
  links : ∀ {x p}, (k.entry x).link = some p → p = kernelPid ∨ ∃ y, (k₀.entry y).link = some p

theorem Handing.next (h : k₀.Handing r k) (hi : k'.Intact r) (hb : k.SameBooks k')
    (hl : ∀ {x p}, (k'.entry x).link = some p → p = kernelPid ∨ (k.entry x).link = some p) :
    k₀.Handing r k' where
  intact := hi
  books := h.books.trans hb
  links hlink := (hl hlink).elim Or.inl h.links

/-- Children that are linked under their parent are held one after the other. -/
theorem Intact.foldl_holdChild (parent : Pid) (pids : List Pid) {k : Kernel} (h : k.Intact r)
    (hc : ∀ p ∈ pids, ∃ c, k.pids.lookup p = some c ∧ (k.block c).parent = some parent)
    (held : List BlockId) : pids.foldl (Kernel.holdChild parent) (held, k) =
      ((pids.filterMap k.pids.lookup).reverse ++ held,
        (pids.filterMap k.pids.lookup).foldl (fun k c => k.update c .retained) k) := by
  induction pids generalizing k held with
  | nil => rfl
  | cons p pids ih =>
    obtain ⟨c, hl, hp⟩ := hc p List.mem_cons_self
    have hz : (k.blocks.get c).refCount ≠ 0 := h.counted hl
    have hparent := view_update (k := k) (b := c) (f := .retained) (g := Block.parent) rfl
    have hget : k.pids.getRetained k.blocks p = some (c, k.blocks.update c .retained) := by
      unfold PidMap.getRetained BlockStore.tryRetain
      rw [hl, Option.bind_some, if_neg hz]
      rfl
    have hone : Kernel.holdChild parent (held, k) p = (c :: held, k.update c .retained) := by
      unfold Kernel.holdChild
      simp only [hget]
      exact congrArg _ (if_pos ((hparent c).trans hp))
    have hrest := ih (h.alike (.retained (h.counted hl))) (fun q hq => by
      obtain ⟨d, hd, hdp⟩ := hc q (List.mem_cons_of_mem _ hq)
      exact ⟨d, hd, (hparent d).trans hdp⟩) (c :: held)
    rw [List.foldl_cons, hone, hrest, List.filterMap_cons_some hl]
    simp only [List.reverse_cons, List.append_assoc, List.singleton_append, List.foldl_cons]
    rfl

theorem Handing.refl (h : k.Intact r) : k.Handing r k :=
  ⟨h, .refl k, fun {x} _ hl => Or.inr ⟨x, hl⟩⟩

/-- The flags of a block change. -/
theorem Handing.update (h : k₀.Handing r k) {c : BlockId} (hlt : c < k.blocks.size)
    {f : Block → Block} (hf : ∀ x, (f x).pid = x.pid ∧ (f x).task = x.task ∧
      (f x).taskReleased = x.taskReleased ∧ (f x).refCount = x.refCount) :
    k₀.Handing r (k.update c f) ∧ ∀ x, (k.update c f).entry x =
      if x = c then (k.entry x).update f else k.entry x := by
  have hone : ∀ x, (k.update c f).entry x =
      if x = c then (k.entry x).update f else k.entry x :=
    entry_update (hf _).1 (hf _).2.1 (by rw [(hf _).2.2.2]) hlt
  refine ⟨h.next (h.intact.alike (.of_update c f hf)) (.of_host rfl rfl rfl) fun {x p} hl => ?_,
    hone⟩
  rw [hone] at hl
  split at hl <;> exact Or.inr hl

theorem Handing.detachThread (h : k₀.Handing r k) (hz : (k.block b).refCount ≠ 0) :
    k₀.Handing r (k.detachThread (k.block b).task) ∧
      ∀ x, (k.detachThread (k.block b).task).entry x =
        if x = b then (k.entry x).detached else k.entry x := by
  have hone := h.intact.entry_detachThread hz
  refine ⟨h.next (h.intact.alike (.detachThread ..)) (.detachThread ..) fun {x p} hl => ?_, hone⟩
  rw [hone] at hl
  split at hl <;> exact Or.inr hl

/-- Holding a child adds to its count. -/
theorem Handing.hold (h : k₀.Handing r k) {c : BlockId} (hz : (k.block c).refCount ≠ 0) :
    k₀.Handing r (k.update c .retained) ∧ ∀ x, (k.update c .retained).entry x =
      if x = c then (k.entry x).update .retained else k.entry x := by
  have hone : ∀ x, (k.update c .retained).entry x =
      if x = c then (k.entry x).update .retained else k.entry x :=
    entry_update rfl rfl (by simp only [Block.retained]; omega) (h.intact.lt_of_refCount hz)
  refine ⟨h.next (h.intact.alike (.retained hz)) (.of_host rfl rfl rfl) fun {x p} hl => ?_, hone⟩
  rw [hone] at hl
  split at hl <;> exact Or.inr hl

theorem Handing.release (h : k₀.Handing r k) {c : BlockId} (hc : (k.block c).refCount = 1 →
      ∀ x, (k.entry x).link ≠ some (k.block c).pid) :
    k₀.Handing r (k.release c).2 ∧ ∀ x, (k.release c).2.entry x =
      if x = c then (k.entry x).released else k.entry x := by
  have hone := h.intact.entry_release hc
  refine ⟨h.next (h.intact.release c) (h.intact.books_release c) fun {x p} hl => ?_, hone⟩
  rw [hone] at hl
  split at hl
  · unfold TableEntry.released at hl
    split at hl
    · cases hl
    · exact Or.inr hl
  · exact Or.inr hl

theorem Handing.attach (h : k₀.Handing r k) {c : BlockId} (hl : (k.entry c).link = none)
    (hz : (k.block c).refCount ≠ 0) (hi : (k.attach c root).Intact r) :
    k₀.Handing r (k.attach c root) ∧ ∀ x, (k.attach c root).entry x =
      if x = c then (k.entry x).under kernelPid else k.entry x := by
  have hone := h.intact.entry_attach (q := root) hz hl
  rw [h.intact.root_pid] at hone
  have hfree : k.family.parentLink? (k.block c).pid = none := by
    rwa [entry_of_counted hz] at hl
  obtain ⟨-, -, hpids, -, hfault⟩ := attach_spec (r := root) hfree
  refine ⟨h.next hi (.of_host hfault (by rw [hpids]) (host_attach ..)) fun {x p} hx => ?_, hone⟩
  rw [hone] at hx
  split at hx
  · exact Or.inl (Option.some.inj hx).symm
  · exact Or.inr hx

/-- A child that is held is moved on. -/
theorem Handing.rehome (h : k₀.Handing r k) {c : BlockId} (hl : (k.entry c).link = none)
    (hz : 2 ≤ (k.block c).refCount) :
    k₀.Handing r (k.rehome c) ∧ ∀ x, (k.rehome c).entry x =
      if x = c then (k.entry x).rehomed else k.entry x := by
  have hcounted : (k.block c).refCount ≠ 0 := by omega
  have hi := (h.intact.rehome hcounted).1
  have hrehomed : (k.entry c).rehomed =
      if (k.block c).exited = false then (k.entry c).under kernelPid
      else if (k.block c).reaped = false then ((k.entry c).update .collected).released
      else k.entry c := by
    rw [TableEntry.rehomed, block_entry]
  unfold Kernel.rehome at hi ⊢
  cases he : (k.block c).exited with
  | false =>
    simp only [he, Bool.not_false, if_true] at hi hrehomed ⊢
    obtain ⟨hh, hone⟩ := h.attach hl (by omega) hi
    refine ⟨hh, fun x => ?_⟩
    rw [hone]
    split
    · next hx => rw [hx, hrehomed]
    · rfl
  | true =>
    cases hr : (k.block c).reaped with
    | false =>
      have hlt : c < k.blocks.size := h.intact.lt_of_refCount (by omega)
      obtain ⟨hh, hone⟩ := h.update (f := .collected) hlt fun _ => ⟨rfl, rfl, rfl, rfl⟩
      have hcount : ((k.update c .collected).block c).refCount ≠ 1 := by
        rw [block_update_self hlt]
        simp only [Block.collected]
        omega
      obtain ⟨hh', hlast⟩ := hh.release fun hn => absurd hn hcount
      simp only [he, hr, Bool.not_true, Bool.false_eq_true, if_false, Bool.not_false, if_true,
        Bool.true_eq_false] at hrehomed ⊢
      refine ⟨hh', fun x => (hlast x).trans ?_⟩
      rw [hone]
      split
      · next hx => rw [hx, hrehomed]
      · rfl
    | true =>
      simp only [he, hr, Bool.not_true, Bool.false_eq_true, if_false, Bool.true_eq_false]
        at hrehomed ⊢
      refine ⟨h, fun x => ?_⟩
      split
      · next hx => rw [hx, hrehomed]
      · rfl

/-- The children of a parent are taken out of its list and held, each once. -/
theorem Intact.holdChildren_eq (h : k.Intact r) {p : Pid}
    (hc : ∀ c ∈ k.childBlocks p, (k.block c).parent = some p) :
    k.holdChildren p = (k.childBlocks p, (k.childBlocks p).foldl (fun k c => k.update c .retained)
      { k with family := k.family.detachAll p }) := by
  have hchildren : ∀ c ∈ k.family.childrenOf p, ∃ b, k.pids.lookup c = some b ∧
      (k.block b).parent = some p := fun c hm => by
    obtain ⟨b, hb⟩ := h.child ((h.family.mirror c p).2 hm)
    exact ⟨b, hb, hc b (List.mem_filterMap.2 ⟨c, hm, hb⟩)⟩
  have hfold := (h.detach p).foldl_holdChild p (k.family.childrenOf p) hchildren []
  unfold Kernel.holdChildren
  simp only [hfold, List.append_nil, List.reverse_reverse]
  rfl

/-- The children of a parent that exits are held, and nobody else changes. -/
theorem Intact.entry_holdChildren (h : k.Intact r) (ht : k.Tidy) (p : Pid) :
    ∃ k', k.holdChildren p = (k.childBlocks p, k') ∧ k.Handing r k' ∧
      ∀ x, k'.entry x = if x ∈ k.childBlocks p then (k.entry x).adrift.update .retained
        else k.entry x := by
  have hdetached := h.entry_detachAll p
  have hlink : ∀ c ∈ k.childBlocks p, (k.entry c).link = some p := fun c hc =>
    h.mem_childBlocks.1 hc
  have h₁ : k.Handing r { k with family := k.family.detachAll p } := by
    refine ⟨h.detach p, .of_host rfl rfl rfl, fun {x q} hl => ?_⟩
    rw [hdetached, TableEntry.unlinked] at hl
    split at hl
    · cases hl
    · exact Or.inr ⟨x, hl⟩
  obtain ⟨h₂, hretained⟩ := entry_foldl (Q := fun e => e.block.refCount ≠ 0)
    (g := (·.update .retained)) (fun hh hz => hh.hold (by simpa using hz)) _
    (h.nodup_childBlocks p) h₁ fun c hc => by
      rw [hdetached, TableEntry.unlinked_of_link (hlink c hc)]
      simpa using (link_entry.1 (hlink c hc)).1
  refine ⟨_, h.holdChildren_eq fun c hc => ht.parent (hlink c hc), h₂, fun x => ?_⟩
  rw [hretained, hdetached]
  split
  · next hx => rw [TableEntry.unlinked_of_link (hlink x hx)]
  · next hx => rw [TableEntry.unlinked_of_ne fun hl => hx (h.mem_childBlocks.2 hl)]

/-- A child that is held and moved on has no children itself if nobody else holds it. -/
theorem Tidy.childless (ht : k.Tidy) {c : BlockId} (hz : (k.block c).refCount ≠ 0)
    (hone : ((k.entry c).adrift.update .retained).rehomed.block.refCount = 1) {q : Pid}
    (hq : q = kernelPid ∨ ∃ y, (k.entry y).link = some q) :
    q ≠ ((k.entry c).adrift.update .retained).rehomed.block.pid := by
  have hzombie := TableEntry.zombie_of_rehomed (by simpa using hz) hone
  rw [block_entry] at hzombie
  have hpid : ((k.entry c).adrift.update .retained).rehomed.block.pid = (k.block c).pid := by
    rw [TableEntry.pid_rehomed]
    simp [TableEntry.update, Block.retained]
  rw [hpid]
  rcases hq with rfl | ⟨y, hy⟩
  · exact (ht.root hzombie hz).symm
  · rintro rfl
    exact ht.tended hzombie hz y hy

/-- The exit of a parent hands its children on, and touches nobody else. -/
theorem Intact.entry_rearrangeChildren (h : k.Intact r) (ht : k.Tidy) (p : Pid) :
    k.Handing r (k.rearrangeChildren p) ∧
      ∀ x, (k.rearrangeChildren p).entry x = (k.entry x).bereft p := by
  have hn := h.nodup_childBlocks p
  have hcounted : ∀ c ∈ k.childBlocks p, (k.block c).refCount ≠ 0 := fun c hc =>
    (link_entry.1 (h.mem_childBlocks.1 hc)).1
  obtain ⟨k₂, hheld, h₂, hretained⟩ := h.entry_holdChildren ht p
  -- they are moved on
  obtain ⟨h₃, hrehomed⟩ := entry_foldl (f := Kernel.rehome)
    (Q := fun e => e.link = none ∧ 2 ≤ e.block.refCount)
    (fun hh hq => hh.rehome hq.1 (by simpa using hq.2)) _ hn h₂ fun c hc => by
      have hz := hcounted c hc
      rw [hretained, if_pos hc]
      refine ⟨rfl, ?_⟩
      simp only [TableEntry.block_update, TableEntry.block_adrift, block_entry, Block.retained]
      omega
  have hmoved : ∀ x, (((k.childBlocks p).foldl Kernel.rehome k₂).entry x) =
      if x ∈ k.childBlocks p then ((k.entry x).adrift.update .retained).rehomed
      else k.entry x := fun x => by
    rw [hrehomed, hretained]
    split <;> rfl
  -- and let go of
  obtain ⟨h₄, hreleased⟩ := entry_foldl (P := k.Handing r) (f := fun k b => (k.release b).2)
    (Q := fun e => e.block.refCount = 1 → ∀ q,
      (q = kernelPid ∨ ∃ y, (k.entry y).link = some q) → q ≠ e.block.pid)
    (fun hh hq => hh.release fun hone x hx =>
      hq (by simpa using hone) _ (hh.links hx) (by simp)) _ hn h₃ fun c hc => by
    rw [hmoved, if_pos hc]
    exact fun hone q hq => ht.childless (hcounted c hc) hone hq
  unfold Kernel.rearrangeChildren
  simp only [hheld]
  refine ⟨h₄, fun x => ?_⟩
  rw [hreleased, hmoved, TableEntry.bereft]
  simp only [h.mem_childBlocks]
  split
  · next hl => exact TableEntry.released_rehomed (by simpa using (link_entry.1 hl).1)
  · rfl

/-! ### The process itself -/

/-- A process that is held publishes its status, and is reaped if nobody could collect it. -/
theorem Handing.publishExit (h : k₀.Handing r k) (hz : 2 ≤ (k.block b).refCount)
    (status : RawStatus) : k₀.Handing r (k.publishExit b status).2 ∧
      ∀ x, (k.publishExit b status).2.entry x = if x = b then
        (if (k.block b).parent = some kernelPid ∧ (k.block b).waiter = false
          then (((k.entry x).update (·.published status)).detached.update .collected).released
          else ((k.entry x).update (·.published status)).detached)
        else k.entry x := by
  have hlt := h.intact.lt_of_refCount (b := b) (by omega)
  obtain ⟨h₁, hpublished⟩ := h.update (f := (·.published status)) hlt
    fun _ => ⟨rfl, rfl, rfl, rfl⟩
  have hself : (k.update b (·.published status)).block b = (k.block b).published status :=
    block_update_self hlt _
  have hfold : (fun x : Block => { x with exited := true, code := status }) =
      (·.published status) := rfl
  have hfold' : (fun x : Block => { x with reaped := true }) = Block.collected := rfl
  unfold Kernel.publishExit
  rw [hfold, hfold']
  dsimp only
  rw [hself, show ((k.block b).published status).parent = (k.block b).parent from rfl,
    show ((k.block b).published status).waiter = (k.block b).waiter from rfl]
  by_cases hc : (k.block b).parent = some kernelPid ∧ (k.block b).waiter = false
  · rw [if_pos hc]
    simp only [if_pos hc]
    obtain ⟨h₂, hcollected⟩ := h₁.update (c := b) (f := .collected) (by rwa [size_update])
      fun _ => ⟨rfl, rfl, rfl, rfl⟩
    have hcount : (((k.update b (·.published status)).update b .collected).block b).refCount =
        (k.block b).refCount :=
      (view_update (f := .collected) Block.refCount rfl b).trans
        (view_update (f := (·.published status)) Block.refCount rfl b)
    obtain ⟨h₃, hdetached⟩ := h₂.detachThread (b := b) (by omega)
    obtain ⟨h₄, hreleased⟩ := h₃.release (c := b) fun hone => by
      have hsame : (k.block b).refCount = 1 := hcount.symm.trans hone
      omega
    refine ⟨h₄, fun x => ?_⟩
    rw [hreleased, hdetached, hcollected, hpublished]
    split <;> rfl
  · rw [if_neg hc]
    simp only [if_neg hc]
    obtain ⟨h₂, hdetached⟩ := h₁.detachThread (b := b) (by
      rw [hself]
      simp only [Block.published]
      omega)
    rw [hself] at h₂ hdetached
    refine ⟨h₂, fun x => ?_⟩
    rw [hdetached, hpublished]
    split <;> rfl

/-- A process of a user's that has not begun to exit begins. -/
theorem Intact.beginExit_eq (h : k.Intact r) {p : Pid} (hb : k.pids.lookup p = some b)
    (hp : p ≠ kernelPid) (he : (k.block b).exiting = false) :
    (k.update b .retained).beginExit b = (k.update b .retained).update b .leaving := by
  obtain ⟨hpid, hz⟩ := h.lookup_iff.1 hb
  have hself : (k.update b .retained).block b = (k.block b).retained :=
    block_update_self (h.lt_of_refCount hz) _
  have hkernel : (k.block b).retained.isKernel = false := by
    simpa [Block.isKernel, Block.retained, hpid] using hp
  have hexiting : (k.block b).retained.exiting = false := he
  unfold Kernel.beginExit
  simp only [hself, hkernel, hexiting, Bool.false_eq_true, if_false]
  rfl

/-- The stages of an exit. -/
theorem Intact.exit_eq (h : k.Intact r) {p : Pid} (hb : k.pids.lookup p = some b)
    (status : RawStatus) :
    (k.exit p status).1 = some ((((k.update b .retained).beginExit b).rearrangeChildren
        p).publishExit b status).1 ∧
      (k.exit p status).2 = (((((k.update b .retained).beginExit b).rearrangeChildren
        p).publishExit b status).2.release b).2 := by
  obtain ⟨rfl, -⟩ := h.lookup_iff.1 hb
  cases published : (((k.update b .retained).beginExit b).rearrangeChildren
      (k.block b).pid).publishExit b status with
  | mk path k' =>
    rw [exit_of_found (h.found hb) published]
    exact ⟨rfl, rfl⟩

/-- A process that is held begins to exit. -/
theorem Intact.entry_beginExit (h : k.Intact r) (ht : k.Tidy) {p : Pid}
    (hb : k.pids.lookup p = some b) (hp : p ≠ kernelPid) (he : (k.block b).exiting = false) :
    k.Handing r ((k.update b .retained).beginExit b) ∧
      ((k.update b .retained).beginExit b).Tidy ∧
      ∀ x, ((k.update b .retained).beginExit b).entry x =
        if x = b then ((k.entry x).update .retained).update .leaving else k.entry x := by
  obtain ⟨hpid, hz⟩ := h.lookup_iff.1 hb
  have hlt := h.lt_of_refCount hz
  obtain ⟨h₁, hretained⟩ := (Handing.refl h).hold hz
  obtain ⟨h₂, hleaving⟩ := h₁.update (c := b) (f := .leaving) (by rwa [size_update])
    fun _ => ⟨rfl, rfl, rfl, rfl⟩
  rw [h.beginExit_eq hb hp he]
  have hbegun : ∀ x, ((k.update b .retained).update b .leaving).entry x =
      if x = b then ((k.entry x).update .retained).update .leaving else k.entry x := fun x => by
    rw [hleaving, hretained]
    split <;> rfl
  refine ⟨h₂, ht.wanes fun x => ?_, hbegun⟩
  rw [hbegun]
  split
  · next hx => exact TableEntry.wanes_leaving (by simpa [hx] using hz)
  · exact .refl _

/-- An exit changes the process and its children, and no other. -/
theorem Intact.entry_exit (h : k.Intact r) (ht : k.Tidy) {p : Pid}
    (hb : k.pids.lookup p = some b) (hp : p ≠ kernelPid) (he : (k.block b).exiting = false)
    (status : RawStatus) : k.SameBooks (k.exit p status).2 ∧
      ∀ x, (k.exit p status).2.entry x =
        if x = b then (k.entry x).departed status else (k.entry x).bereft p := by
  obtain ⟨hpid, hz⟩ := h.lookup_iff.1 hb
  obtain ⟨h₂, htidy, hbegun⟩ := h.entry_beginExit ht hb hp he
  -- its children are handed on
  obtain ⟨h₃, hbereft⟩ := h₂.intact.entry_rearrangeChildren htidy p
  have hown : ((k.entry b).update .retained).link ≠ some p := by
    have hloop := ht.loop (x := b) (by rwa [hpid])
    rwa [hpid] at hloop
  have hheld : ∀ x, (((k.update b .retained).beginExit b).rearrangeChildren p).entry x =
      if x = b then ((k.entry x).update .retained).update .leaving
      else (k.entry x).bereft p := fun x => by
    rw [hbereft, hbegun]
    split
    · next hx =>
      subst hx
      exact if_neg hown
    · rfl
  have hblock : (((k.update b .retained).beginExit b).rearrangeChildren p).block b =
      (k.block b).retained.leaving := by
    have hentry := congrArg TableEntry.block (hheld b)
    simpa using hentry
  -- it publishes its status and is let go of
  obtain ⟨h₄, hpublished⟩ := (Handing.refl h₃.intact).publishExit (b := b) (by
    rw [hblock]
    simp only [Block.leaving, Block.retained]
    omega) status
  have hpid₄ : (((((k.update b .retained).beginExit b).rearrangeChildren p).publishExit b
      status).2.block b).pid = p := by
    rw [← block_entry, hpublished, if_pos rfl, TableEntry.pid_published, block_entry, hblock]
    exact hpid
  obtain ⟨h₅, hreleased⟩ := h₄.release (c := b) fun _ x hx => by
    rw [hpid₄] at hx
    rcases h₄.links hx with hkernel | ⟨y, hy⟩
    · exact hp hkernel
    · rw [hbereft] at hy
      exact TableEntry.link_bereft_ne hp hy
  rw [(h.exit_eq hb status).2]
  refine ⟨h₂.books.trans (h₃.books.trans h₅.books), fun x => ?_⟩
  rw [hreleased, hpublished, hheld, hblock]
  split
  · next hx =>
    subst hx
    have hcounted : (k.entry x).block.refCount ≠ 0 := by rwa [block_entry]
    have hlast : _ = (k.entry x).departed status := TableEntry.released_departed hcounted
    rw [block_entry] at hlast
    exact hlast
  · rfl

/-- Consuming the status of a process without children changes that process alone. -/
theorem Intact.entry_collect (h : k.Intact r) (hlt : b < k.blocks.size)
    (hp : (k.block b).pid ≠ kernelPid) (hb : ∀ x, (k.entry x).link ≠ some (k.block b).pid) :
    k.SameBooks (k.collect b).2 ∧ ∀ x, (k.collect b).2.entry x =
      if x = b then ((k.entry x).update .collected).released.released else k.entry x := by
  have hbarren : ∀ {k' : Kernel}, k.Handing r k' → (k'.block b).pid = (k.block b).pid →
      ∀ x, (k'.entry x).link ≠ some (k'.block b).pid := fun hh hpid x hx => by
    rw [hpid] at hx
    rcases hh.links hx with hkernel | ⟨y, hy⟩
    · exact hp hkernel
    · exact hb y hy
  obtain ⟨h₁, hcollected⟩ := (Handing.refl h).update (f := .collected) hlt
    fun _ => ⟨rfl, rfl, rfl, rfl⟩
  have hpid₁ : ((k.update b .collected).block b).pid = (k.block b).pid :=
    view_update Block.pid rfl b
  obtain ⟨h₂, hfirst⟩ := h₁.release (c := b) fun _ => hbarren h₁ hpid₁
  obtain ⟨h₃, hsecond⟩ := h₂.release (c := b) fun _ =>
    hbarren h₂ (((quiet_release ..).pid b).trans hpid₁)
  rw [collect_eq]
  dsimp only
  refine ⟨h₃.books, fun x => ?_⟩
  rw [hsecond, hfirst, hcollected]
  split <;> rfl

end Kernel

end Lifecycle
