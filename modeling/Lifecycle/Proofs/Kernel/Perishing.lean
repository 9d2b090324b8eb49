import Lifecycle.Proofs.Kernel.Evolving
import Lifecycle.Proofs.Kernel.Sane

/-! How blocks come to their end. A block whose last reference is given back is the one at its
pid, has its task destroyed then or when the table is shut down, and never has references
again; all of it holds of any chain of elementary changes. -/

namespace Lifecycle.Kernel

variable {k k' : Kernel} {busy : Prop} {r r' : List Pid} {ds : List Release}

/-! ### Blocks with references are at their pids -/

/-- A live table, with every block that has references at its pid; the pids in `r` are taken
for blocks to come. -/
structure Seated (k : Kernel) (r : List Pid) : Prop where
  placed : { k with fault := none }.Placed (.holding r)
  installed : ∀ b, (k.block b).refCount ≠ 0 → k.pids.lookup (k.block b).pid = some b

/-- A live table with its blocks at their pids, or one that is shut down. -/
def Standing (k : Kernel) (r : List Pid) : Prop := k.Seated r ∨ k.Down

namespace Seated

variable (h : k.Seated r)
include h

theorem live : k.live = true := h.placed.live

theorem valid : k.pids.Valid := h.placed.valid

theorem own {p : Pid} {b : BlockId} (hb : k.pids.lookup p = some b) :
    b < k.blocks.size ∧ (k.block b).pid = p :=
  h.placed.own hb

theorem tame (ht : k.Tame k') : k'.Seated r := by
  refine ⟨h.placed.congr ht.live rfl ht.pids ht.size ht.pid rfl, ?_⟩
  simpa only [ht.pids, ht.pid, ne_eq, ht.vacant] using h.installed

/-- The host does not matter. -/
theorem of_table (ht : k'.table = k.table) : k'.Seated r := by
  have hb := block_eq_of_table ht
  have hp : k'.pids = k.pids := congrArg Table.pids ht
  refine ⟨h.placed.congr (congrArg Table.live ht) rfl hp ?_ ?_ rfl, ?_⟩
  · exact congrArg BlockStore.size (congrArg Table.blocks ht)
  · exact fun b => congrArg Block.pid (hb b)
  · simpa only [hp, hb] using h.installed

theorem with_pids {m : PidMap} {r₁ : List Pid}
    (hp : { { k with pids := m } with fault := none }.Placed (.holding r₁))
    (hl : m.lookup = k.pids.lookup) : { k with pids := m }.Seated r₁ :=
  ⟨hp, fun b hz => hl ▸ h.installed b hz⟩

theorem reserve {p : Pid} (hk : k.reserve = (.ok p, k')) : k'.Seated (p :: r) := by
  rcases reserve_spec h.live h.valid with ⟨-, he⟩ | ⟨-, q, m, he, hv, ht, -, hc, -, hl, hta⟩
  · cases he.symm.trans hk
  · cases he.symm.trans hk
    exact h.with_pids (h.placed.reserve hv ht hc hl hta).2 hl

/-- A reference given back leaves the others as they are. -/
theorem forgo (b : BlockId) : (k.update b .released).Seated r := by
  have hq : k.Quiet (k.update b .released) := .of_update b _ fun _ => rfl
  refine ⟨h.placed.congr rfl rfl rfl hq.size (hq.pid) rfl, fun c hz => ?_⟩
  rw [hq.pid]
  refine h.installed c fun hc => hz ?_
  rw [block_update]
  split
  · exact Nat.sub_eq_zero_of_le (Nat.le_succ_of_le (Nat.le_of_eq hc))
  · exact hc

/-- The last reference gone, the block is taken from its pid, and no check fails. -/
theorem destroyed {b : BlockId} (hn : (k.block b).refCount = 1) :
    ((k.update b .released).destroy b).Seated r ∧
      ((k.update b .released).destroy b).fault = k.fault := by
  have hb := h.installed b (by omega)
  have hlt := (h.own hb).1
  have hq₁ : k.Quiet (k.update b .released) := .of_update b _ fun _ => rfl
  have hq : k.Quiet ((k.update b .released).destroy b) := hq₁.trans (quiet_destroy ..)
  obtain ⟨hvalid, hcap, -, htaken, hlook, -, hlive, hfault, hrefs⟩ :=
    destroy_spec (k := k.update b .released) (b := b) h.valid (by rw [hq₁.pid]; exact hb)
  rw [hq₁.pid] at hlook htaken
  refine ⟨⟨h.placed.forget ⟨hq.size, hq.core⟩ hb hlive rfl hvalid hcap htaken hlook,
    fun c hz => ?_⟩, hfault⟩
  rw [hrefs, refCount_released hlt] at hz
  have hcb : c ≠ b := by
    rintro rfl
    rw [if_pos rfl] at hz
    omega
  have hc := h.installed c (by omega)
  rw [hq.pid, hlook, if_neg fun hp => hcb (Sound.eq_of_pid hc hb hp)]
  exact hc

theorem release (b : BlockId) :
    (k.release b).2.Seated r ∧ (k.release b).2.fault = k.fault := by
  rw [release_eq]
  split
  · next hn => exact h.destroyed hn
  · exact ⟨h.forgo b, rfl⟩

theorem shutdown : k.shutdown.2.Down ∧ k.shutdown.2.fault = k.fault := by
  obtain ⟨hdown, -, hfault, -⟩ := shutdown_spec h.live h.valid
  exact ⟨hdown, hfault⟩

end Seated

theorem Seated.unreserve {p : Pid} (h : k.Seated (p :: r)) :
    (k.unreserve p).Seated r ∧ (k.unreserve p).fault = k.fault := by
  have hmem : p ∈ p :: r := List.mem_cons_self
  obtain ⟨m, hm, hv, hc, -, hl, hta⟩ :=
    unreserve_spec h.valid ((h.placed.taken p).2 (Or.inr hmem)) (h.placed.empty p hmem)
  rw [hm]
  exact ⟨h.with_pids (h.placed.unreserve (a := .holding r) hv hc hl hta) hl, rfl⟩

/-- A new block is at the pid that was taken for it. -/
theorem Seated.make {p : Pid} (h : k.Seated (p :: r)) (name : String) :
    (k.make p name none).2.Seated r ∧ (k.make p name none).2.fault = k.fault := by
  have hmem : p ∈ p :: r := List.mem_cons_self
  have hnone := h.placed.empty p hmem
  obtain ⟨k', hk, hb, -, -, hlive, hfault, hv, hc, -, hta, hl⟩ :=
    make_spec h.valid ((h.placed.taken p).2 (Or.inr hmem)) hnone name
  have hplaced : ({ k with fault := none }.seat (.fresh p name ⟨k.host.nextTask⟩)
      k'.pids).Placed (.holding r) := h.placed.seat rfl hv hc hta hl
  rw [hk]
  refine ⟨⟨hplaced.congr hlive rfl rfl ?_ ?_ rfl, fun b hz => ?_⟩, hfault⟩
  · exact congrArg BlockStore.size hb
  · exact fun b => congrArg (fun s : BlockStore => (s.get b).pid) hb
  · rw [block_of_add hb] at hz ⊢
    rw [hl]
    split at hz
    · next hn =>
      rw [if_pos hn]
      exact (if_pos rfl).trans (congrArg some hn.symm)
    · next hn =>
      rw [if_neg hn]
      have hi := h.installed b hz
      rw [if_neg fun hp => by rw [hp, hnone] at hi; cases hi]
      exact hi

namespace Down

variable (h : k.Down)
include h

theorem tame (ht : k.Tame k') : k'.Down :=
  ⟨ht.live.trans h.live, ht.pids ▸ h.valid, ht.pids ▸ h.free⟩

/-- No pid is taken any more, and a block has nowhere to go. -/
theorem install (block : Block) : (k.install block).2.Down := by
  have hrefused : ∃ fault, k.pids.install block.pid block.pid k.blocks.size = .error fault := by
    have htaken := h.free block.pid
    unfold PidMap.isAllocated at htaken
    unfold PidMap.install
    by_cases hc : k.pids.capacity ≤ block.pid.toNat
    · exact ⟨_, if_pos hc⟩
    · have ht : k.pids.isTaken block.pid.toNat = false := by
        simpa [Nat.lt_of_not_le hc] using htaken
      refine ⟨.neverAllocated block.pid, ?_⟩
      rw [if_neg hc, if_neg (not_not_intro rfl), ht]
      rfl
  obtain ⟨fault, hi⟩ := hrefused
  unfold Kernel.install
  dsimp only
  rw [hi]
  exact ⟨h.live, h.valid, h.free⟩

theorem make (p : Pid) (name : String) : (k.make p name none).2.Down := by
  have hd : (k.createTask name none).2.Down := h.of_table rfl
  exact hd.install (.fresh p name ⟨k.host.nextTask⟩)

end Down

/-- Installing a block expects no other one. -/
theorem fault_make {p q : Pid} {name : String}
    (hf : (k.make p name none).2.fault = some (.differentBlock q)) :
    k.fault = some (.differentBlock q) := by
  change ((k.createTask name none).2.install (.fresh p name ⟨k.host.nextTask⟩)).2.fault = _ at hf
  unfold install at hf
  dsimp only at hf
  split at hf
  · exact hf
  · next fault hi =>
    refine (Tame.halt (k := (k.createTask name none).2) fun q hd => ?_).fault hf
    subst hd
    unfold PidMap.install at hi
    split at hi
    · cases hi
    · split at hi
      · cases hi
      · split at hi
        · cases hi
        · split at hi <;> cases hi

/-! ### The first fault counts -/

theorem fault_halt_of_some {fault first : Fault} (hf : k.fault = some first) :
    (k.halt fault).fault = some first := by
  unfold halt
  rw [hf]
  rfl

theorem fault_release_of_some {b : BlockId} {first : Fault} (hf : k.fault = some first) :
    (k.release b).2.fault = some first := by
  rw [release_eq]
  split
  · simp only [destroy, fault_discardTaskOf]
    unfold freePid
    split
    · exact hf
    · exact fault_halt_of_some hf
  · exact hf

theorem fault_wake_of_some {b : BlockId} {first : Fault} (hf : k.fault = some first) :
    (k.wake b).2.fault = some first := by
  unfold wake
  split
  · exact fault_release_of_some hf
  · have hcollected : (k.update b Block.collected).fault = some first := hf
    rw [collect_eq]
    dsimp only
    exact fault_release_of_some (fault_release_of_some hcollected)

/-! ### Blocks -/

/-- Tables with the same blocks over the same host. -/
structure Alongside (k k' : Kernel) : Prop where
  blocks : k'.blocks = k.blocks
  host : k'.host = k.host
  calls : k'.calls = k.calls

theorem Alongside.block (h : k.Alongside k') (b : BlockId) : k'.block b = k.block b :=
  congrArg (BlockStore.get · b) h.blocks

theorem alongside_reserve (k : Kernel) : k.Alongside k.reserve.2 := by
  unfold reserve
  split
  · exact ⟨rfl, rfl, rfl⟩
  · split <;> exact ⟨rfl, rfl, rfl⟩

theorem alongside_unreserve (k : Kernel) (p : Pid) : k.Alongside (k.unreserve p) := by
  unfold unreserve
  split <;> exact ⟨rfl, rfl, rfl⟩

theorem alongside_freePid (k : Kernel) (b : BlockId) : k.Alongside (k.freePid b) := by
  unfold freePid
  split <;> exact ⟨rfl, rfl, rfl⟩

theorem calls_install (k : Kernel) (block : Block) : (k.install block).2.calls = k.calls := by
  unfold install
  dsimp only
  split <;> rfl

theorem blocks_make (k : Kernel) (p : Pid) (name : String) :
    (k.make p name none).2.blocks = k.blocks.add (.fresh p name ⟨k.host.nextTask⟩) :=
  (install_frame (k.createTask name none).2 (.fresh p name ⟨k.host.nextTask⟩)).2.1

/-! ### Counts of references -/

theorem refCount_forgone (k : Kernel) (b c : BlockId) :
    ((k.update b .released).block c).refCount = (k.block c).refCount - if c = b then 1 else 0 := by
  rcases Nat.lt_or_ge b k.blocks.size with hb | hb
  · exact refCount_released hb c
  · rw [block_update]
    split
    · next hc => exact absurd hc.2 (Nat.not_lt.2 hb)
    · split
      · next hc =>
        rw [hc, block_of_size_le hb]
        rfl
      · rfl

@[simp] theorem refCount_destroy (k : Kernel) (b c : BlockId) :
    ((k.destroy b).block c).refCount = (k.block c).refCount := by
  unfold destroy
  dsimp only
  rw [refCount_discardTaskOf]
  exact congrArg Block.refCount ((alongside_freePid k b).block c)

/-- Giving a reference back takes one from the count of its block, if there is one. -/
theorem refCount_release (k : Kernel) (b c : BlockId) :
    ((k.release b).2.block c).refCount = (k.block c).refCount - if c = b then 1 else 0 := by
  rw [release_eq]
  split
  · rw [refCount_destroy, refCount_forgone]
  · exact refCount_forgone k b c

/-- A reference given back was the last if the count was one. -/
theorem release_last (k : Kernel) (b : BlockId) :
    (k.release b).1 = decide ((k.block b).refCount = 1) := by
  rw [release_eq]
  split
  · next hn => simp [hn]
  · next hn => simp [hn]

theorem forgo_last (k : Kernel) (b : BlockId) :
    (k.blocks.release b).1 = decide ((k.block b).refCount = 1) :=
  beq_eq_decide _ _

theorem refCount_dropBlock (k : Kernel) (b c : BlockId) :
    ((k.dropBlock b).block c).refCount = (k.block c).refCount := by
  unfold dropBlock
  split
  · rw [refCount_discardTaskOf]
    exact congrArg Block.refCount (block_eq_of_table (table_detachThread ..) c)
  · exact refCount_discardTaskOf k b c

theorem refCount_shutdown (k : Kernel) (c : BlockId) :
    (k.shutdown.2.block c).refCount = (k.block c).refCount := by
  have hfold : ∀ (bs : List BlockId) (k : Kernel),
      ((bs.foldl dropBlock k).block c).refCount = (k.block c).refCount := by
    intro bs
    induction bs with
    | nil => exact fun _ => rfl
    | cons b bs ih => exact fun k => (ih _).trans (refCount_dropBlock k b c)
  unfold shutdown
  split
  · rfl
  · exact hfold _ _

/-! ### Tasks -/

@[simp] theorem task_destroy (k : Kernel) (b c : BlockId) :
    ((k.destroy b).block c).task = (k.block c).task := by
  unfold destroy
  dsimp only
  rw [task_discardTaskOf]
  exact congrArg Block.task ((alongside_freePid k b).block c)

theorem task_release (k : Kernel) (b c : BlockId) :
    ((k.release b).2.block c).task = (k.block c).task := by
  rw [release_eq]
  split
  · rw [task_destroy]
    exact view_update Block.task rfl c
  · exact view_update Block.task rfl c

theorem task_dropBlock (k : Kernel) (b c : BlockId) :
    ((k.dropBlock b).block c).task = (k.block c).task := by
  unfold dropBlock
  split
  · rw [task_discardTaskOf]
    exact congrArg Block.task (block_eq_of_table (table_detachThread ..) c)
  · exact task_discardTaskOf k b c

theorem task_shutdown (k : Kernel) (c : BlockId) :
    (k.shutdown.2.block c).task = (k.block c).task := by
  have hfold : ∀ (bs : List BlockId) (k : Kernel),
      ((bs.foldl dropBlock k).block c).task = (k.block c).task := by
    intro bs
    induction bs with
    | nil => exact fun _ => rfl
    | cons b bs ih => exact fun k => (ih _).trans (task_dropBlock k b c)
  unfold shutdown
  split
  · rfl
  · exact hfold _ _

/-! ### One change -/

namespace Change

variable (hd : k.Change busy r ds k' r')
include hd

/-- Blocks are at their pids until the table is shut down. -/
theorem standing (h : k.Standing r) : k'.Standing r' := by
  cases hd with
  | tame ht => exact h.imp (·.tame ht) (·.tame ht)
  | called hb hc => exact h.imp (·.of_table hc.table) (·.of_table hc.table)
  | refused => exact h.imp (·.of_table rfl) (·.of_table rfl)
  | reserved got =>
    rcases h with h | h
    · exact Or.inl (h.reserve got)
    · rw [reserve, h.live] at got
      cases got
  | unreserved =>
    refine h.imp (·.unreserve.1) fun h => ?_
    rw [h.unreserve]
    exact h
  | made => exact h.imp (Seated.make · _ |>.1) (Down.make · _ _)
  | shut hb =>
    rcases h with h | h
    · exact Or.inr h.shutdown.1
    · rw [shutdown_of_dead h.live]
      exact Or.inr h
  | released => exact h.imp (Seated.release · _ |>.1) (Down.release · _ |>.1)
  | forgone => exact h.imp (Seated.forgo · _) fun h => ⟨h.live, h.valid, h.free⟩

/-- No teardown frees a pid at which another block is installed. -/
theorem fault (h : k.Standing r) {p : Pid} (hf : k'.fault = some (.differentBlock p)) :
    k.fault = some (.differentBlock p) := by
  cases hd with
  | tame ht => exact ht.fault hf
  | called hb hc => exact (congrArg Table.fault hc.table).symm.trans hf
  | refused => exact hf
  | reserved got =>
    rcases h with h | h
    · rcases reserve_spec h.live h.valid with ⟨-, he⟩ | ⟨-, q, m, he, -⟩
      · cases he.symm.trans got
      · cases he.symm.trans got
        exact hf
    · rw [reserve, h.live] at got
      cases got
  | unreserved =>
    rcases h with h | h
    · exact h.unreserve.2 ▸ hf
    · exact h.unreserve _ ▸ hf
  | made => exact fault_make hf
  | shut hb =>
    rcases h with h | h
    · exact h.shutdown.2 ▸ hf
    · rw [shutdown_of_dead h.live] at hf
      exact hf
  | released =>
    rcases h with h | h
    · exact (h.release _).2 ▸ hf
    · exact (h.release _).2 ▸ hf
  | forgone => exact hf

theorem size_le : k.blocks.size ≤ k'.blocks.size := by
  suffices k.blocks.size = k'.blocks.size ∨ k.blocks.size + 1 ≤ k'.blocks.size by omega
  cases hd with
  | tame ht => exact Or.inl ht.size.symm
  | called hb hc => exact Or.inl (size_eq_of_table hc.table).symm
  | refused => exact Or.inl rfl
  | reserved got =>
    have hs := (quiet_reserve k).size
    rw [got] at hs
    exact Or.inl hs.symm
  | unreserved => exact Or.inl (quiet_unreserve k _).size.symm
  | made => exact Or.inr (Nat.le_of_eq (size_of_add (blocks_make ..)).symm)
  | shut hb => exact Or.inl (size_shutdown k).symm
  | released => exact Or.inl (quiet_release k _).size.symm
  | forgone => exact Or.inl (size_update ..).symm

/-- A block has its task and its pid for good. -/
theorem own {b : BlockId} (hb : b < k.blocks.size) :
    (k'.block b).task = (k.block b).task ∧ (k'.block b).pid = (k.block b).pid := by
  cases hd with
  | tame ht => exact ⟨ht.task b, ht.pid b⟩
  | called hb hc => rw [block_eq_of_table hc.table]; exact ⟨rfl, rfl⟩
  | refused => exact ⟨rfl, rfl⟩
  | reserved got =>
    have hsame := alongside_reserve k
    rw [got] at hsame
    rw [hsame.block]
    exact ⟨rfl, rfl⟩
  | unreserved => rw [(alongside_unreserve ..).block]; exact ⟨rfl, rfl⟩
  | made => rw [block_of_add_of_lt (blocks_make ..) hb]; exact ⟨rfl, rfl⟩
  | shut hb => exact ⟨task_shutdown k b, (quiet_shutdown k).pid b⟩
  | released => exact ⟨task_release k _ b, (quiet_release k _).pid b⟩
  | forgone => exact ⟨view_update Block.task rfl b, view_update Block.pid rfl b⟩

theorem task {b : BlockId} (hb : b < k.blocks.size) : (k'.block b).task = (k.block b).task :=
  (hd.own hb).1

theorem pid {b : BlockId} (hb : b < k.blocks.size) : (k'.block b).pid = (k.block b).pid :=
  (hd.own hb).2

/-- A count changes with a reference given back, or stays zero or positive. -/
theorem refCount {b : BlockId} (hb : b < k.blocks.size) :
    (∃ c, ds = [⟨c, decide ((k.block c).refCount = 1)⟩] ∧
      (k'.block b).refCount = (k.block b).refCount - if b = c then 1 else 0) ∨
    ds = [] ∧ ((k'.block b).refCount = 0 ↔ (k.block b).refCount = 0) := by
  cases hd with
  | tame ht => exact Or.inr ⟨rfl, ht.vacant b⟩
  | called hb hc => exact Or.inr ⟨rfl, by rw [block_eq_of_table hc.table]⟩
  | refused => exact Or.inr ⟨rfl, .rfl⟩
  | reserved got =>
    have hsame := alongside_reserve k
    rw [got] at hsame
    exact Or.inr ⟨rfl, by rw [hsame.block]⟩
  | unreserved => exact Or.inr ⟨rfl, by rw [(alongside_unreserve ..).block]⟩
  | made => exact Or.inr ⟨rfl, by rw [block_of_add_of_lt (blocks_make ..) hb]⟩
  | shut hb => exact Or.inr ⟨rfl, by rw [refCount_shutdown]⟩
  | released => exact Or.inl ⟨_, by rw [release_last], refCount_release k _ b⟩
  | forgone => exact Or.inl ⟨_, by rw [forgo_last], refCount_forgone k _ b⟩

/-- A block without references gets none, and no reference on it is the last. -/
theorem dead {b : BlockId} (hb : b < k.blocks.size) (hz : (k.block b).refCount = 0) :
    (k'.block b).refCount = 0 ∧ ⟨b, true⟩ ∉ ds := by
  rcases hd.refCount hb with ⟨c, rfl, hcount⟩ | ⟨rfl, hcount⟩
  · rw [hz, Nat.zero_sub] at hcount
    refine ⟨hcount, fun hm => ?_⟩
    obtain ⟨rfl, hlast⟩ := Release.mk.inj (List.mem_singleton.1 hm)
    rw [hz] at hlast
    cases hlast
  · exact ⟨hcount.2 hz, List.not_mem_nil⟩

/-- The references of a block come to an end with the one that is given back as the last. -/
theorem dies {b : BlockId} (hb : b < k.blocks.size) (hz : (k.block b).refCount ≠ 0) :
    (⟨b, true⟩ ∈ ds ↔ (k'.block b).refCount = 0) ∧ ds.count ⟨b, true⟩ ≤ 1 := by
  rcases hd.refCount hb with ⟨c, rfl, hcount⟩ | ⟨rfl, hcount⟩
  · refine ⟨?_, List.count_le_length⟩
    rw [hcount, List.mem_singleton, Release.mk.injEq, eq_comm (a := true), decide_eq_true_iff]
    by_cases hbc : b = c
    · subst hbc
      rw [if_pos rfl]
      simp only [true_and]
      omega
    · rw [if_neg hbc]
      simp only [hbc, false_and, false_iff]
      omega
  · exact ⟨by simp [hcount, hz], Nat.zero_le _⟩

theorem last_lt {b : BlockId} (hm : ⟨b, true⟩ ∈ ds) : b < k.blocks.size := by
  have hone : (k.block b).refCount = 1 := by
    cases hd with
    | released =>
      obtain ⟨rfl, hlast⟩ := Release.mk.inj (List.mem_singleton.1 hm)
      rw [release_last] at hlast
      exact of_decide_eq_true hlast.symm
    | forgone =>
      obtain ⟨rfl, hlast⟩ := Release.mk.inj (List.mem_singleton.1 hm)
      rw [forgo_last] at hlast
      exact of_decide_eq_true hlast.symm
    | _ => cases hm
  exact lt_of_refCount_ne_zero (hone ▸ Nat.one_ne_zero)

end Change

/-! ### Tasks are destroyed once -/

/-- No task was destroyed twice, and each that was belongs to a block that has given it up. -/
structure Disposed (k : Kernel) : Prop where
  hosted : k.Hosted
  once : ∀ t, k.calls.count (.destroyTask t) ≤ 1
  given : ∀ t, .destroyTask t ∈ k.calls →
    ∃ b < k.blocks.size, (k.block b).task = t ∧ (k.block b).taskReleased = true

namespace Disposed

/-- Calls that destroy no task, and what leaves blocks their tasks or adds blocks, do not
matter. -/
theorem of_hosted (h : k.Disposed) (hosted : k'.Hosted)
    (hb : ∀ b < k.blocks.size, b < k'.blocks.size ∧ (k'.block b).task = (k.block b).task ∧
      (k'.block b).taskReleased = (k.block b).taskReleased)
    (hc : ∃ new, k'.calls = new ++ k.calls ∧ ∀ t, HostCall.destroyTask t ∉ new) :
    k'.Disposed := by
  obtain ⟨new, hcalls, hnew⟩ := hc
  refine ⟨hosted, fun t => ?_, fun t hm => ?_⟩
  · rw [hcalls, List.count_append, List.count_eq_zero.2 (hnew t), Nat.zero_add]
    exact h.once t
  · rw [hcalls] at hm
    obtain ⟨b, hlt, hbt, hbr⟩ := h.given t ((List.mem_append.1 hm).resolve_left (hnew t))
    obtain ⟨hlt', ht, hr⟩ := hb b hlt
    exact ⟨b, hlt', ht.trans hbt, hr.trans hbr⟩

variable (h : k.Disposed)
include h

theorem tame (ht : k.Tame k') : k'.Disposed :=
  h.of_hosted (h.hosted.congr ht.size ht.task ht.taskReleased (by rw [ht.host]) (by simp [ht.host]))
    (fun b hb => ⟨ht.size.symm ▸ hb, ht.task b, ht.taskReleased b⟩)
    ⟨[], ht.calls, fun _ => List.not_mem_nil⟩

theorem called (hc : k.Calls k') : k'.Disposed := by
  have hb := block_eq_of_table hc.table
  have hs := size_eq_of_table hc.table
  obtain ⟨call, hcalls, hnone⟩ := hc.calls
  refine h.of_hosted (h.hosted.congr hs (fun b => congrArg Block.task (hb b))
    (fun b => congrArg Block.taskReleased (hb b)) hc.nextTask hc.tasks)
    (fun b hlt => ?_) ⟨[call], hcalls, fun t hm => hnone t (List.mem_singleton.1 hm).symm⟩
  rw [hs, hb]
  exact ⟨hlt, rfl, rfl⟩

/-- A block gives its task up, unless it has before. -/
theorem discardTaskOf {b : BlockId} (hb : b < k.blocks.size) : (k.discardTaskOf b).Disposed := by
  have hsize : (k.discardTaskOf b).blocks.size = k.blocks.size := (quiet_discardTaskOf k b).size
  have hgiven : ∀ t, (t = (k.block b).task ∨ .destroyTask t ∈ k.calls) →
      ∃ c < (k.discardTaskOf b).blocks.size, ((k.discardTaskOf b).block c).task = t ∧
        ((k.discardTaskOf b).block c).taskReleased = true := by
    simp only [hsize, task_discardTaskOf, taskReleased_discardTaskOf hb, Bool.or_eq_true,
      decide_eq_true_iff]
    rintro t (rfl | hm)
    · exact ⟨b, hb, rfl, Or.inl rfl⟩
    · obtain ⟨c, hc, hct, hcr⟩ := h.given t hm
      exact ⟨c, hc, hct, Or.inr hcr⟩
  have hosted := h.hosted.discardTaskOf hb
  by_cases hr : (k.block b).taskReleased = true
  · have hsame : k.discardTaskOf b = k := by rw [discardTaskOf_eq, if_pos hr]
    rw [hsame]
    exact h
  · have hcalls : (k.discardTaskOf b).calls =
        .destroyTask (k.block b).task :: .destroyFdTable (k.block b).task :: k.calls := by
      rw [discardTaskOf_eq, if_neg hr]
      rfl
    have hnew : .destroyTask (k.block b).task ∉ k.calls := by
      intro hm
      obtain ⟨c, hc, hct, hcr⟩ := h.given _ hm
      exact hr (h.hosted.distinct c hc b hb hct ▸ hcr)
    refine ⟨hosted, fun t => ?_, fun t hm => hgiven t ?_⟩
    · rw [hcalls, List.count_cons, List.count_cons_of_ne (by simp)]
      by_cases ht : t = (k.block b).task
      · rw [ht, List.count_eq_zero.2 hnew]
        split <;> omega
      · rw [if_neg (by simpa using Ne.symm ht)]
        exact h.once t
    · simpa [hcalls] using hm

theorem dropBlock {b : BlockId} (hb : b < k.blocks.size) : (k.dropBlock b).Disposed := by
  unfold Kernel.dropBlock
  split
  · exact (h.called (calls_detachThread k (k.block b).task)).discardTaskOf hb
  · exact h.discardTaskOf hb

theorem alongside (ha : k.Alongside k') : k'.Disposed := by
  have hsize : k'.blocks.size = k.blocks.size := by rw [ha.blocks]
  refine h.of_hosted (h.hosted.congr hsize ?_ ?_ (by rw [ha.host]) (by simp [ha.host]))
    (fun b hb => ⟨hsize.symm ▸ hb, by rw [ha.block], by rw [ha.block]⟩)
    ⟨[], ha.calls, fun _ => List.not_mem_nil⟩
  · simp [ha.block]
  · simp [ha.block]

theorem destroy {b : BlockId} (hb : b < k.blocks.size) : (k.destroy b).Disposed := by
  have hfree := alongside_freePid k b
  have hunlinked : ∀ family : Family, k.Alongside { k.freePid b with family := family } :=
    fun family => ⟨hfree.blocks, hfree.host, hfree.calls⟩
  exact (h.alongside (hunlinked _)).discardTaskOf (hfree.blocks.symm ▸ hb)

theorem forgo (b : BlockId) : (k.update b .released).Disposed :=
  h.of_hosted
    (h.hosted.congr (size_update ..) (view_update Block.task rfl)
      (view_update Block.taskReleased rfl) rfl fun _ => rfl)
    (fun c hc => ⟨by rwa [size_update], view_update Block.task rfl c,
      view_update Block.taskReleased rfl c⟩) ⟨[], rfl, fun _ => List.not_mem_nil⟩

theorem release (b : BlockId) : (k.release b).2.Disposed := by
  rw [release_eq]
  split
  · next hn =>
    refine (h.forgo b).destroy ?_
    rw [size_update]
    exact lt_of_refCount_ne_zero (hn ▸ Nat.one_ne_zero)
  · exact h.forgo b

/-- A new block has a new task. -/
theorem make (p : Pid) (name : String) : (k.make p name none).2.Disposed := by
  have hhost : (k.make p name none).2.host = (k.host.createTask name).2 :=
    host_install (k.createTask name none).2 (.fresh p name ⟨k.host.nextTask⟩)
  have hadd := blocks_make k p name
  refine h.of_hosted (h.hosted.add hadd rfl rfl ?_ ?_) (fun b hb => ?_)
    ⟨[.createTask name ⟨k.host.nextTask⟩], calls_install .., by simp⟩
  · rw [hhost]
    rfl
  · intro t
    rw [hhost, contains_createTask]
  · rw [block_of_add_of_lt hadd hb, size_of_add hadd]
    exact ⟨Nat.lt_succ_of_lt hb, rfl, rfl⟩

theorem shutdown (hs : k.Standing r) : k.shutdown.2.Disposed := by
  rcases hs with hs | hs
  · have hfold : ∀ (bs : List BlockId) (k : Kernel), k.Disposed →
        (∀ b ∈ bs, b < k.blocks.size) → (bs.foldl Kernel.dropBlock k).Disposed := by
      intro bs
      induction bs with
      | nil => exact fun _ h _ => h
      | cons b bs ih =>
        intro k h hb
        refine ih _ (h.dropBlock (hb b List.mem_cons_self)) fun c hc => ?_
        rw [(quiet_dropBlock k b).size]
        exact hb c (List.mem_cons_of_mem _ hc)
    have hopen : { k with live := false, pids := k.pids.drain.2 }.Disposed :=
      h.alongside ⟨rfl, rfl, rfl⟩
    have hclosed := hfold k.pids.drain.1 _ hopen fun b hb => by
      rw [hs.valid.drain_spec.1, hs.valid.mem_occupants] at hb
      obtain ⟨p, hp⟩ := hb
      exact (hs.own hp).1
    have hk : k.shutdown.2 = { k.pids.drain.1.foldl Kernel.dropBlock
        { k with live := false, pids := k.pids.drain.2 } with family := {} } := by
      unfold Kernel.shutdown
      rw [hs.live]
      rfl
    rw [hk]
    exact hclosed.tame (.with_family _ _)
  · rw [shutdown_of_dead hs.live]
    exact h

end Disposed

theorem Change.disposed (hd : k.Change busy r ds k' r') (hs : k.Standing r) (h : k.Disposed) :
    k'.Disposed := by
  cases hd with
  | tame ht => exact h.tame ht
  | called hb hc => exact h.called hc
  | refused => exact h.called (calls_refuseTask ..)
  | reserved got =>
    have hsame := alongside_reserve k
    rw [got] at hsame
    exact h.alongside hsame
  | unreserved => exact h.alongside (alongside_unreserve ..)
  | made => exact h.make _ _
  | shut hb => exact h.shutdown hs
  | released => exact h.release _
  | forgone => exact h.forgo _

/-! ### A new table -/

/-- A table comes up with a task and a thread for the kernel. -/
theorem calls_boot {config : Config} {refusal : Option Errno}
    (hb : Kernel.boot config refusal = .ok k) :
    k.calls = [.attach ⟨1⟩ kernelPid, .createTask config.kernelName ⟨1⟩] := by
  unfold boot at hb
  split at hb
  · cases hb
  · have hres := alongside_reserve
      { config := config, pids := .ofCapacity config.maxProcesses.toNat }
    dsimp only at hb
    generalize Kernel.reserve _ = out at hb hres
    obtain ⟨result, k₁⟩ := out
    cases result with
    | error error => cases hb
    | ok pid =>
      cases refusal with
      | some errno => split at hb <;> cases hb
      | none =>
        have hkept : ∀ k₂ : Kernel,
            k₂ = (if pid = kernelPid then k₁ else k₁.halt .kernelElsewhere) →
              k₂.host = {} ∧ k₂.calls = [] := by
          rintro k₂ rfl
          split <;> exact ⟨hres.host, hres.calls⟩
        dsimp only at hb
        generalize (if pid = kernelPid then k₁ else k₁.halt .kernelElsewhere) = k₂ at hb hkept
        obtain ⟨hhost, hcalls⟩ := hkept k₂ rfl
        have hinstall := calls_install (k₂.createTask config.kernelName none).2
          (.kernel config.kernelName ⟨k₂.host.nextTask⟩)
        cases hb
        refine (congrArg (HostCall.attach ⟨k₂.host.nextTask⟩ kernelPid :: ·) hinstall).trans ?_
        change [HostCall.attach ⟨k₂.host.nextTask⟩ kernelPid,
          .createTask config.kernelName ⟨k₂.host.nextTask⟩] ++ k₂.calls = _
        rw [hhost, hcalls]
        rfl

theorem Intact.seated (h : k.Intact r) : k.Seated r := ⟨h.placed, h.installed⟩

theorem disposed_boot {config : Config} {refusal : Option Errno}
    (hb : Kernel.boot config refusal = .ok k) : k.Disposed := by
  refine ⟨(intact_boot hb).hosted, fun t => ?_, fun t hm => ?_⟩
  · rw [calls_boot hb]
    simp
  · rw [calls_boot hb] at hm
    simp at hm

/-! ### Chains of changes -/

namespace Does

variable (hd : k.Does busy r ds k' r')
include hd

theorem standing (h : k.Standing r) : k'.Standing r' := by
  induction hd with
  | done => exact h
  | next change _ ih => exact ih (change.standing h)

/-- No teardown frees a pid at which another block is installed. -/
theorem fault (h : k.Standing r) {p : Pid} (hf : k'.fault = some (.differentBlock p)) :
    k.fault = some (.differentBlock p) := by
  induction hd with
  | done => exact hf
  | next change _ ih => exact change.fault h (ih (change.standing h) hf)

theorem disposed (hs : k.Standing r) (h : k.Disposed) : k'.Disposed := by
  induction hd with
  | done => exact h
  | next change _ ih => exact ih (change.standing hs) (change.disposed hs h)

theorem size_le : k.blocks.size ≤ k'.blocks.size := by
  induction hd with
  | done => exact Nat.le_refl _
  | next change _ ih => exact Nat.le_trans change.size_le ih

theorem task {b : BlockId} (hb : b < k.blocks.size) : (k'.block b).task = (k.block b).task := by
  induction hd with
  | done => rfl
  | next change _ ih =>
    exact (ih (Nat.lt_of_lt_of_le hb change.size_le)).trans (change.task hb)

theorem pid {b : BlockId} (hb : b < k.blocks.size) : (k'.block b).pid = (k.block b).pid := by
  induction hd with
  | done => rfl
  | next change _ ih =>
    exact (ih (Nat.lt_of_lt_of_le hb change.size_le)).trans (change.pid hb)

/-- A block without references never has any again, and no reference on it is the last. -/
theorem dead {b : BlockId} (hb : b < k.blocks.size) (hz : (k.block b).refCount = 0) :
    (k'.block b).refCount = 0 ∧ ⟨b, true⟩ ∉ ds := by
  induction hd with
  | done => exact ⟨hz, List.not_mem_nil⟩
  | next change _ ih =>
    obtain ⟨hz₁, hnot⟩ := change.dead hb hz
    obtain ⟨hz', hnot'⟩ := ih (Nat.lt_of_lt_of_le hb change.size_le) hz₁
    exact ⟨hz', fun hm => (List.mem_append.1 hm).elim hnot hnot'⟩

/-- The references of a block come to an end with the one that is given back as the last. -/
theorem dies {b : BlockId} (hb : b < k.blocks.size) (hz : (k.block b).refCount ≠ 0) :
    ⟨b, true⟩ ∈ ds ↔ (k'.block b).refCount = 0 := by
  induction hd with
  | done => exact ⟨fun hm => absurd hm List.not_mem_nil, fun hz' => absurd hz' hz⟩
  | @next k k₁ k' _ _ _ ds ds' change rest ih =>
    have hb₁ := Nat.lt_of_lt_of_le hb change.size_le
    rw [List.mem_append, (change.dies hb hz).1]
    by_cases hz₁ : (k₁.block b).refCount = 0
    · have hz' := (rest.dead hb₁ hz₁).1
      exact ⟨fun _ => hz', fun _ => Or.inl hz₁⟩
    · rw [ih hb₁ hz₁]
      exact ⟨fun hm => hm.resolve_left hz₁, Or.inr⟩

/-- At most one reference on a block is the last. -/
theorem once (b : BlockId) : ds.count ⟨b, true⟩ ≤ 1 := by
  induction hd with
  | done => exact Nat.zero_le _
  | @next k k₁ k' _ _ _ ds ds' change rest ih =>
    rw [List.count_append]
    by_cases hm : ⟨b, true⟩ ∈ ds
    · have hb := change.last_lt hm
      have hz : (k.block b).refCount ≠ 0 := fun hz => (change.dead hb hz).2 hm
      obtain ⟨hiff, hone⟩ := change.dies hb hz
      have hnot := (rest.dead (Nat.lt_of_lt_of_le hb change.size_le) (hiff.1 hm)).2
      rw [List.count_eq_zero.2 hnot]
      exact hone
    · rw [List.count_eq_zero.2 hm, Nat.zero_add]
      exact ih

end Does

end Lifecycle.Kernel
