import Lifecycle.Proofs.Kernel.Sane

/-! What a table shows of each of its blocks: the block, the parent it is linked under and what
the host records of its task. The operations change the entry of one block at a time, and in a
table that is intact the entries tell who is found by a pid, who is linked and what tasks there
are. -/

namespace Lifecycle

/-- A block without references has no link and no task any more. -/
structure TableEntry where
  block : Block
  /-- The parent that it is linked under. -/
  link : Option Pid
  record : Option TaskRecord

namespace TableEntry

def update (e : TableEntry) (f : Block → Block) : TableEntry := { e with block := f e.block }

/-- With one thread attached less. -/
def detached (e : TableEntry) : TableEntry :=
  { e with record := e.record.map fun record => { record with threads := record.threads - 1 } }

/-- With one reference less; link and task go with the last. -/
def released (e : TableEntry) : TableEntry :=
  if e.block.refCount = 1 then ⟨e.block.released.untasked, none, none⟩ else e.update .released

/-- Linked under a parent. -/
def under (parent : Pid) (e : TableEntry) : TableEntry :=
  ⟨e.block.adopt parent, some parent, e.record⟩

/-- Out of the list of its parent. -/
def adrift (e : TableEntry) : TableEntry := { e with link := none }

/-- Out of the list of a parent that gives up its children. -/
def unlinked (parent : Pid) (e : TableEntry) : TableEntry :=
  if e.link = some parent then e.adrift else e

variable {e : TableEntry} {p : Pid}

@[simp] theorem block_update (e : TableEntry) (f : Block → Block) :
    (e.update f).block = f e.block := rfl

@[simp] theorem block_adrift (e : TableEntry) : e.adrift.block = e.block := rfl

@[simp] theorem block_detached (e : TableEntry) : e.detached.block = e.block := rfl

theorem unlinked_of_link (hl : e.link = some p) : e.unlinked p = e.adrift := if_pos hl

theorem unlinked_of_ne (hl : e.link ≠ some p) : e.unlinked p = e := if_neg hl

theorem released_of_ne (hn : e.block.refCount ≠ 1) : e.released = e.update .released := if_neg hn

end TableEntry

namespace Kernel

variable {k k' : Kernel} {r : List Pid} {b x : BlockId}

def entry (k : Kernel) (b : BlockId) : TableEntry :=
  if (k.block b).refCount = 0 then ⟨k.block b, none, none⟩
  else ⟨k.block b, k.family.parentLink? (k.block b).pid, k.host.task? (k.block b).task⟩

@[simp] theorem block_entry (k : Kernel) (b : BlockId) : (k.entry b).block = k.block b := by
  unfold entry
  split <;> rfl

theorem entry_of_vacant (hz : (k.block b).refCount = 0) : k.entry b = ⟨k.block b, none, none⟩ :=
  if_pos hz

theorem entry_of_counted (hz : (k.block b).refCount ≠ 0) : k.entry b =
    ⟨k.block b, k.family.parentLink? (k.block b).pid, k.host.task? (k.block b).task⟩ :=
  if_neg hz

theorem link_entry {p : Pid} : (k.entry b).link = some p ↔
    (k.block b).refCount ≠ 0 ∧ k.family.parentLink? (k.block b).pid = some p := by
  unfold entry
  split
  · next hz => simp [hz]
  · next hz => simp [hz]

/-- Only blocks that have references are looked at any closer. -/
theorem entry_congr (hb : k'.block b = k.block b)
    (hl : (k.block b).refCount ≠ 0 →
      k'.family.parentLink? (k.block b).pid = k.family.parentLink? (k.block b).pid)
    (ht : (k.block b).refCount ≠ 0 →
      k'.host.task? (k.block b).task = k.host.task? (k.block b).task) :
    k'.entry b = k.entry b := by
  by_cases hz : (k.block b).refCount = 0
  · rw [entry_of_vacant hz, entry_of_vacant (hb ▸ hz), hb]
  · rw [entry_of_counted hz, entry_of_counted (hb ▸ hz), hb, hl hz, ht hz]

/-! ### What the entries tell -/

namespace Intact

variable (h : k.Intact r)
include h

/-- Whom a pid leads to. -/
theorem lookup_iff {p : Pid} :
    k.pids.lookup p = some b ↔ (k.block b).pid = p ∧ (k.block b).refCount ≠ 0 := by
  constructor
  · intro hb
    exact ⟨(h.own hb).2, h.counted hb⟩
  · rintro ⟨rfl, hz⟩
    exact h.installed b hz

/-- Blocks that have references differ in their pids. -/
theorem eq_of_pid (hb : (k.block b).refCount ≠ 0) (hx : (k.block x).refCount ≠ 0)
    (he : (k.block b).pid = (k.block x).pid) : b = x := by
  have hfound := h.installed b hb
  rw [he, h.installed x hx] at hfound
  exact (Option.some.inj hfound).symm

theorem eq_of_task (hb : (k.block b).refCount ≠ 0) (hx : (k.block x).refCount ≠ 0)
    (he : (k.block b).task = (k.block x).task) : b = x :=
  h.hosted.distinct b (h.lt_of_refCount hb) x (h.lt_of_refCount hx) he

theorem parentLink?_iff {c p : Pid} : k.family.parentLink? c = some p ↔
    ∃ b, (k.block b).pid = c ∧ (k.entry b).link = some p := by
  simp only [link_entry]
  constructor
  · intro hl
    obtain ⟨b, hb⟩ := h.child hl
    obtain ⟨rfl, hz⟩ := h.lookup_iff.1 hb
    exact ⟨b, rfl, hz, hl⟩
  · rintro ⟨b, rfl, -, hl⟩
    exact hl

/-- The children of a process, as blocks. -/
theorem mem_childBlocks {p : Pid} : b ∈ k.childBlocks p ↔ (k.entry b).link = some p := by
  simp only [childBlocks, List.mem_filterMap, ← h.family.mirror, h.lookup_iff, link_entry]
  constructor
  · rintro ⟨c, hl, rfl, hz⟩
    exact ⟨hz, hl⟩
  · rintro ⟨hz, hl⟩
    exact ⟨_, hl, rfl, hz⟩

theorem nodup_childBlocks (p : Pid) : (k.childBlocks p).Nodup := by
  refine (h.family.nodup p).filterMap ?_
  intro c d b hc hd
  rw [← (h.own hc).2, (h.own hd).2]

end Intact

/-! ### Single changes -/

/-- A block changes in a way that leaves its pid, its task and whether it has references. -/
theorem entry_update {f : Block → Block} (hp : (f (k.block b)).pid = (k.block b).pid)
    (ht : (f (k.block b)).task = (k.block b).task)
    (hz : (f (k.block b)).refCount = 0 ↔ (k.block b).refCount = 0)
    (hlt : b < k.blocks.size) (x : BlockId) :
    (k.update b f).entry x = if x = b then (k.entry x).update f else k.entry x := by
  split
  · next hx =>
    subst hx
    have hself : (k.update x f).block x = f (k.block x) := block_update_self hlt f
    by_cases hv : (k.block x).refCount = 0
    · rw [entry_of_vacant hv, entry_of_vacant (by rwa [hself, hz]), hself]
      rfl
    · rw [entry_of_counted hv, entry_of_counted (by rwa [hself, ne_eq, hz]), hself, hp, ht]
      rfl
  · next hx => exact entry_congr (block_update_of_ne hx f) (fun _ => rfl) fun _ => rfl

/-- A block that is torn down gives up its task. -/
theorem block_destroy_self (hlt : b < k.blocks.size) (hr : (k.block b).taskReleased = false) :
    (k.destroy b).block b = (k.block b).untasked := by
  obtain ⟨k₁, hk, hblocks, -⟩ := destroy_eq_discardTaskOf k b
  have hsame : k₁.block b = k.block b := congrArg (BlockStore.get · b) hblocks
  rw [hk, discardTaskOf_eq, hsame, hr, if_neg Bool.false_ne_true, ← hsame]
  exact block_update_self (hblocks ▸ hlt) _

/-- Giving a reference back changes the block alone, unless it was the last and leaves children
without their link. -/
theorem Intact.entry_release (h : k.Intact r) (hb : (k.block b).refCount = 1 →
      ∀ x, (k.entry x).link ≠ some (k.block b).pid) (x : BlockId) :
    (k.release b).2.entry x = if x = b then (k.entry x).released else k.entry x := by
  have hupdate := view_update (k := k) (b := b) (f := .released) (g := Block.pid) rfl
  rw [release_eq]
  split
  · next hn =>
    have hlt := h.lt_of_refCount (b := b) (by omega)
    have hself : (k.update b .released).block b = (k.block b).released := block_update_self hlt _
    have hlast : ((k.update b .released).destroy b).block b = (k.block b).released.untasked := by
      rw [block_destroy_self (by rwa [size_update]), hself]
      rw [hself]
      exact Bool.eq_false_iff.2 fun hr => absurd ((h.released b hlt).1 hr) (by omega)
    split
    · next hx =>
      subst hx
      rw [entry_of_vacant, hlast, TableEntry.released, block_entry, if_pos hn]
      rw [hlast]
      simp [Block.untasked, Block.released, hn]
    · next hx =>
      have hblock : ((k.update b .released).destroy b).block x = k.block x := by
        rw [block_destroy_of_ne hx, block_update_of_ne hx]
      refine entry_congr hblock (fun hz => Option.ext fun p => ?_) fun hz => ?_
      · rw [family_destroy, hupdate]
        change (k.family.forget _).parentLink? _ = _ ↔ _
        rw [h.family.parentLink?_forget]
        refine ⟨fun hl => hl.2.2, fun hl => ⟨fun hp => hx ?_, ?_, hl⟩⟩
        · exact h.eq_of_pid hz (by omega) hp
        · rintro rfl
          exact hb hn x (link_entry.2 ⟨hz, hl⟩)
      · have hosted : (k.update b .released).Hosted :=
          h.hosted.congr (size_update ..) (view_update Block.task rfl)
            (view_update Block.taskReleased rfl) rfl fun _ => rfl
        rw [(destroy_host hosted (by rwa [size_update])).2.2.2, hself, if_neg]
        · rfl
        · exact fun ht => hx (h.eq_of_task hz (by omega) ht)
  · next hn =>
    have hreleased : (k.entry b).released = (k.entry b).update .released := by
      rw [TableEntry.released, block_entry, if_neg hn]
    by_cases hlt : b < k.blocks.size
    · rw [entry_update rfl rfl (by simp only [Block.released]; omega) hlt]
      split
      · next hx => rw [hx, hreleased]
      · rfl
    · have hnone : ∀ x, (k.update b .released).block x = k.block x := fun x => by
        rw [block_update, if_neg fun hx => hlt hx.2]
      rw [entry_congr (hnone x) (fun _ => rfl) fun _ => rfl]
      split
      · next hx =>
        subst hx
        have hdefault := block_of_size_le (Nat.le_of_not_lt hlt)
        rw [hreleased, entry_of_vacant (by rw [hdefault]; rfl), hdefault]
        rfl
      · rfl

/-- A parent gives up all its children. -/
theorem Intact.entry_detachAll (h : k.Intact r) (p : Pid) (x : BlockId) :
    { k with family := k.family.detachAll p }.entry x = (k.entry x).unlinked p := by
  have hnew : { k with family := k.family.detachAll p }.entry x =
      if (k.block x).refCount = 0 then ⟨k.block x, none, none⟩
      else ⟨k.block x, (k.family.detachAll p).parentLink? (k.block x).pid,
        k.host.task? (k.block x).task⟩ := rfl
  rw [hnew, entry]
  split
  · rfl
  · rw [Family.parentLink?_detachAll, TableEntry.unlinked]
    simp only [← h.family.mirror]
    split <;> rfl

@[simp] theorem host_attach (k : Kernel) (c q : BlockId) : (k.attach c q).host = k.host := by
  unfold attach
  split <;> rfl

/-- A child without a link comes under a parent. -/
theorem Intact.entry_attach (h : k.Intact r) {c q : BlockId} (hz : (k.block c).refCount ≠ 0)
    (hl : (k.entry c).link = none) (x : BlockId) : (k.attach c q).entry x =
      if x = c then (k.entry x).under (k.block q).pid else k.entry x := by
  have hfree : k.family.parentLink? (k.block c).pid = none := by
    rwa [entry_of_counted hz] at hl
  obtain ⟨hfamily, hblocks, -⟩ := attach_spec (r := q) hfree
  have hlink := Family.parentLink?_attach hfamily
  have hblock : ∀ y, (k.attach c q).block y = (k.update c (·.adopt (k.block q).pid)).block y :=
    fun y => congrArg (BlockStore.get · y) hblocks
  split
  · next hx =>
    subst hx
    have hself : (k.attach x q).block x = (k.block x).adopt (k.block q).pid :=
      (hblock x).trans (block_update_self (h.lt_of_refCount hz) _)
    have hpid : ((k.block x).adopt (k.block q).pid).pid = (k.block x).pid := rfl
    rw [entry_of_counted hz, entry_of_counted (by rw [hself]; exact hz), hself, hpid, hlink,
      if_pos rfl, host_attach]
    rfl
  · next hx =>
    refine entry_congr ((hblock x).trans (block_update_of_ne hx _)) (fun hv => ?_) fun _ => ?_
    · rw [hlink, if_neg fun he => hx (h.eq_of_pid hv hz he)]
    · rw [host_attach]

/-- A process loses a thread. -/
theorem Intact.entry_detachThread (h : k.Intact r) (hz : (k.block b).refCount ≠ 0)
    (x : BlockId) : (k.detachThread (k.block b).task).entry x =
      if x = b then (k.entry x).detached else k.entry x := by
  have htask := Host.task?_detach k.host (k.block b).task
  split
  · next hx =>
    subst hx
    rw [entry_of_counted hz, entry_of_counted (k := k.detachThread _) hz]
    exact congrArg _ ((htask _).trans (if_pos rfl))
  · next hx =>
    refine entry_congr rfl (fun _ => rfl) fun hv => ?_
    exact (htask _).trans (if_neg fun he => hx (h.eq_of_task hv hz he))

theorem entry_terminateThread (k : Kernel) (task : TaskHandle) (x : BlockId) :
    (k.terminateThread task).entry x = k.entry x :=
  entry_congr rfl (fun _ => rfl) fun _ => rfl

/-! ### Changes over a list -/

/-- What changes the entry of one block at a time changes those in a list, each once. -/
theorem entry_foldl {P : Kernel → Prop} {Q : TableEntry → Prop} {f : Kernel → BlockId → Kernel}
    {g : TableEntry → TableEntry}
    (hf : ∀ {k : Kernel} {c : BlockId}, P k → Q (k.entry c) → P (f k c) ∧
      ∀ x, (f k c).entry x = if x = c then g (k.entry x) else k.entry x)
    (cs : List BlockId) {k : Kernel} (hn : cs.Nodup) (hp : P k)
    (hq : ∀ c ∈ cs, Q (k.entry c)) :
    P (cs.foldl f k) ∧
      ∀ x, (cs.foldl f k).entry x = if x ∈ cs then g (k.entry x) else k.entry x := by
  induction cs generalizing k with
  | nil => exact ⟨hp, fun x => (if_neg List.not_mem_nil).symm⟩
  | cons c cs ih =>
    obtain ⟨hc, hn⟩ := List.nodup_cons.1 hn
    obtain ⟨hp', hone⟩ := hf hp (hq c List.mem_cons_self)
    obtain ⟨hlast, hrest⟩ := ih hn hp' fun d hd => by
      have hdc : d ≠ c := fun hdc => hc (hdc ▸ hd)
      rw [hone, if_neg hdc]
      exact hq d (List.mem_cons_of_mem _ hd)
    refine ⟨hlast, fun x => ?_⟩
    rw [List.foldl_cons, hrest, hone]
    by_cases hx : x = c
    · subst hx
      simp [hc]
    · simp [hx]

end Kernel

end Lifecycle
