import Lifecycle.Proofs.Kernel.Leaving
import Lifecycle.Proofs.Kernel.Thinning
import Lifecycle.Proofs.PidMap.Live

/-! Two processes that leave a table one after the other leave the same table in either order. Their
blocks come to different ends on the way: a child that exits first is reaped with its parent, and
one that exits last is the kernel's by then and reaped at once. Once nobody has a reference on a
block, nothing shows which it was. -/

namespace Lifecycle

/-- The same entries, but for blocks that nobody has a reference on any more. -/
def TableEntry.Same (e e' : TableEntry) : Prop :=
  e = e' ∨ e.block.refCount = 0 ∧ e'.block.refCount = 0

namespace TableEntry

variable {e e' : TableEntry} {p q : Pid} {status : RawStatus}

theorem Same.symm (h : e.Same e') : e'.Same e := h.imp Eq.symm And.symm

theorem Same.trans {e'' : TableEntry} (h : e.Same e') (h' : e'.Same e'') : e.Same e'' := by
  rcases h with rfl | ⟨hz, hz'⟩
  · exact h'
  · rcases h' with rfl | ⟨-, hz''⟩
    · exact Or.inr ⟨hz, hz'⟩
    · exact Or.inr ⟨hz, hz''⟩

theorem Same.eq (h : e.Same e') (hz : e.block.refCount ≠ 0) : e = e' :=
  h.resolve_right fun hd => hz hd.1

/-! ### Two parents -/

theorem bereft_of_ne (hl : e.link ≠ some p) : e.bereft p = e := if_neg hl

/-- A child is handed on by its own parent alone. -/
theorem bereft_bereft_of_link (hl : e.link = some p) (hq : q ≠ kernelPid) :
    (e.bereft p).bereft q = e.bereft p := by
  refine bereft_of_ne fun hq' => hq ?_
  unfold bereft at hq'
  rw [if_pos hl] at hq'
  exact link_of_handedOn hq'

/-- The order of two parents makes no difference to their children. -/
theorem bereft_comm (hp : p ≠ kernelPid) (hq : q ≠ kernelPid) :
    (e.bereft p).bereft q = (e.bereft q).bereft p := by
  by_cases hl : e.link = some p
  · by_cases hpq : p = q
    · rw [hpq]
    · have hne : e.link ≠ some q := fun hl' => hpq (Option.some.inj (hl.symm.trans hl'))
      rw [bereft_bereft_of_link hl hq, bereft_of_ne hne]
  · by_cases hl' : e.link = some q
    · rw [bereft_bereft_of_link hl' hp, bereft_of_ne hl]
    · rw [bereft_of_ne hl, bereft_of_ne hl', bereft_of_ne hl]

/-! ### A parent and its child -/

theorem refCount_bereft_le (p : Pid) (e : TableEntry) :
    (e.bereft p).block.refCount ≤ e.block.refCount := by
  rcases bereft_cases p e with ⟨-, hn⟩ | ⟨-, -, hn⟩ <;> omega

/-- Its sleeper gives back the table's reference and its own. -/
theorem refCount_left_of_waiter (hw : e.block.waiter = true) :
    (e.left status).block.refCount = e.block.refCount - 1 - 1 := by
  rw [left, if_pos hw, departed_of_waiter hw, refCount_released, refCount_released]
  rfl

/-- A child of the kernel's that nobody waits for gives up the table's reference. -/
theorem refCount_left_of_kernel (hw : e.block.waiter = false)
    (hp : e.block.parent = some kernelPid) :
    (e.left status).block.refCount = e.block.refCount - 1 := by
  have hleft : e.left status = e.departed status := if_neg (by simp [hw])
  rw [hleft, departed, if_pos ⟨hp, hw⟩, refCount_released]
  rfl

/-- A child of another process that nobody waits for is a zombie. -/
theorem left_of_parent_ne (hw : e.block.waiter = false) (hp : e.block.parent ≠ some kernelPid) :
    e.left status = (e.update (·.leaving.published status)).detached := by
  have hleft : e.left status = e.departed status := if_neg (by simp [hw])
  rw [hleft, departed]
  exact if_neg fun hc => hp hc.1

/-- A zombie gives up the table's reference when its parent exits. -/
theorem refCount_bereft_of_zombie (hl : e.link = some q) (hz : e.block.state = .zombie) :
    (e.bereft q).block.refCount = e.block.refCount - 1 := by
  obtain ⟨hreaped, hexited⟩ := (Block.state_eq_zombie_iff _).1 hz
  rw [bereft, if_pos hl, handedOn, if_neg (by simp [hexited]), if_pos hreaped, refCount_released]
  rfl

/-- A child that exits first is reaped when its parent exits, and one that is left to the kernel is
reaped when it exits. -/
theorem left_bereft (hq : q ≠ kernelPid) (hp : e.link = some q → e.block.parent = some q)
    (hs : e.block.state = .running)
    (hn : e.block.refCount ≤ 1 + if e.block.waiter = true then 1 else 0) :
    ((e.left status).bereft q).Same ((e.bereft q).left status) := by
  obtain ⟨hreaped, hexited⟩ := (Block.state_eq_running_iff _).1 hs
  by_cases hl : e.link = some q
  · have hunder : e.bereft q = e.under kernelPid := by
      rw [bereft, if_pos hl, handedOn, if_pos hexited]
    have hle := refCount_bereft_le q (e.left status)
    refine Or.inr ?_
    rw [hunder]
    cases hw : e.block.waiter with
    | true =>
      have hlast : (e.left status).block.refCount = _ := refCount_left_of_waiter hw
      have hlast' : ((e.under kernelPid).left status).block.refCount = _ :=
        refCount_left_of_waiter hw
      have hsame : (e.under kernelPid).block.refCount = e.block.refCount := rfl
      rw [hw, if_pos rfl] at hn
      omega
    | false =>
      have hlast : ((e.under kernelPid).left status).block.refCount = _ :=
        refCount_left_of_kernel hw rfl
      have hsame : (e.under kernelPid).block.refCount = e.block.refCount := rfl
      -- a zombie of its parent's until that exits
      have hzombie : e.left status = (e.update (·.leaving.published status)).detached :=
        left_of_parent_ne hw fun hc => hq (Option.some.inj ((hp hl).symm.trans hc))
      have hgone : ((e.left status).bereft q).block.refCount = e.block.refCount - 1 := by
        rw [hzombie]
        exact refCount_bereft_of_zombie (e := (e.update _).detached) hl
          ((Block.state_eq_zombie_iff _).2 ⟨hreaped, rfl⟩)
      rw [hw] at hn
      simp only [Bool.false_eq_true, if_false] at hn
      omega
  · rw [bereft_of_ne hl, bereft_of_ne fun hl' => hl (link_of_left hl')]
    exact Or.inl rfl

end TableEntry

/-! ### Lists and maps that show the same -/

/-- Parts of a list without repetitions are the same if their members are. -/
theorem eq_of_sublist {α : Type} [DecidableEq α] {l l₁ l₂ : List α} (hn : l.Nodup)
    (h₁ : l₁.Sublist l) (h₂ : l₂.Sublist l) (hm : ∀ x, x ∈ l₁ ↔ x ∈ l₂) : l₁ = l₂ := by
  have hpart : ∀ {l' : List α}, l'.Sublist l → (∀ x, x ∈ l' ↔ x ∈ l₂) →
      l' = l.filter (· ∈ l₂) := fun {l'} hs hmem => by
    have hkept : l'.filter (· ∈ l₂) = l' := List.filter_eq_self.2 fun x hx => by
      simpa using (hmem x).1 hx
    have hperm : l'.Perm (l.filter (· ∈ l₂)) := by
      refine (List.perm_ext_iff_of_nodup (hn.sublist hs) (hn.filter _)).2 fun x => ?_
      rw [List.mem_filter, hmem, decide_eq_true_iff]
      exact ⟨fun hx => ⟨h₂.subset hx, hx⟩, And.right⟩
    have hsub := hs.filter (· ∈ l₂)
    rw [hkept] at hsub
    exact hsub.eq_of_length hperm.length_eq
  rw [hpart h₁ hm, ← hpart h₂ fun _ => .rfl]

theorem Assoc.size_congr {κ α : Type} [DecidableEq κ] {m m' : Assoc κ α}
    (h : ∀ i, m'.get? i = m.get? i) : m'.size = m.size := by
  have hperm : (m'.entries.map Prod.fst).Perm (m.entries.map Prod.fst) := by
    refine (List.perm_ext_iff_of_nodup m'.nodup m.nodup).2 fun i => ?_
    rw [← contains_iff_mem, ← contains_iff_mem, contains, contains, h]
  simpa [size] using hperm.length_eq

theorem Assoc.erase_comm {κ α : Type} [DecidableEq κ] (m : Assoc κ α) (i j : κ) :
    (m.erase i).erase j = (m.erase j).erase i := by
  unfold erase
  simp only [List.filter_comm]

namespace Kernel

/-- Tables that show the same to anybody, but for the order of the kernel's children. -/
structure Matches (k k' : Kernel) : Prop where
  fault : k'.fault = k.fault
  found : ∀ p, k'.pids.lookup p = k.pids.lookup p
  allocated : ∀ p, k'.pids.isAllocated p = k.pids.isAllocated p
  free : k'.pids.free = k.pids.free
  block : ∀ {p b}, k.pids.lookup p = some b → k'.block b = k.block b
  survives : ∀ {b}, (k.block b).refCount ≠ 0 ∨ (k'.block b).refCount ≠ 0 → k'.block b = k.block b
  parentLink? : ∀ c, k'.family.parentLink? c = k.family.parentLink? c
  childrenOf : ∀ p, p ≠ kernelPid → k'.family.childrenOf p = k.family.childrenOf p
  kernelChildren : (k'.family.childrenOf kernelPid).Perm (k.family.childrenOf kernelPid)
  task? : ∀ t, k'.host.task? t = k.host.task? t
  counters : k'.host.counters = k.host.counters

/-- Tables whose entries are the same, as far as references go. -/
structure Accords (k k' : Kernel) : Prop where
  entry : ∀ x, (k.entry x).Same (k'.entry x)
  children : ∀ p, p ≠ kernelPid → k'.childBlocks p = k.childBlocks p
  books : k.SameBooks k'

namespace SameBooks

variable {k k' : Kernel}

theorem symm (h : k.SameBooks k') : k'.SameBooks k :=
  ⟨h.fault.symm, h.capacity.symm, h.created.symm, h.tasks.symm, h.spawned.symm,
    h.terminated.symm⟩

end SameBooks

variable {k k' : Kernel} {r : List Pid} {b x : BlockId}

/-! ### What same entries show -/

/-- Blocks without references have no links. -/
theorem link_of_same (h : (k.entry x).Same (k'.entry x)) :
    (k'.entry x).link = (k.entry x).link := by
  rcases h with he | ⟨hz, hz'⟩
  · rw [he]
  · rw [block_entry] at hz hz'
    rw [entry_of_vacant hz, entry_of_vacant hz']

/-- A task that the host knows is that of a block with references. -/
theorem Intact.task?_iff (h : k.Intact r) {t : TaskHandle} {record : TaskRecord} :
    k.host.task? t = some record ↔
      ∃ b, (k.block b).task = t ∧ (k.entry b).record = some record := by
  constructor
  · intro ht
    obtain ⟨b, hb, rfl, hr⟩ := (h.hosted.known t).1 ((k.host.contains_iff t).2 ⟨record, ht⟩)
    have hz : (k.block b).refCount ≠ 0 := fun hz =>
      Bool.false_ne_true (hr.symm.trans ((h.released b hb).2 hz))
    refine ⟨b, rfl, ?_⟩
    rw [entry_of_counted hz]
    exact ht
  · rintro ⟨b, rfl, hb⟩
    by_cases hz : (k.block b).refCount = 0
    · rw [entry_of_vacant hz] at hb
      cases hb
    · rw [entry_of_counted hz] at hb
      exact hb

/-- The pids that are taken, once each. -/
theorem Intact.exists_taken (h : k.Intact r) :
    ∃ ps : List Pid, ps.Nodup ∧ ∀ p, k.pids.isAllocated p = true ↔ p ∈ ps := by
  refine ⟨k.pids.livePids ++ r, ?_, fun p => ?_⟩
  · refine List.nodup_append.2 ⟨h.valid.nodup_livePids, h.placed.nodup, ?_⟩
    rintro p hp q hq rfl
    obtain ⟨b, hb⟩ := h.valid.mem_livePids.1 hp
    cases (h.placed.empty p hq).symm.trans hb
  · rw [List.mem_append, h.valid.mem_livePids]
    exact h.placed.taken p

/-- A list of children, from the blocks in it. -/
theorem Intact.childrenOf_eq (h : k.Intact r) (p : Pid) :
    k.family.childrenOf p = (k.childBlocks p).map fun b => (k.block b).pid := by
  have hfound : ∀ cs : List Pid, (∀ c ∈ cs, ∃ b, k.pids.lookup c = some b) →
      (cs.filterMap k.pids.lookup).map (fun b => (k.block b).pid) = cs := by
    intro cs hcs
    induction cs with
    | nil => rfl
    | cons c cs ih =>
      obtain ⟨b, hb⟩ := hcs c List.mem_cons_self
      rw [List.filterMap_cons_some hb, List.map_cons, (h.own hb).2,
        ih fun d hd => hcs d (List.mem_cons_of_mem _ hd)]
  exact (hfound _ fun c hc => h.child ((h.family.mirror c p).2 hc)).symm

namespace Accords

theorem refl (k : Kernel) : k.Accords k := ⟨fun _ => Or.inl rfl, fun _ _ => rfl, .refl k⟩

theorem trans {k'' : Kernel} (h : k.Accords k') (h' : k'.Accords k'') : k.Accords k'' where
  entry x := (h.entry x).trans (h'.entry x)
  children p hp := (h'.children p hp).trans (h.children p hp)
  books := h.books.trans h'.books

/-- Lists of children from which only members have gone are the same if the links are. -/
theorem of_lists {k₀ : Kernel} {r₀ : List Pid} (hentry : ∀ x, (k.entry x).Same (k'.entry x))
    (hbooks : k.SameBooks k') (h₀ : k₀.Intact r₀) (hi : k.Intact r) (hi' : k'.Intact r)
    (hl : ∀ p, p ≠ kernelPid → (k.childBlocks p).Sublist (k₀.childBlocks p))
    (hl' : ∀ p, p ≠ kernelPid → (k'.childBlocks p).Sublist (k₀.childBlocks p)) : k.Accords k' := by
  refine ⟨hentry, fun p hp => ?_, hbooks⟩
  refine eq_of_sublist (h₀.nodup_childBlocks p) (hl' p hp) (hl p hp) fun x => ?_
  rw [hi.mem_childBlocks, hi'.mem_childBlocks, link_of_same (hentry x)]

variable (h : k.Accords k')
include h

theorem entry_eq (hz : (k.block b).refCount ≠ 0) : k'.entry b = k.entry b :=
  ((h.entry b).eq (by rwa [block_entry])).symm

theorem block_eq (hz : (k.block b).refCount ≠ 0) : k'.block b = k.block b := by
  rw [← block_entry, h.entry_eq hz, block_entry]

theorem counted (b : BlockId) : (k'.block b).refCount ≠ 0 ↔ (k.block b).refCount ≠ 0 := by
  rcases h.entry b with he | ⟨hz, hz'⟩
  · rw [← block_entry k', ← he, block_entry]
  · rw [block_entry] at hz hz'
    exact iff_of_false (fun hn => hn hz') fun hn => hn hz

variable (hi : k.Intact r) (hi' : k'.Intact r)
include hi hi'

theorem lookup (p : Pid) : k'.pids.lookup p = k.pids.lookup p := by
  refine Option.ext fun b => ?_
  rw [hi.lookup_iff, hi'.lookup_iff, h.counted]
  refine and_congr_left fun hz => ?_
  rw [h.block_eq hz]

theorem parentLink? (c : Pid) : k'.family.parentLink? c = k.family.parentLink? c := by
  refine Option.ext fun p => ?_
  rw [hi.parentLink?_iff, hi'.parentLink?_iff]
  refine exists_congr fun b => ?_
  rw [link_of_same (h.entry b)]
  refine and_congr_left fun hl => ?_
  rw [h.block_eq (link_entry.1 hl).1]

theorem task? (t : TaskHandle) : k'.host.task? t = k.host.task? t := by
  refine Option.ext fun record => ?_
  rw [hi.task?_iff, hi'.task?_iff]
  refine exists_congr fun b => ?_
  by_cases hz : (k.block b).refCount = 0
  · have hz' : (k'.block b).refCount = 0 :=
      Classical.not_not.1 fun hn => ((h.counted b).1 hn) hz
    rw [entry_of_vacant hz, entry_of_vacant hz']
    exact iff_of_false (fun he => by cases he.2) fun he => by cases he.2
  · rw [h.entry_eq hz, h.block_eq hz]

theorem isAllocated (p : Pid) : k'.pids.isAllocated p = k.pids.isAllocated p := by
  rw [Bool.eq_iff_iff, hi.placed.taken, hi'.placed.taken, h.lookup hi hi']

theorem free : k'.pids.free = k.pids.free := by
  obtain ⟨ps, hn, hps⟩ := hi.exists_taken
  have hfree := hi.valid.free_add_length hn hps
  have hfree' := hi'.valid.free_add_length hn fun p => by rw [h.isAllocated hi hi', hps]
  have hcapacity := h.books.capacity
  omega

theorem counters : k'.host.counters = k.host.counters := by
  have hsize : k'.host.tasks.size = k.host.tasks.size :=
    Assoc.size_congr fun t => h.task? hi hi' t
  obtain ⟨-, -, hcreated, htasks, hspawned, hterminated⟩ := h.books
  have hdestroyed : k'.host.counters.destroyed = k.host.counters.destroyed := by omega
  generalize k'.host.counters = c' at *
  generalize k.host.counters = c at *
  cases c
  cases c'
  simp_all only

/-- Whoever looks sees no difference. -/
theorem matching : k.Matches k' where
  fault := h.books.fault
  found := h.lookup hi hi'
  allocated := h.isAllocated hi hi'
  free := h.free hi hi'
  block hb := h.block_eq (hi.counted hb)
  survives hz := h.block_eq (hz.elim id (h.counted _).1)
  parentLink? := h.parentLink? hi hi'
  childrenOf p hp := by
    rw [hi.childrenOf_eq, hi'.childrenOf_eq, h.children p hp]
    refine List.map_congr_left fun b hb => ?_
    rw [h.block_eq (link_entry.1 (hi.mem_childBlocks.1 hb)).1]
  kernelChildren := by
    refine (List.perm_ext_iff_of_nodup (hi'.family.nodup _) (hi.family.nodup _)).2 fun c => ?_
    rw [← hi.family.mirror, ← hi'.family.mirror, h.parentLink? hi hi']
  task? := h.task? hi hi'
  counters := h.counters hi hi'

end Accords

/-! ### Departures -/

variable {k₁ k₂ : Kernel} {p q : Pid} {c : BlockId} {status : RawStatus}

/-- The same process leaves two tables that are in accord. -/
theorem Departs.accords (h : k.Departs r p b status k₁) (h' : k'.Departs r p b status k₂)
    (ha : k.Accords k') (hi : k.Intact r) (hz : (k.block b).refCount ≠ 0) : k₁.Accords k₂ := by
  refine .of_lists (fun x => ?_) ?_ hi h.intact h'.intact h.children fun q hq => ?_
  · rw [h.loses.entry, h'.loses.entry]
    split
    · next hx =>
      rw [hx, ha.entry_eq hz]
      exact Or.inl rfl
    · rcases ha.entry x with he | ⟨hv, hv'⟩
      · rw [he]
        exact Or.inl rfl
      · exact Or.inr ⟨Nat.eq_zero_of_le_zero (hv ▸ TableEntry.refCount_bereft_le p _),
          Nat.eq_zero_of_le_zero (hv' ▸ TableEntry.refCount_bereft_le p _)⟩
  · exact h.books.symm.trans ((ha.books.terminateThread _ _).trans h'.books)
  · rw [← ha.children q hq]
    exact h'.children q hq

/-- A process as those see it that can leave: nobody but the table and a sleeper has a reference
on it. -/
structure Leaver (k : Kernel) (b : BlockId) : Prop where
  running : (k.block b).state = .running
  parent : ∀ {p}, (k.entry b).link = some p → (k.block b).parent = some p
  bounded : (k.block b).refCount ≤ 1 + if (k.block b).waiter = true then 1 else 0

/-- Two processes leave a table in either order. -/
theorem Departs.comm {status' : RawStatus} {k₁₂ k₂₁ : Kernel} (hi : k.Intact r)
    (h₁ : k.Departs r p b status k₁) (h₁₂ : k₁.Departs r q c status' k₁₂)
    (h₂ : k.Departs r q c status' k₂) (h₂₁ : k₂.Departs r p b status k₂₁)
    (hb : k.Leaver b) (hc : k.Leaver c) (hbc : b ≠ c) : k₁₂.Accords k₂₁ := by
  have hcb : c ≠ b := hbc.symm
  refine .of_lists (fun x => ?_) ?_ hi h₁₂.intact h₂₁.intact
    (fun q hq => (h₁₂.children q hq).trans (h₁.children q hq))
    fun q hq => (h₂₁.children q hq).trans (h₂.children q hq)
  · rw [h₁₂.loses.entry, h₂₁.loses.entry, h₁.loses.entry, h₂.loses.entry]
    by_cases hxb : x = b
    · subst hxb
      simp only [if_pos, if_neg hbc]
      exact TableEntry.left_bereft h₂.loses.user (by simpa using hb.parent)
        (by simpa using hb.running) (by simpa using hb.bounded)
    · by_cases hxc : x = c
      · subst hxc
        simp only [if_pos, if_neg hcb]
        exact (TableEntry.left_bereft h₁.loses.user (by simpa using hc.parent)
          (by simpa using hc.running) (by simpa using hc.bounded)).symm
      · simp only [if_neg hxb, if_neg hxc]
        exact Or.inl (TableEntry.bereft_comm h₁.loses.user h₂.loses.user)
  · have hfirst := (h₁.books.terminateThread (k₁.block c).task (k₁.block c).task).trans h₁₂.books
    have hsecond := (h₂.books.terminateThread (k₂.block b).task (k₂.block b).task).trans h₂₁.books
    have hboth := ((SameBooks.refl k).terminateThread (k.block b).task
      (k.block c).task).terminateThread (k₁.block c).task (k₂.block b).task
    exact hfirst.symm.trans (hboth.trans hsecond)

end Kernel

end Lifecycle
