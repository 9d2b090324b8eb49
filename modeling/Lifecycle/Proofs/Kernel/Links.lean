import Lifecycle.Kernel.Exit
import Lifecycle.Proofs.Kernel.Flags

/-! Linking keeps a kernel sound. A child comes under the process that forked it,
or under the kernel when that one exits; between the two it is adrift. -/

namespace Lifecycle

/-- A child that has come under the kernel, or is reaped. -/
def Account.settle (a : Account) (b : BlockId) : Account :=
  { a with adrift := a.adrift.erase b }

namespace Kernel

variable {k : Kernel} {a : Account}

/-! ### Attaching -/

/-- What attaching leaves as it was in every block. -/
theorem adopt_frame (k : Kernel) (c : BlockId) (p : Pid) (x : BlockId) :
    ((k.update c (·.adopt p)).block x).pid = (k.block x).pid ∧
      ((k.update c (·.adopt p)).block x).refCount = (k.block x).refCount ∧
      ((k.update c (·.adopt p)).block x).exiting = (k.block x).exiting ∧
      ((k.update c (·.adopt p)).block x).exited = (k.block x).exited ∧
      ((k.update c (·.adopt p)).block x).reaped = (k.block x).reaped := by
  rw [block_update]
  split <;> exact ⟨rfl, rfl, rfl, rfl, rfl⟩

theorem attach_spec {c r : BlockId} (hl : k.family.parentLink? (k.block c).pid = none) :
    k.family.attach (k.block c).pid (k.block r).pid = .ok (k.attach c r).family ∧
      (k.attach c r).blocks = (k.update c (·.adopt (k.block r).pid)).blocks ∧
      (k.attach c r).pids = k.pids ∧ (k.attach c r).live = k.live ∧
      (k.attach c r).fault = k.fault := by
  have hf : k.family.attach (k.block c).pid (k.block r).pid = .ok _ :=
    Family.attach_eq_ok_iff.2 ⟨hl, rfl⟩
  unfold attach
  rw [hf]
  exact ⟨rfl, rfl, rfl, rfl, rfl⟩

/-- A child that has a parent stays with it. -/
theorem attach_linked {c r : BlockId} {p : Pid}
    (hl : k.family.parentLink? (k.block c).pid = some p) :
    k.attach c r = k.halt (.alreadyLinked (k.block c).pid p) := by
  have hfailed : k.family.attach (k.block c).pid (k.block r).pid =
      .error (.alreadyLinked (k.block c).pid p) := by
    unfold Family.parentLink? at hl
    unfold Family.attach
    rw [hl]
  unfold attach
  rw [hfailed]

theorem quiet_attach {c r : BlockId} (hl : k.family.parentLink? (k.block c).pid = none) :
    (k.update c (·.adopt (k.block r).pid)).Quiet (k.attach c r) := by
  have hb := (attach_spec (r := r) hl).2.1
  refine ⟨congrArg BlockStore.size hb, fun x => ?_⟩
  rw [block, block, hb]

/-- A child is linked, and nothing else changes. -/
structure Attaches (k : Kernel) (c r : BlockId) (k' : Kernel) : Prop where
  family : k.family.attach (k.block c).pid (k.block r).pid = .ok k'.family
  pids : k'.pids = k.pids
  size : k'.blocks.size = k.blocks.size
  frame : ∀ x, (k'.block x).pid = (k.block x).pid ∧
    (k'.block x).refCount = (k.block x).refCount ∧
    (k'.block x).exiting = (k.block x).exiting ∧ (k'.block x).exited = (k.block x).exited ∧
    (k'.block x).reaped = (k.block x).reaped
  parent : ∀ x, (k'.block x).parent =
    if x = c then some (k.block r).pid else (k.block x).parent

theorem Sound.attaches (h : k.Sound a) {c r : BlockId} (hc : c < k.blocks.size)
    (hl : k.family.parentLink? (k.block c).pid = none)
    (hr : k.pids.lookup (k.block r).pid = some r) : k.Attaches c r (k.attach c r) := by
  obtain ⟨hf, hblocks, hpids, -, -⟩ := attach_spec (r := r) hl
  have hblock : ∀ x, (k.attach c r).block x = (k.update c (·.adopt (k.block r).pid)).block x :=
    fun x => by rw [block, block, hblocks]
  refine ⟨hf, hpids, by rw [hblocks, size_update], fun x => ?_, fun x => ?_⟩
  · rw [hblock]
    exact adopt_frame ..
  · rw [hblock]
    by_cases hxc : x = c
    · rw [hxc, if_pos rfl, block_update_self hc, h.adopt_eq hr]
    · rw [block_update_of_ne hxc, if_neg hxc]

theorem Ordered.attach {k' : Kernel} {c r : BlockId} (h : k.Ordered) (ha : k.Attaches c r k')
    (hc : c ≠ root) : k'.Ordered where
  exiting x := by
    rw [(ha.frame x).2.2.1, (ha.frame x).2.2.2.1]
    exact h.exiting x
  exited x := by
    rw [(ha.frame x).2.2.2.1, (ha.frame x).2.2.2.2]
    exact h.exited x
  root_lt := by
    rw [ha.size]
    exact h.root_lt
  root_pid := by
    rw [(ha.frame root).1]
    exact h.root_pid
  root_parent := by
    rw [ha.parent, if_neg hc.symm]
    exact h.root_parent

section Attach

variable {k' : Kernel} {c q r : BlockId} (h : k.Sound a) (hat : k.Attaches c r k')
  (hc : a.forker c = some q) (hx : (k.block c).reaped = false)
  (hr : k.pids.lookup (k.block r).pid = some r)
  (hq : r = q ∨ r = root ∧ (k.block q).exiting = true)
include h hat hc hx

/-- The link of another child is as it was, since no two of them have one pid. -/
theorem Sound.parentLink?_attached {x q' : BlockId} (hf : a.forker x = some q')
    (hxr : (k.block x).reaped = false) (hne : x ≠ c) :
    k'.family.parentLink? (k.block x).pid = k.family.parentLink? (k.block x).pid := by
  rw [Family.parentLink?_attach hat.family, if_neg fun hp => hne ?_]
  exact eq_of_pid (h.lookup_of_forker hf hxr) (h.lookup_of_forker hc hx) hp

include hr hq

/-- Its parent is the forker still, or the kernel. -/
theorem Sound.linked_attached {x p : Pid} (hs : k'.family.parentLink? x = some p) :
    ∃ b q', k'.pids.lookup x = some b ∧ k'.pids.lookup p = some q' ∧
      (k'.block b).parent = some p ∧ (q' = root ∨ a.forker b = some q') := by
  rw [Family.parentLink?_attach hat.family] at hs
  rw [hat.pids]
  split at hs
  · next hxc =>
    rw [hxc, ← Option.some.inj hs]
    refine ⟨c, r, h.lookup_of_forker hc hx, hr, by rw [hat.parent, if_pos rfl], ?_⟩
    rcases hq with rfl | ⟨rfl, _⟩
    · exact Or.inr hc
    · exact Or.inl rfl
  · next hxc =>
    obtain ⟨y, q', hy, hq', hp, hor⟩ := h.kindred.linked hs
    have hyc : y ≠ c := fun hyc => hxc (by rw [← (h.placed.own hy).2, hyc])
    exact ⟨y, q', hy, hq', by rw [hat.parent, if_neg hyc]; exact hp, hor⟩

theorem Sound.kindred_attach
    (ha : ∀ x ∈ a.adrift, x ≠ c → (k.block x).pid ≠ (k.block c).pid) :
    k'.Kindred ((a.land c).settle c) where
  born hxq := by
    rw [hat.size]
    exact h.kindred.born hxq
  given hg := by
    rw [hat.size]
    exact h.kindred.given hg
  forked {x} hxe := by
    rw [(hat.frame x).2.2.1] at hxe
    exact h.kindred.forked hxe
  parent x hs hne := by
    rw [hat.parent]
    split
    · next hxc =>
      rw [hxc]
      rcases hq with rfl | ⟨rfl, _⟩
      · exact Or.inr ⟨r, hc, by rw [(hat.frame r).1]⟩
      · exact Or.inl (congrArg some h.ordered.root_pid)
    · rcases h.kindred.parent x (hat.size ▸ hs) hne with hp | ⟨q', hq', hp⟩
      · exact Or.inl hp
      · exact Or.inr ⟨q', hq', by rw [(hat.frame q').1]; exact hp⟩
  half x hm := by
    obtain ⟨hxc, hm⟩ := h.kindred.half_nodup.mem_erase_iff.1 hm
    obtain ⟨⟨q', hq'⟩, hp, hxe, hn⟩ := h.kindred.half x hm
    rw [hat.parent, if_neg hxc, (hat.frame x).1, (hat.frame x).2.2.1,
      h.parentLink?_attached hat hc hx hq' (h.reaped_of_not_exiting hxe) hxc]
    exact ⟨⟨q', hq'⟩, hp, hxe, hn⟩
  half_nodup := h.kindred.half_nodup.erase c
  adrift x hm := by
    have hadrift : a.adrift.Nodup := by
      refine List.Pairwise.of_map _ (fun x y hne he => hne ?_) h.kindred.adrift_nodup
      exact congrArg (fun b => (k.block b).pid) he
    obtain ⟨hxc, hm⟩ := hadrift.mem_erase_iff.1 hm
    obtain ⟨hh, hn, q', hq', hxe⟩ := h.kindred.adrift x hm
    rw [(hat.frame x).1, Family.parentLink?_attach hat.family, if_neg (ha x hm hxc)]
    exact ⟨fun hm => hh (List.mem_of_mem_erase hm), hn, q', hq', by rwa [(hat.frame q').2.2.1]⟩
  adrift_nodup := by
    simp only [(hat.frame _).1]
    exact h.kindred.adrift_nodup.sublist (List.erase_sublist.map _)
  moved {x q'} hxq hh hxr hp := by
    rw [(hat.frame x).2.2.2.2] at hxr
    rw [hat.parent] at hp
    rw [(hat.frame q').2.2.1]
    by_cases hxc : x = c
    · subst hxc
      rw [if_pos rfl] at hp
      obtain rfl : q = q' := Option.some.inj (hc.symm.trans hxq)
      rcases hq with rfl | ⟨rfl, hqe⟩
      · have hk := h.lookup_root
        rw [← Option.some.inj hp, hr] at hk
        exact Or.inl (Option.some.inj hk)
      · exact Or.inr hqe
    · rw [if_neg hxc] at hp
      exact h.kindred.moved hxq (fun hm => hh ((List.mem_erase_of_ne hxc).2 hm)) hxr hp
  family := h.kindred.family.attach hat.family
  linked hs := h.linked_attached hat hc hx hr hq hs
  kin {x q' p} hxq hh hd hxr hp hor := by
    rw [(hat.frame x).2.2.2.2] at hxr
    rw [hat.parent] at hp
    rw [(hat.frame x).1]
    rw [hat.pids] at hor
    by_cases hxc : x = c
    · rw [if_pos hxc] at hp
      rw [Family.parentLink?_attach hat.family, hxc, if_pos rfl]
      exact hp
    · rw [if_neg hxc] at hp
      rw [h.parentLink?_attached hat hc hx hxq hxr hxc]
      exact h.kindred.kin hxq (fun hm => hh ((List.mem_erase_of_ne hxc).2 hm))
        (fun hm => hd ((List.mem_erase_of_ne hxc).2 hm)) hxr hp hor

end Attach

/-- A child without a link may come under its forker, and under the kernel once
that has begun to exit. -/
theorem Sound.attach (h : k.Sound a) {c q r : BlockId} (hc : a.forker c = some q)
    (hl : k.family.parentLink? (k.block c).pid = none) (hx : (k.block c).reaped = false)
    (hr : k.pids.lookup (k.block r).pid = some r)
    (hq : r = q ∨ r = root ∧ (k.block q).exiting = true)
    (ha : ∀ x ∈ a.adrift, x ≠ c → (k.block x).pid ≠ (k.block c).pid) :
    (k.attach c r).Sound ((a.land c).settle c) := by
  obtain ⟨-, -, hpids, hlive, hfault⟩ := attach_spec (r := r) hl
  have hat := h.attaches (h.kindred.born hc).2 hl hr
  exact ⟨h.placed.congr hlive hfault hpids hat.size (fun x => (hat.frame x).1) rfl,
    h.counted.congr hat.size (congrArg PidMap.lookup hpids)
      (fun x => ⟨(hat.frame x).1, (hat.frame x).2.1, (hat.frame x).2.2.2.2⟩) rfl rfl,
    h.ordered.attach hat (h.ne_root_of_forker hc), h.kindred_attach hat hc hx hr hq ha⟩

/-! ### Detaching -/

/-- The children in the list of a parent. -/
def childBlocks (k : Kernel) (p : Pid) : List BlockId :=
  (k.family.childrenOf p).filterMap k.pids.lookup

theorem Sound.mem_childBlocks (h : k.Sound a) {p : Pid} {c : BlockId} :
    c ∈ k.childBlocks p ↔ k.pids.lookup (k.block c).pid = some c ∧
      k.family.parentLink? (k.block c).pid = some p := by
  simp only [childBlocks, List.mem_filterMap]
  constructor
  · rintro ⟨x, hx, hl⟩
    rw [(h.placed.own hl).2]
    exact ⟨hl, (h.kindred.family.mirror x p).2 hx⟩
  · rintro ⟨hl, hx⟩
    exact ⟨_, (h.kindred.family.mirror _ p).1 hx, hl⟩

/-- Each pid in a list of children is that of its own block. -/
theorem Sound.pids_childBlocks (h : k.Sound a) (p : Pid) :
    (k.childBlocks p).map (fun c => (k.block c).pid) = k.family.childrenOf p := by
  have hall : ∀ c ∈ k.family.childrenOf p, ∃ b, k.pids.lookup c = some b := fun c hc => by
    obtain ⟨b, _, hb, _⟩ := h.kindred.linked ((h.kindred.family.mirror c p).2 hc)
    exact ⟨b, hb⟩
  unfold childBlocks
  generalize k.family.childrenOf p = cs at hall
  induction cs with
  | nil => rfl
  | cons c cs ih =>
    obtain ⟨b, hb⟩ := hall c List.mem_cons_self
    rw [List.filterMap_cons_some hb, List.map_cons, (h.placed.own hb).2,
      ih fun c hc => hall c (List.mem_cons_of_mem _ hc)]

/-- The children of a process that has begun to exit may be set adrift. -/
theorem Sound.detach (h : k.Sound a) (ha : a.adrift = []) {b : BlockId} (hb : b ≠ root)
    (hi : k.pids.lookup (k.block b).pid = some b) (he : (k.block b).exiting = true) :
    { k with family := k.family.detachAll (k.block b).pid }.Sound
      { a with adrift := k.childBlocks (k.block b).pid } := by
  have hmem := @Sound.mem_childBlocks k a h (k.block b).pid
  have hlink := Family.parentLink?_detachAll k.family (k.block b).pid
  have hsub : ∀ c p, (k.family.detachAll (k.block b).pid).parentLink? c = some p →
      k.family.parentLink? c = some p := by
    intro c p hs
    rw [hlink] at hs
    split at hs
    · cases hs
    · exact hs
  refine ⟨h.placed.congr rfl rfl rfl rfl (fun _ => rfl) rfl,
    h.counted.congr rfl rfl (fun _ => ⟨rfl, rfl, rfl⟩) rfl rfl,
    h.ordered.congr (.mk rfl fun _ => rfl), { h.kindred with
      half := ?_, adrift := ?_, adrift_nodup := ?_, family := ?_, linked := ?_, kin := ?_ }⟩
  · intro c hc
    obtain ⟨hd, hp, hx, hn⟩ := h.kindred.half c hc
    refine ⟨hd, hp, hx, Option.eq_none_iff_forall_ne_some.2 fun p hs => ?_⟩
    cases (hsub _ p hs).symm.trans hn
  · intro c hc
    obtain ⟨hci, hcl⟩ := hmem.1 hc
    obtain ⟨x, q, hx, hq, _, hor⟩ := h.kindred.linked hcl
    rw [hci] at hx
    obtain rfl := Option.some.inj hx
    rw [hi] at hq
    obtain rfl := Option.some.inj hq
    have hf : a.forker c = some b := hor.resolve_left hb
    refine ⟨fun hm => ?_, ?_, b, hf, he⟩
    · rw [(h.kindred.half c hm).2.2.2] at hcl
      cases hcl
    · exact (hlink _).trans (if_pos ((h.kindred.family.mirror _ _).1 hcl))
  · change ((k.childBlocks _).map fun c => (k.block c).pid).Nodup
    rw [h.pids_childBlocks]
    exact h.kindred.family.nodup _
  · exact h.kindred.family.detachAll _
  · intro c p hs
    exact h.kindred.linked (hsub c p hs)
  · intro c q p hc hh hd hx hp hor
    change (k.family.detachAll _).parentLink? (k.block c).pid = some p
    have hl := h.kindred.kin hc hh (by rw [ha]; exact List.not_mem_nil) hx hp hor
    rw [hlink, if_neg]
    · exact hl
    · intro hm
      apply hd
      exact hmem.2 ⟨h.lookup_of_forker hc hx, (h.kindred.family.mirror _ _).2 hm⟩

end Kernel

end Lifecycle
