import Lifecycle.Proofs.Kernel.Links
import Mathlib.Data.List.Nodup

/-! What an exit comes to. The children are held, moved on and let go of before the
status is published, and the process that exits is held from first to last. -/

namespace Lifecycle

/-- A child whose parent has exited: the exited ones are reaped, the others come
under the kernel. -/
def Block.rehomed (b : Block) : Block :=
  if b.exited then { b with reaped := true } else { b with parent := some kernelPid }

/-- A process that has exited, reaped at once if it is the kernel's and has no waiter. -/
def Block.departed (b : Block) (status : RawStatus) : Block :=
  { b with
    exiting := true
    exited := true
    code := status
    reaped := b.parent = some kernelPid ∧ b.waiter = false }

@[simp] theorem Block.rehomed_pid (b : Block) : b.rehomed.pid = b.pid := by
  unfold rehomed
  split <;> rfl

@[simp] theorem Block.rehomed_waiter (b : Block) : b.rehomed.waiter = b.waiter := by
  unfold rehomed
  split <;> rfl

@[simp] theorem Block.rehomed_exiting (b : Block) : b.rehomed.exiting = b.exiting := by
  unfold rehomed
  split <;> rfl

@[simp] theorem Block.rehomed_exited (b : Block) : b.rehomed.exited = b.exited := by
  unfold rehomed
  split <;> rfl

@[simp] theorem Block.rehomed_reaped (b : Block) : b.rehomed.reaped = (b.exited || b.reaped) := by
  unfold rehomed
  split
  · next he => rw [he, Bool.true_or]
  · next he => rw [Bool.eq_false_iff.2 he, Bool.false_or]

theorem Block.core_rehomed (b : Block) : b.rehomed.core = b.core.rehomed := by
  have he : b.core.exited = b.exited := rfl
  unfold rehomed
  rw [he]
  split <;> rfl

/-- With references on these blocks. -/
def Account.oweAll (a : Account) (bs : List BlockId) : Account := bs.foldl owe a

theorem Account.oweAll_eq (a : Account) (bs : List BlockId) :
    a.oweAll bs = { a with owed := fun b => a.owed b + bs.count b } := by
  induction bs generalizing a with
  | nil => rfl
  | cons c bs ih =>
    refine (ih (a.owe c)).trans (Account.ext rfl rfl (funext fun b => ?_) rfl rfl rfl)
    have hc : (if c == b then 1 else 0) = if b = c then 1 else 0 :=
      if_congr (beq_iff_eq.trans eq_comm) rfl rfl
    simp only [owed_owe, List.count_cons, hc]
    omega

theorem Account.oweAll_owe (a : Account) (b : BlockId) (bs : List BlockId) :
    (a.owe b).oweAll bs = (a.oweAll bs).owe b := by
  simp only [oweAll_eq, owe, Nat.add_right_comm]

theorem Account.oweAll_with_adrift (a : Account) (bs cs : List BlockId) :
    ({ a with adrift := cs } : Account).oweAll bs = { a.oweAll bs with adrift := cs } := by
  simp only [oweAll_eq]

namespace Kernel

variable {k : Kernel} {a : Account}

/-! ### Children -/

theorem Sound.holdChild (h : k.Sound a) {parent pid : Pid} {c : BlockId}
    (hl : k.pids.lookup pid = some c) (hp : (k.block c).parent = some parent)
    (held : List BlockId) :
    Kernel.holdChild parent (held, k) pid = (c :: held, k.update c .retained) := by
  have hz : (k.blocks.get c).refCount ≠ 0 := h.counted.counted hl
  have hq : k.Quiet (k.update c .retained) := .of_update c _ fun _ => rfl
  have hget : k.pids.getRetained k.blocks pid = some (c, k.blocks.update c .retained) := by
    unfold PidMap.getRetained BlockStore.tryRetain
    rw [hl, Option.bind_some, if_neg hz]
    rfl
  unfold Kernel.holdChild
  simp only [hget]
  rw [if_pos]
  · rfl
  · exact (hq.parent c).trans hp

/-- Holding children one after the other. -/
theorem Sound.holdChildren_foldl {parent : Pid} (pids : List Pid) {k : Kernel} {a : Account}
    (h : k.Sound a) (hc : ∀ p ∈ pids, ∃ c, k.pids.lookup p = some c ∧
      (k.block c).parent = some parent) (held : List BlockId) :
    ∃ k', pids.foldl (Kernel.holdChild parent) (held, k) =
        ((pids.filterMap k.pids.lookup).reverse ++ held, k') ∧
      k'.Sound (a.oweAll (pids.filterMap k.pids.lookup)) ∧ k.Quiet k' := by
  induction pids generalizing k a held with
  | nil => exact ⟨k, rfl, h, .refl k⟩
  | cons p pids ih =>
    obtain ⟨c, hl, hp⟩ := hc p List.mem_cons_self
    have hq : k.Quiet (k.update c .retained) := .of_update c _ fun _ => rfl
    obtain ⟨k', hk, hs, hq'⟩ := ih (h.retained hl)
      (fun p hm => by
        obtain ⟨d, hd, hdp⟩ := hc p (List.mem_cons_of_mem _ hm)
        exact ⟨d, hd, by rw [hq.parent]; exact hdp⟩) (c :: held)
    refine ⟨k', ?_, ?_, hq.trans hq'⟩
    · rw [List.foldl_cons, h.holdChild hl hp, hk, List.filterMap_cons_some hl]
      simp only [List.reverse_cons, List.append_assoc, List.singleton_append]
      rfl
    · rw [List.filterMap_cons_some hl]
      exact hs

/-- A child that is reaped need not be moved on. -/
theorem Sound.settle_reaped (h : k.Sound a) {c : BlockId} (hx : (k.block c).reaped = true) :
    k.Sound (a.settle c) := by
  refine ⟨h.placed.congr rfl rfl rfl rfl (fun _ => rfl) rfl,
    h.counted.congr rfl rfl (fun _ => ⟨rfl, rfl, rfl⟩) rfl rfl, h.ordered,
    { h.kindred with adrift := ?_, adrift_nodup := ?_, kin := ?_ }⟩
  · exact fun b hb => h.kindred.adrift b (List.mem_of_mem_erase hb)
  · exact h.kindred.adrift_nodup.sublist (List.erase_sublist.map _)
  · intro b q p hb hh hd hr
    have hbc : b ≠ c := by
      rintro rfl
      exact Bool.false_ne_true (hr.symm.trans hx)
    exact h.kindred.kin hb hh (fun hm => hd ((List.mem_erase_of_ne hbc).2 hm)) hr

theorem Sound.rehome (h : k.Sound a) {c : BlockId} (hc : c ∈ a.adrift) :
    (k.rehome c).Sound (a.settle c) ∧ (k.update c Block.rehomed).Quiet (k.rehome c) := by
  obtain ⟨hh, hl, q, hq, hqe⟩ := h.kindred.adrift c hc
  have hlt := (h.kindred.born hq).2
  unfold Kernel.rehome
  cases he : (k.block c).exited with
  | false =>
    have hx : (k.block c).reaped = false := Bool.eq_false_iff.2 fun hr =>
      Bool.false_ne_true (he.symm.trans (h.ordered.exited c hr))
    have hpids : ∀ x ∈ a.adrift, x ≠ c → (k.block x).pid ≠ (k.block c).pid :=
      fun x hx hne hp =>
        hne (List.inj_on_of_nodup_map h.kindred.adrift_nodup hx hc hp)
    have hs := h.attach hq hl hx (by rw [h.ordered.root_pid]; exact h.lookup_root)
      (Or.inr ⟨rfl, hqe⟩) hpids
    rw [Account.land_of_not_mem hh] at hs
    refine ⟨hs, Quiet.trans ⟨by simp only [size_update], fun x => ?_⟩ (quiet_attach hl)⟩
    rw [block_update, block_update]
    split
    · next hxc =>
      rw [h.ordered.root_pid, Block.rehomed, hxc.1, if_neg (he ▸ Bool.false_ne_true)]
      rfl
    · rfl
  | true =>
    cases hr : (k.block c).reaped with
    | false =>
      have hs := h.reap (f := Block.collected)
        (Block.rises_collected (h.ordered.exiting c he) he) hq hr rfl
      rw [Account.land_of_not_mem hh] at hs
      refine ⟨hs.release.settle_reaped ?_, Quiet.trans ⟨by simp only [size_update], fun x => ?_⟩
        (quiet_release ..)⟩
      · rw [(quiet_release ..).reaped, block_update_self hlt]
        rfl
      · rw [block_update, block_update]
        split
        · next hxc => rw [Block.rehomed, hxc.1, he]; rfl
        · rfl
    | true =>
      refine ⟨h.settle_reaped hr, ⟨size_update .. |>.symm, fun x => ?_⟩⟩
      change (k.block x).core = _
      rw [block_update]
      split
      · next hxc =>
        rw [Block.rehomed, hxc.1, if_pos he]
        have hsame : { k.block c with reaped := true } = k.block c := by rw [← hr]
        rw [hsame]
      · rfl

/-- Moving on all the children that are adrift. -/
theorem Sound.rehome_foldl (cs : List BlockId) {k : Kernel} {a : Account} (h : k.Sound a)
    (ha : a.adrift = cs) :
    (cs.foldl Kernel.rehome k).Sound { a with adrift := [] } ∧
      (cs.foldl Kernel.rehome k).blocks.size = k.blocks.size ∧
      ∀ x, ((cs.foldl Kernel.rehome k).block x).core =
        (if x ∈ cs then (k.block x).rehomed else k.block x).core := by
  induction cs generalizing k a with
  | nil =>
    have he : ({ a with adrift := [] } : Account) = a := by rw [← ha]
    rw [he]
    refine ⟨h, rfl, fun x => ?_⟩
    rw [if_neg List.not_mem_nil]
    rfl
  | cons c cs ih =>
    have hc : c ∈ a.adrift := ha ▸ List.mem_cons_self
    obtain ⟨q, hq, _⟩ := (h.kindred.adrift c hc).2.2
    have hlt := (h.kindred.born hq).2
    have hnot : c ∉ cs := by
      have hn : (c :: cs).Nodup := ha ▸ h.kindred.adrift_nodup.of_map _
      exact (List.nodup_cons.1 hn).1
    obtain ⟨hs, hquiet⟩ := h.rehome hc
    obtain ⟨hs', hsize, hcore⟩ := ih hs (by simp [Account.settle, ha])
    refine ⟨hs', hsize.trans (hquiet.size.trans (size_update ..)), fun x => ?_⟩
    have hx : ((k.rehome c).block x).core =
        (if x = c then (k.block x).rehomed else k.block x).core := by
      rw [hquiet.core, block_update]
      simp only [hlt, and_true]
    rw [List.foldl_cons, hcore]
    by_cases hxc : x = c
    · rw [if_pos hxc] at hx
      rw [if_neg (hxc ▸ hnot), if_pos (hxc ▸ List.mem_cons_self), hx]
    · rw [if_neg hxc] at hx
      by_cases hm : x ∈ cs
      · rw [if_pos hm, if_pos (List.mem_cons_of_mem _ hm), Block.core_rehomed, hx,
          Block.core_rehomed]
      · rw [if_neg hm, if_neg fun hm' => (List.mem_cons.1 hm').elim hxc hm, hx]

/-- Letting go of all the children that are held. -/
theorem Sound.release_foldl (cs : List BlockId) {k : Kernel} (h : k.Sound (a.oweAll cs)) :
    (cs.foldl (fun k b => (k.release b).2) k).Sound a ∧
      k.Quiet (cs.foldl (fun k b => (k.release b).2) k) := by
  induction cs generalizing k with
  | nil => exact ⟨h, .refl k⟩
  | cons c cs ih =>
    have hc : k.Sound ((a.oweAll cs).owe c) := Account.oweAll_owe a c cs ▸ h
    obtain ⟨hs, hq⟩ := ih hc.release
    exact ⟨hs, (quiet_release k c).trans hq⟩

/-- The children of an exiting process are reaped or come under the kernel; no
other block changes. -/
theorem Sound.rearrangeChildren (h : k.Sound a) (ha : a.adrift = []) {b : BlockId}
    (hb : b ≠ root) (hi : k.pids.lookup (k.block b).pid = some b)
    (he : (k.block b).exiting = true) :
    (k.rearrangeChildren (k.block b).pid).Sound a ∧
      (k.rearrangeChildren (k.block b).pid).blocks.size = k.blocks.size ∧
      ∀ x, ((k.rearrangeChildren (k.block b).pid).block x).core =
        (if x ∈ k.childBlocks (k.block b).pid then (k.block x).rehomed else k.block x).core := by
  have hchildren : ∀ p ∈ k.family.childrenOf (k.block b).pid, ∃ c, k.pids.lookup p = some c ∧
      (k.block c).parent = some (k.block b).pid := fun p hp => by
    obtain ⟨c, _, hc, _, hpar, _⟩ := h.kindred.linked ((h.kindred.family.mirror p _).2 hp)
    exact ⟨c, hc, hpar⟩
  obtain ⟨k₁, hk, hs₁, hq₁⟩ := (h.detach ha hb hi he).holdChildren_foldl
    (k.family.childrenOf (k.block b).pid) hchildren []
  have hheld : k.holdChildren (k.block b).pid = (k.childBlocks (k.block b).pid, k₁) := by
    unfold Kernel.holdChildren
    simp only [hk, List.append_nil, List.reverse_reverse]
    rfl
  change k₁.Sound (Account.oweAll _ (k.childBlocks _)) at hs₁
  rw [Account.oweAll_with_adrift] at hs₁
  obtain ⟨hs₂, hsize₂, hcore₂⟩ := hs₁.rehome_foldl _ rfl
  have hadrift : ({ a.oweAll (k.childBlocks (k.block b).pid) with adrift := [] } : Account) =
      a.oweAll (k.childBlocks (k.block b).pid) := by
    rw [← Account.oweAll_with_adrift, ← ha]
  obtain ⟨hs₃, hq₃⟩ := Sound.release_foldl _ (hadrift ▸ hs₂)
  unfold Kernel.rearrangeChildren
  simp only [hheld]
  refine ⟨hs₃, hq₃.size.trans (hsize₂.trans hq₁.size), fun x => ?_⟩
  have hx : (k₁.block x).core = (k.block x).core := hq₁.core x
  rw [hq₃.core, hcore₂]
  split
  · rw [Block.core_rehomed, hx, Block.core_rehomed]
  · exact hx

/-! ### Publishing -/

/-- The status of an exiting process is published, or its block is given up. -/
theorem Sound.publishExit (h : k.Sound a) {b q : BlockId} (hq : a.forker b = some q)
    (hh : b ∉ a.half) (he : (k.block b).exiting = true) (hr : (k.block b).reaped = false)
    (status : RawStatus) : ∃ k',
    k.publishExit b status = (if (k.block b).parent = some kernelPid ∧
        (k.block b).waiter = false then ExitPath.reaped else ExitPath.zombie, k') ∧
      k'.Sound a ∧ (k.update b (Block.departed · status)).Quiet k' := by
  have hlt := (h.kindred.born hq).2
  have hs := h.rise (f := (Block.published · status)) (Block.rises_published he status) rfl
    fun _ => ⟨hh, q, hq⟩
  have hblock : (k.update b (Block.published · status)).block b =
      (k.block b).published status := block_update_self hlt _
  have hfold : (fun x : Block => { x with exited := true, code := status }) =
      (Block.published · status) := rfl
  unfold Kernel.publishExit
  simp only [hfold]
  rw [hblock, show ((k.block b).published status).parent = (k.block b).parent from rfl,
    show ((k.block b).published status).waiter = (k.block b).waiter from rfl]
  split
  · next hc =>
    have hrise : ((k.update b (Block.published · status)).block b).Rises
        ((k.update b (Block.published · status)).block b).collected := by
      rw [hblock]
      exact Block.rises_collected he rfl
    have hs' := hs.reap (f := Block.collected) hrise hq (by rw [hblock]; exact hr) rfl
    rw [Account.land_of_not_mem hh] at hs'
    refine ⟨_, rfl, (hs'.of_table (table_detachThread ..)).release, ?_⟩
    refine Quiet.trans ?_ ((Quiet.of_table (table_detachThread ..)).trans (quiet_release ..))
    refine Quiet.trans (Quiet.of_update_eq ?_) (Quiet.of_update_update k b
      (Block.published · status) Block.collected)
    simp only [Block.departed, Block.published, Block.collected, hc, he, and_self, decide_true]
  · next hc =>
    refine ⟨_, rfl, hs.of_table (table_detachThread ..), ?_⟩
    refine Quiet.trans (Quiet.of_update_eq ?_) (Quiet.of_table (table_detachThread ..))
    simp only [Block.departed, Block.published, hc, he, hr, decide_false]

/-! ### The whole exit -/

/-- How an exit changes each block. -/
def departure (k : Kernel) (b : BlockId) (status : RawStatus) (x : BlockId) : Block :=
  if x = b then (k.block x).departed status
  else if x ∈ k.childBlocks (k.block b).pid then (k.block x).rehomed
  else k.block x

/-- The cases of it: the process departs, its children that have exited are reaped, those that run
come under the kernel, and the other blocks stay as they are. -/
inductive Becomes (k : Kernel) (b : BlockId) (status : RawStatus) (x : BlockId) : Block → Prop
  | departed (self : x = b) : Becomes k b status x ((k.block x).departed status)
  | reaped (other : x ≠ b) (child : x ∈ k.childBlocks (k.block b).pid)
      (exited : (k.block x).exited = true) : Becomes k b status x (k.block x).collected
  | adopted (other : x ≠ b) (child : x ∈ k.childBlocks (k.block b).pid)
      (running : (k.block x).exited = false) :
      Becomes k b status x { k.block x with parent := some kernelPid }
  | kept (other : x ≠ b) (apart : x ∉ k.childBlocks (k.block b).pid) :
      Becomes k b status x (k.block x)

theorem becomes (k : Kernel) (b : BlockId) (status : RawStatus) (x : BlockId) :
    k.Becomes b status x (k.departure b status x) := by
  unfold departure
  split
  · next hx => exact .departed hx
  · next hx =>
    split
    · next hm =>
      unfold Block.rehomed
      split
      · next he => exact .reaped hx hm he
      · next he => exact .adopted hx hm (Bool.eq_false_iff.2 he)
    · next hm => exact .kept hx hm

theorem departure_self (k : Kernel) (b : BlockId) (status : RawStatus) :
    k.departure b status b = (k.block b).departed status :=
  if_pos rfl

theorem departure_pid (k : Kernel) (b : BlockId) (status : RawStatus) (x : BlockId) :
    (k.departure b status x).pid = (k.block x).pid := by
  have hx := k.becomes b status x
  generalize k.departure b status x = y at hx ⊢
  cases hx <;> rfl

theorem departure_waiter (k : Kernel) (b : BlockId) (status : RawStatus) (x : BlockId) :
    (k.departure b status x).waiter = (k.block x).waiter := by
  have hx := k.becomes b status x
  generalize k.departure b status x = y at hx ⊢
  cases hx <;> rfl

theorem departure_exiting_of_ne {b x : BlockId} (hx : x ≠ b) (k : Kernel) (status : RawStatus) :
    (k.departure b status x).exiting = (k.block x).exiting := by
  have hd := k.becomes b status x
  generalize k.departure b status x = y at hd ⊢
  cases hd with
  | departed self => exact absurd self hx
  | _ => rfl

theorem departure_exited_of_ne {b x : BlockId} (hx : x ≠ b) (k : Kernel) (status : RawStatus) :
    (k.departure b status x).exited = (k.block x).exited := by
  have hd := k.becomes b status x
  generalize k.departure b status x = y at hd ⊢
  cases hd with
  | departed self => exact absurd self hx
  | _ => rfl

theorem departure_reaped_of_ne {b x : BlockId} (hx : x ≠ b) {k : Kernel} (status : RawStatus)
    (hr : (k.block x).reaped = true) : (k.departure b status x).reaped = true := by
  have hd := k.becomes b status x
  generalize k.departure b status x = y at hd ⊢
  cases hd with
  | departed self => exact absurd self hx
  | reaped => rfl
  | _ => exact hr

/-- An exit brings a block under the kernel, or leaves its parent. -/
theorem departure_parent (k : Kernel) (b : BlockId) (status : RawStatus) (x : BlockId) :
    (k.departure b status x).parent = (k.block x).parent ∨
      (k.departure b status x).parent = some kernelPid := by
  have hx := k.becomes b status x
  generalize k.departure b status x = y at hx ⊢
  cases hx with
  | adopted => exact Or.inr rfl
  | _ => exact Or.inl rfl

/-- How a process leaves: reaped if it is the kernel's and has no waiter. -/
def exitPath (k : Kernel) (b : BlockId) : ExitPath :=
  if (k.block b).parent = some kernelPid ∧ (k.block b).waiter = false then .reaped else .zombie

/-- No process is its own child. -/
theorem Sound.not_mem_childBlocks (h : k.Sound a) {b : BlockId} (hb : b ≠ root) :
    b ∉ k.childBlocks (k.block b).pid := by
  intro hm
  obtain ⟨hi, hl⟩ := h.mem_childBlocks.1 hm
  obtain ⟨c, q, hc, hq, _, hor⟩ := h.kindred.linked hl
  rw [hi] at hc hq
  obtain rfl := Option.some.inj hc
  obtain rfl := Option.some.inj hq
  exact absurd (h.kindred.born (hor.resolve_left hb)).1 (Nat.lt_irrefl _)

theorem Sound.beginExit (h : k.Sound a) {b q : BlockId} (hq : a.forker b = some q)
    (hi : k.pids.lookup (k.block b).pid = some b) (he : (k.block b).exiting = false) :
    k.beginExit b = k.update b .leaving := by
  have hk : (k.block b).isKernel = false := by
    have hne := h.pid_ne_kernelPid hi (h.ne_root_of_forker hq)
    simpa [Block.isKernel] using hne
  simp only [Kernel.beginExit, hk, he, Bool.false_eq_true, if_false]
  rfl

theorem Sound.exit (h : k.Sound a) (ha : a.adrift = []) {pid : Pid} {b q : BlockId}
    (hl : k.pids.lookup pid = some b) (hq : a.forker b = some q) (hh : b ∉ a.half)
    (he : (k.block b).exiting = false) (status : RawStatus) : ∃ k',
    k.exit pid status = (some (k.exitPath b), k') ∧ k'.Sound a ∧
      k'.blocks.size = k.blocks.size ∧
      ∀ x, (k'.block x).core = (k.departure b status x).core := by
  obtain ⟨hlt, _⟩ := h.placed.own hl
  have hi := h.lookup_of_installed hl
  have hroot := h.ne_root_of_forker hq
  have hr := h.reaped_of_not_exiting he
  -- the process is held and begins to exit
  have hq₁ : k.Quiet (k.update b .retained) := .of_update b _ fun _ => rfl
  have hs₁ := h.retained hl
  have hi₁ : (k.update b .retained).pids.lookup ((k.update b .retained).block b).pid = some b := by
    rw [hq₁.pid]
    exact hi
  have he₁ : ((k.update b .retained).block b).exiting = false := (hq₁.exiting b).trans he
  have hbegin := hs₁.beginExit hq hi₁ he₁
  have hs₂ := hs₁.rise (f := Block.leaving) (Block.rises_leaving (hs₁.ordered.exited b)) rfl
    fun _ => ⟨hh, q, hq⟩
  have hq₂ := hq₁.update b (f := Block.leaving) fun _ => rfl
  have hpid : ((k.update b .retained).block b).pid = (k.block b).pid := hq₁.pid b
  have hchildren : ((k.update b .retained).update b .leaving).childBlocks (k.block b).pid =
      k.childBlocks (k.block b).pid := rfl
  have hi₂ : ((k.update b .retained).update b .leaving).pids.lookup (k.block b).pid = some b := hi
  have hcore₂ : ∀ x, (((k.update b .retained).update b .leaving).block x).core =
      (if x = b then (k.block x).leaving else k.block x).core := fun x => by
    rw [hq₂.core, block_update]
    simp only [hlt, and_true]
  generalize (k.update b .retained).update b .leaving = k₂ at *
  have hb₂ : (k₂.block b).core = (k.block b).leaving.core := (hcore₂ b).trans (by rw [if_pos rfl])
  have hpid₂ : (k₂.block b).pid = (k.block b).pid := (Block.pid_of_core hb₂ :)
  -- its children are handed on
  obtain ⟨hs₃, hsize₃, hcore₃⟩ := hs₂.rearrangeChildren ha hroot (by rw [hpid₂]; exact hi₂)
    (Block.exiting_of_core hb₂)
  rw [hpid₂] at hs₃ hsize₃ hcore₃
  rw [hchildren] at hcore₃
  have hb₃ : ((k₂.rearrangeChildren (k.block b).pid).block b).core = (k.block b).leaving.core := by
    rw [hcore₃, if_neg (h.not_mem_childBlocks hroot)]
    exact hb₂
  -- its status is published and it is let go of
  obtain ⟨k₄, hk₄, hs₄, hq₄⟩ := hs₃.publishExit hq hh (Block.exiting_of_core hb₃)
    ((Block.reaped_of_core hb₃).trans hr) status
  have hpar : ((k₂.rearrangeChildren (k.block b).pid).block b).parent = (k.block b).parent :=
    (Block.parent_of_core hb₃ :)
  have hwait : ((k₂.rearrangeChildren (k.block b).pid).block b).waiter = (k.block b).waiter :=
    (Block.waiter_of_core hb₃ :)
  rw [hpar, hwait] at hk₄
  refine ⟨(k₄.release b).2, ?_, hs₄.release, ?_, fun x => ?_⟩
  · exact exit_of_found (h.found hl) (by rw [hbegin]; exact hk₄)
  · rw [(quiet_release k₄ b).size, hq₄.size, size_update, hsize₃, hq₂.size, size_update]
  · rw [(quiet_release k₄ b).core, hq₄.core, block_update, departure]
    by_cases hx : x = b
    · subst hx
      have hdepart : ∀ y : Block, (y.departed status).core = y.core.departed status :=
        fun _ => rfl
      rw [if_pos ⟨rfl, by rw [hsize₃, hq₂.size, size_update]; exact hlt⟩, if_pos rfl, hdepart,
        hb₃]
      rfl
    · rw [if_neg fun hc => hx hc.1, if_neg hx, hcore₃]
      have hx₂ := hcore₂ x
      rw [if_neg hx] at hx₂
      split
      · rw [Block.core_rehomed, hx₂, Block.core_rehomed]
      · exact hx₂

/-- The call that ends the thread as well comes to the same. -/
theorem Sound.exitThread (h : k.Sound a) (ha : a.adrift = []) {pid : Pid} {b q : BlockId}
    (hl : k.pids.lookup pid = some b) (hq : a.forker b = some q) (hh : b ∉ a.half)
    (he : (k.block b).exiting = false) (status : ExitStatus) : ∃ k',
    k.exitThread pid status = (some (k.exitPath b), k') ∧ k'.Sound a ∧
      k'.blocks.size = k.blocks.size ∧
      ∀ x, (k'.block x).core = (k.departure b status.encode x).core := by
  obtain ⟨k₁, hk₁, hs₁, hsize, hcore⟩ := h.exit ha hl hq hh he status.encode
  have ht := table_terminateThread k₁ (k.block b).task
  refine ⟨k₁.terminateThread (k.block b).task, ?_, hs₁.of_table ht, hsize, fun x => ?_⟩
  · rw [exitThread_of_found (h.found hl), hk₁]
  · rw [block_eq_of_table ht]
    exact hcore x

end Kernel

end Lifecycle
