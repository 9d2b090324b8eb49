import Lifecycle.Proofs.Kernel.Intact
import Lifecycle.Proofs.Session.History

/-! Every operation of a live table leaves it intact, with the pids that forks and creations
still under way have taken. -/

namespace Lifecycle

/-- The pids taken for blocks that a fork or creation still under way is to make. -/
def Progress.reserved : Progress → List Pid
  | .stopped pending => pending.reserved?.toList
  | _ => []

/-- The blocks of a stopped fork are among the first `n`. -/
def Pending.Below (n : Nat) (pending : Pending) : Prop :=
  (∀ b, pending.parent? = some b → b < n) ∧ ∀ c, pending.child? = some c → c < n

/-- A fork that has a child needs no pid any more. -/
theorem Pending.reserved?_of_child {pending : Pending} {child : BlockId}
    (hc : pending.child? = some child) : pending.reserved? = none := by
  cases pending with
  | create pid name => cases hc
  | forkTask parent pid => cases hc
  | _ => rfl

namespace Kernel

variable {k : Kernel} {r : List Pid}

/-- A fork that goes on has its blocks in the table, if it had them there before. -/
theorem below_resume {pending next : Pending} {refusal : Option Errno}
    (hb : pending.Below k.blocks.size) (hn : (k.resume pending refusal).1 = .stopped next) :
    next.Below (k.resume pending refusal).2.blocks.size := by
  have hr := k.resumption pending refusal
  obtain ⟨hparent, hchild⟩ := hr.next next hn
  refine ⟨fun b hp => Nat.lt_of_lt_of_le (hb.1 b (hparent ▸ hp)) hr.size, fun c hc => ?_⟩
  rcases hchild with hsame | ⟨hnew, hlt⟩
  · exact Nat.lt_of_lt_of_le (hb.2 c (hsame ▸ hc)) hr.size
  · rw [hnew] at hc
    exact Option.some.inj hc ▸ hlt

/-! ### Beginning and resuming -/

theorem Intact.beginCreate (h : k.Intact r) (name : String) :
    (k.beginCreate name).2.Intact ((k.beginCreate name).1.reserved ++ r) := by
  unfold Kernel.beginCreate
  rcases h.reserve with ⟨-, he⟩ | ⟨-, p, m, he, hm⟩
  · rw [he]
    exact h
  · rw [he]
    exact hm

theorem Intact.endFork (h : k.Intact r) (parent : BlockId) (progress : Progress) :
    (k.endFork parent progress).2.Intact r :=
  h.release parent

theorem Intact.beginFork (h : k.Intact r) (pid : Pid) :
    (k.beginFork pid).2.Intact ((k.beginFork pid).1.reserved ++ r) ∧
      ∀ next, (k.beginFork pid).1 = .stopped next →
        next.Below (k.beginFork pid).2.blocks.size := by
  have hb := k.beginsFork pid
  generalize k.beginFork pid = out at hb ⊢
  cases hb with
  | refused => exact ⟨h, fun next hn => by cases hn⟩
  | @full parent _ _ found reserve =>
    have hi := h.alike (.retained found.counted)
    rcases hi.reserve with ⟨-, he⟩ | ⟨-, p, m, he, -⟩
    · cases he.symm.trans reserve
      exact ⟨hi.endFork parent _, fun next hn => by cases hn⟩
    · cases he.symm.trans reserve
  | @begun parent _ _ found reserve =>
    have hi := h.alike (.retained found.counted)
    rcases hi.reserve with ⟨-, he⟩ | ⟨-, p, m, he, hm⟩
    · cases he.symm.trans reserve
    · cases he.symm.trans reserve
      refine ⟨hm, fun next hn => ?_⟩
      cases hn
      refine ⟨fun c hc => ?_, fun c hc => by cases hc⟩
      cases hc
      exact (size_update ..).symm ▸ found.lt

theorem Intact.abandon (h : k.Intact r) (child : BlockId) : (k.abandon child).Intact r := by
  have ha : k.Alike (k.update child Block.unwound) :=
    .of_update child _ fun _ => ⟨rfl, rfl, rfl, rfl⟩
  exact (h.alike ha).release child

theorem Intact.linkChild (h : k.Intact r) {parent child : BlockId}
    (hc : k.pids.lookup (k.block child).pid = some child)
    (hp : k.pids.lookup (k.block parent).pid = some parent) :
    (k.linkChild parent child).2.Intact ((k.linkChild parent child).1.reserved ++ r) := by
  have hl := k.links parent child
  generalize k.linkChild parent child = out at hl ⊢
  cases hl with
  | unwound => exact (h.abandon child).endFork parent _
  | attached => exact (h.attach hc (Or.inr hp)).alike (.attachThread ..)

theorem Intact.of_child {pending : Pending} (h : k.Intact (pending.reserved?.toList ++ r))
    {child : BlockId} (hc : pending.child? = some child) : k.Intact r := by
  rwa [Pending.reserved?_of_child hc] at h

theorem Intact.unwind (h : k.Intact r) (child parent : BlockId) (progress : Progress) :
    ((k.abandon child).endFork parent progress).2.Intact r :=
  (h.abandon child).endFork parent progress

theorem Intact.resume {pending : Pending} (h : k.Intact (pending.reserved?.toList ++ r))
    (hb : pending.Below k.blocks.size) (refusal : Option Errno) :
    (k.resume pending refusal).2.Intact ((k.resume pending refusal).1.reserved ++ r) := by
  have hr := k.resumes pending refusal
  generalize k.resume pending refusal = out at hr ⊢
  cases hr with
  | uncreated made => exact Intact.make (r := r) h made
  | created made => exact Intact.make (r := r) h made
  | unborn made => exact (Intact.make (r := r) h made).endFork _ _
  | born made => exact Intact.make (r := r) h made
  | unwound held flight refused =>
    exact ((h.of_child flight).alike refused.called.alike).unwind _ _ _
  | copied space => exact h.alike (Called.space space).alike
  | @linked parent child _ files =>
    have ha := (Called.files files).alike
    obtain ⟨-, ⟨_, source⟩, ⟨_, target⟩⟩ := tasks_of_cloneFdTable files
    have hchild := h.lookup_of_task (hb.2 child rfl) target
    have hparent := h.lookup_of_task (hb.1 parent rfl) source
    refine (h.alike ha).linkChild ?_ ?_
    · rw [ha.pids, ha.pid]
      exact hchild
    · rw [ha.pids, ha.pid]
      exact hparent
  | complete spawned => exact (h.alike (Called.spawn spawned).alike).endFork _ _

/-! ### Waiting -/

/-- Consuming a status gives two references back. -/
theorem collect_eq (k : Kernel) (b : BlockId) : k.collect b =
    (.ok ((k.block b).pid, (k.block b).code),
      (((k.update b Block.collected).release b).2.release b).2) :=
  rfl

theorem Intact.collect (h : k.Intact r) (b : BlockId) : ∃ result k',
    k.collect b = (result, k') ∧ k'.Intact r ∧ k'.blocks.size = k.blocks.size := by
  have ha : k.Alike (k.update b Block.collected) :=
    .of_update b _ fun _ => ⟨rfl, rfl, rfl, rfl⟩
  have hq := (quiet_release (k.update b Block.collected) b).trans (quiet_release _ b)
  rw [collect_eq]
  exact ⟨_, _, rfl, ((h.alike ha).release b).release b, hq.size.trans (size_update ..)⟩

theorem Intact.wake (h : k.Intact r) (b : BlockId) : (k.wake b).2.Intact r := by
  unfold Kernel.wake
  split
  · exact h.release b
  · obtain ⟨result, k', hk, hi, -⟩ := h.collect b
    rw [hk]
    exact hi

theorem Found.alike {pid : Pid} {b : BlockId} (h : k.Found pid b) :
    k.Alike ((k.update b .retained).update b .committed) :=
  (Alike.retained h.counted).trans (.of_update b _ fun _ => ⟨rfl, rfl, rfl, rfl⟩)

theorem Intact.wait (h : k.Intact r) (caller : Pid) (target : Int64) (options : Int32) :
    (k.wait caller target options).2.Intact r ∧
      ∀ b, (k.wait caller target options).1 = .asleep b →
        b < (k.wait caller target options).2.blocks.size := by
  have hw := k.asks caller target options
  generalize k.wait caller target options = out at hw ⊢
  cases hw with
  | refused => exact ⟨h, fun b hb => by cases hb⟩
  | @collected _ b named found =>
    obtain ⟨result, k', hk, hi, -⟩ := (h.alike found.alike).collect b
    rw [hk]
    exact ⟨hi, fun c hc => by cases hc⟩
  | @asleep _ b named found =>
    refine ⟨h.alike found.alike, fun c hc => ?_⟩
    cases hc
    rw [size_update, size_update]
    exact found.lt

/-! ### Exiting -/

/-- Giving a reference on one block back does not change the count of another. -/
theorem refCount_release_of_ne {b c : BlockId} (hc : c ≠ b) :
    ((k.release b).2.block c).refCount = (k.block c).refCount := by
  have hreleased : ((k.update b .released).block c).refCount = (k.block c).refCount := by
    rw [block_update_of_ne hc]
  rw [release_eq]
  split
  · simp only [destroy, refCount_discardTaskOf]
    refine Eq.trans ?_ hreleased
    unfold freePid
    split <;> rfl
  · exact hreleased

theorem Intact.holdChild (h : k.Intact r) (parent pid : Pid) (held : List BlockId) :
    (k.pids.lookup pid = none ∧ Kernel.holdChild parent (held, k) pid = (held, k)) ∨
      ∃ b k', k.pids.lookup pid = some b ∧ Kernel.holdChild parent (held, k) pid = (b :: held, k') ∧
        (k' = k.update b .retained ∨ ∃ fault, k' = (k.update b .retained).halt fault) := by
  unfold Kernel.holdChild PidMap.getRetained
  cases hl : k.pids.lookup pid with
  | none => exact Or.inl ⟨rfl, rfl⟩
  | some b =>
    have hz : (k.blocks.get b).refCount ≠ 0 := h.counted hl
    simp only [Option.bind_some, BlockStore.tryRetain, if_neg hz, Option.map_some]
    refine Or.inr ⟨b, _, rfl, rfl, ?_⟩
    split
    · exact Or.inl rfl
    · exact Or.inr ⟨_, rfl⟩

/-- The children held are distinct, and each has a reference besides that of its holder. -/
theorem Intact.holdChildren_foldl (parent : Pid) (pids : List Pid) {k : Kernel}
    (h : k.Intact r) {held : List BlockId} (hp : pids.Nodup) (hn : held.Nodup)
    (hh : ∀ b ∈ held, 2 ≤ (k.block b).refCount ∧ (k.block b).pid ∉ pids) :
    (pids.foldl (Kernel.holdChild parent) (held, k)).2.Intact r ∧
      (pids.foldl (Kernel.holdChild parent) (held, k)).1.Nodup ∧
      ∀ b ∈ (pids.foldl (Kernel.holdChild parent) (held, k)).1,
        2 ≤ ((pids.foldl (Kernel.holdChild parent) (held, k)).2.block b).refCount := by
  induction pids generalizing k held with
  | nil => exact ⟨h, hn, fun b hb => (hh b hb).1⟩
  | cons pid pids ih =>
    obtain ⟨hpid, hp⟩ := List.nodup_cons.1 hp
    rw [List.foldl_cons]
    rcases h.holdChild parent pid held with ⟨-, he⟩ | ⟨b, k', hl, he, hk⟩
    · rw [he]
      refine ih h hp hn fun c hc => ?_
      obtain ⟨hcount, hnot⟩ := hh c hc
      exact ⟨hcount, fun hm => hnot (List.mem_cons_of_mem _ hm)⟩
    · obtain ⟨hlt, hown⟩ := h.own hl
      have hz := h.counted hl
      have hupdate := h.alike (.retained hz)
      have hi : k'.Intact r := by
        rcases hk with rfl | ⟨fault, rfl⟩
        · exact hupdate
        · exact hupdate.alike (.halt ..)
      have hblock : ∀ c, k'.block c = (k.update b .retained).block c := by
        rcases hk with rfl | ⟨fault, rfl⟩ <;> exact fun _ => rfl
      have hself : (k'.block b).refCount = (k.block b).refCount + 1 := by
        rw [hblock, block_update_self hlt]
        rfl
      have hpids : ∀ c, (k'.block c).pid = (k.block c).pid := fun c => by
        rw [hblock, view_update Block.pid rfl]
      -- a block that is held already has another pid
      have hnew : b ∉ held := fun hm => (hh b hm).2 (by rw [hown]; exact List.mem_cons_self)
      rw [he]
      refine ih hi hp (List.nodup_cons.2 ⟨hnew, hn⟩) fun c hc => ?_
      rw [hpids]
      rcases List.mem_cons.1 hc with rfl | hc
      · rw [hself, hown]
        exact ⟨by omega, hpid⟩
      · obtain ⟨hcount, hnot⟩ := hh c hc
        have hcb : c ≠ b := fun hcb => hnew (hcb ▸ hc)
        rw [hblock, block_update_of_ne hcb]
        exact ⟨hcount, fun hm => hnot (List.mem_cons_of_mem _ hm)⟩

theorem Intact.holdChildren (h : k.Intact r) (parent : Pid) :
    (k.holdChildren parent).2.Intact r ∧ (k.holdChildren parent).1.Nodup ∧
      ∀ b ∈ (k.holdChildren parent).1,
        2 ≤ ((k.holdChildren parent).2.block b).refCount := by
  obtain ⟨hi, hn, hc⟩ := (h.detach parent).holdChildren_foldl parent
    (k.family.childrenOf parent) (h.family.nodup parent) List.nodup_nil (by simp)
  unfold Kernel.holdChildren
  refine ⟨hi, List.nodup_reverse.2 hn, fun b hb => hc b (List.mem_reverse.1 hb)⟩

/-- Moving a child on, which its holder keeps installed. -/
theorem Intact.rehome (h : k.Intact r) {child : BlockId} (hz : (k.block child).refCount ≠ 0) :
    (k.rehome child).Intact r ∧
      ∀ c ≠ child, ((k.rehome child).block c).refCount = (k.block c).refCount := by
  unfold Kernel.rehome
  split
  · refine ⟨h.attach (h.installed child hz) (Or.inl h.root_pid), fun c hc => ?_⟩
    unfold Kernel.attach
    split
    · rw [block_update_of_ne hc]
      rfl
    · rfl
  · split
    · have ha : k.Alike (k.update child Block.collected) :=
        .of_update child _ fun _ => ⟨rfl, rfl, rfl, rfl⟩
      refine ⟨(h.alike ha).release child, fun c hc => ?_⟩
      rw [refCount_release_of_ne hc, block_update_of_ne hc]
    · exact ⟨h, fun _ _ => rfl⟩

theorem Intact.rehome_foldl (cs : List BlockId) {k : Kernel} (h : k.Intact r) (hn : cs.Nodup)
    (hz : ∀ c ∈ cs, (k.block c).refCount ≠ 0) : (cs.foldl Kernel.rehome k).Intact r := by
  induction cs generalizing k with
  | nil => exact h
  | cons c cs ih =>
    obtain ⟨hc, hn⟩ := List.nodup_cons.1 hn
    obtain ⟨hi, hothers⟩ := h.rehome (hz c List.mem_cons_self)
    refine ih hi hn fun d hd => ?_
    rw [hothers d fun hdc => hc (hdc ▸ hd)]
    exact hz d (List.mem_cons_of_mem _ hd)

theorem Intact.release_foldl (cs : List BlockId) {k : Kernel} (h : k.Intact r) :
    (cs.foldl (fun k b => (k.release b).2) k).Intact r := by
  induction cs generalizing k with
  | nil => exact h
  | cons c cs ih => exact ih (h.release c)

theorem Intact.rearrangeChildren (h : k.Intact r) (parent : Pid) :
    (k.rearrangeChildren parent).Intact r := by
  obtain ⟨hi, hn, hc⟩ := h.holdChildren parent
  unfold Kernel.rearrangeChildren
  refine (hi.rehome_foldl _ hn fun c hm => ?_).release_foldl _
  have := hc c hm
  omega

theorem Intact.beginExit (h : k.Intact r) (b : BlockId) : (k.beginExit b).Intact r := by
  have hhalt : ∀ {k : Kernel} {fault : Fault} {p : Prop} [Decidable p], k.Intact r →
      (if p then k.halt fault else k).Intact r := by
    intro k fault p _ h
    split
    · exact h.alike (.halt ..)
    · exact h
  unfold Kernel.beginExit
  exact (hhalt (hhalt h)).alike (.of_update b _ fun _ => ⟨rfl, rfl, rfl, rfl⟩)

theorem Intact.publishExit (h : k.Intact r) (b : BlockId) (status : RawStatus) :
    (k.publishExit b status).2.Intact r := by
  have hfold : (fun x : Block => { x with exited := true, code := status }) =
      (Block.published · status) := rfl
  have hp : (k.update b (Block.published · status)).Intact r :=
    h.alike (.of_update b _ fun _ => ⟨rfl, rfl, rfl, rfl⟩)
  have hfold' : (fun x : Block => { x with reaped := true }) = Block.collected := rfl
  unfold Kernel.publishExit
  rw [hfold, hfold']
  dsimp only
  split
  · have hr := hp.alike (.of_update b Block.collected fun _ => ⟨rfl, rfl, rfl, rfl⟩)
    exact (hr.alike (.detachThread ..)).release b
  · exact hp.alike (.detachThread ..)

theorem Intact.exit (h : k.Intact r) (pid : Pid) (status : RawStatus) :
    (k.exit pid status).2.Intact r := by
  have hl := k.leaves pid status
  generalize k.exit pid status = out at hl ⊢
  cases hl with
  | missed => exact h
  | @left b _ k' found published =>
    have hi := h.alike (.retained found.counted)
    have hr := (hi.beginExit b).rearrangeChildren (k.block b).pid
    have hp := hr.publishExit b status
    rw [published] at hp
    exact hp.release b

theorem Intact.exitThread (h : k.Intact r) (pid : Pid) (status : ExitStatus) :
    (k.exitThread pid status).2.Intact r := by
  have hl := k.leavesThread pid status
  generalize k.exitThread pid status = out at hl ⊢
  cases hl with
  | missed => exact h
  | left => exact (h.exit pid _).alike (.terminateThread ..)

end Kernel

end Lifecycle
