import Lifecycle.Proofs.Kernel.Answering
import Lifecycle.Proofs.Kernel.Parting

/-! An exit and a wait for the process that exits. What is done to other blocks does not see a
change of one, so that a wait which was committed before the exit is as good as committed in the
middle of it, when the children are handed on and the status is published. -/

namespace Lifecycle

/-- A block that a wait sleeps on. -/
def Block.awaited (x : Block) : Block := { x with waiter := true, refCount := x.refCount + 1 }

/-- A block whose process has exited. -/
def Block.quit (status : RawStatus) (x : Block) : Block :=
  { x with exiting := true, exited := true, code := status }

namespace Kernel

variable {k : Kernel} {r : List Pid} {a : Account} {p : Pid} {b c : BlockId} {f : Block → Block}
  {status : RawStatus}

/-! ### Changes to other blocks -/

theorem update_comm (hc : c ≠ b) (f g : Block → Block) :
    (k.update b f).update c g = (k.update c g).update b f := by
  have hfirst : (k.update b f).update c g = { k with blocks :=
      ⟨(k.blocks.blocks.setIfInBounds b (f (k.block b))).setIfInBounds c
        (g ((k.update b f).block c))⟩ } := rfl
  have hsecond : (k.update c g).update b f = { k with blocks :=
      ⟨(k.blocks.blocks.setIfInBounds c (g (k.block c))).setIfInBounds b
        (f ((k.update c g).block b))⟩ } := rfl
  rw [hfirst, hsecond, block_update_of_ne hc, block_update_of_ne hc.symm,
    Array.setIfInBounds_comm _ _ hc.symm]

theorem discardTaskOf_update (hc : c ≠ b) (f : Block → Block) :
    (k.update b f).discardTaskOf c = (k.discardTaskOf c).update b f := by
  rw [discardTaskOf_eq, discardTaskOf_eq, block_update_of_ne hc, update_comm hc]
  split <;> rfl

theorem freePid_update (hp : ((k.update b f).block c).pid = (k.block c).pid) :
    (k.update b f).freePid c = (k.freePid c).update b f := by
  have hpids : (k.update b f).pids = k.pids := rfl
  unfold freePid
  rw [hp, hpids]
  cases k.pids.deallocate (k.block c).pid (some c) <;> rfl

theorem destroy_update (hc : c ≠ b) (f : Block → Block) :
    (k.update b f).destroy c = (k.destroy c).update b f := by
  have hblock : (k.update b f).block c = k.block c := block_update_of_ne hc f
  unfold destroy
  rw [hblock, freePid_update (by rw [hblock])]
  exact discardTaskOf_update (k := { k.freePid c with
    family := ((k.freePid c).family.unlink (k.block c).pid).dropList (k.block c).pid }) hc f

theorem release_update (hc : c ≠ b) (f : Block → Block) :
    ((k.update b f).release c).2 = (k.release c).2.update b f := by
  rw [release_eq, release_eq, block_update_of_ne hc, update_comm hc]
  split
  · exact destroy_update hc f
  · rfl

theorem attach_update (hc : c ≠ b) (hf : ∀ x, (f x).pid = x.pid) (q : BlockId) :
    (k.update b f).attach c q = (k.attach c q).update b f := by
  have hq : ((k.update b f).block q).pid = (k.block q).pid := view_update Block.pid (hf _) q
  have hfamily : (k.update b f).family = k.family := rfl
  unfold attach
  rw [block_update_of_ne hc, hq, hfamily]
  cases k.family.attach (k.block c).pid (k.block q).pid with
  | error fault => rfl
  | ok family => exact update_comm (k := { k with family := family }) hc f _

theorem rehome_update (hc : c ≠ b) (hf : ∀ x, (f x).pid = x.pid) :
    (k.update b f).rehome c = (k.rehome c).update b f := by
  unfold rehome
  rw [block_update_of_ne hc, attach_update hc hf, update_comm hc, release_update hc]
  split
  · rfl
  · split <;> rfl

theorem foldl_update {F : Kernel → BlockId → Kernel}
    (hF : ∀ k c, c ≠ b → F (k.update b f) c = (F k c).update b f) (cs : List BlockId)
    (hb : b ∉ cs) (k : Kernel) : cs.foldl F (k.update b f) = (cs.foldl F k).update b f := by
  induction cs generalizing k with
  | nil => rfl
  | cons c cs ih =>
    rw [List.mem_cons, not_or] at hb
    rw [List.foldl_cons, hF k c (Ne.symm hb.1), ih hb.2, List.foldl_cons]

/-- The children of a process are handed on alike, whatever it has become itself. -/
theorem Intact.rearrangeChildren_update (h : k.Intact r) (hi : (k.update b f).Intact r)
    (hf : ∀ x, (f x).pid = x.pid) (hb : b ∉ k.childBlocks p)
    (hp : ∀ c ∈ k.childBlocks p, (k.block c).parent = some p) :
    (k.update b f).rearrangeChildren p = (k.rearrangeChildren p).update b f := by
  have hheld : (k.update b f).holdChildren p =
      ((k.holdChildren p).1, (k.holdChildren p).2.update b f) := by
    rw [h.holdChildren_eq hp, hi.holdChildren_eq fun c hc => ?_]
    · exact congrArg _ (foldl_update (fun k c hc => update_comm hc f _) (k.childBlocks p) hb
        { k with family := k.family.detachAll p })
    · have hcb : c ≠ b := fun hcb => hb (hcb ▸ hc)
      rw [block_update_of_ne hcb]
      exact hp c hc
  have hfst : (k.holdChildren p).1 = k.childBlocks p := by rw [h.holdChildren_eq hp]
  unfold Kernel.rearrangeChildren
  rw [hheld]
  dsimp only
  rw [hfst, foldl_update (fun k c hc => rehome_update hc hf) _ hb,
    foldl_update (F := fun k c => (k.release c).2) (fun k c hc => release_update hc f) _ hb]

/-! ### The exit of a process -/

/-- What the exit of a process makes of all others: its children are handed on, and its thread is
detached. -/
def bereave (k : Kernel) (p : Pid) (b : BlockId) : Kernel :=
  (k.rearrangeChildren p).detachThread (k.block b).task

theorem detachThread_update (k : Kernel) (b : BlockId) (f : Block → Block) (t : TaskHandle) :
    (k.update b f).detachThread t = (k.detachThread t).update b f := rfl

/-- A process that publishes its status loses its thread, and is reaped or not. -/
theorem publishExit_snd (hlt : b < k.blocks.size) (status : RawStatus) :
    (k.publishExit b status).2 = if k.exitPath b = .reaped
      then (((k.detachThread (k.block b).task).update b fun x =>
        (x.published status).collected).release b).2
      else (k.detachThread (k.block b).task).update b (·.published status) := by
  have hself : (k.update b (·.published status)).block b = (k.block b).published status :=
    block_update_self hlt _
  have hreaped : (k.update b fun x => (x.published status).collected).block b =
      ((k.block b).published status).collected := block_update_self hlt _
  have hpublished : (fun x : Block => { x with exited := true, code := status }) =
    (·.published status) := rfl
  have hcollected : (fun x : Block => { x with reaped := true }) = Block.collected := rfl
  unfold Kernel.publishExit exitPath
  rw [hpublished, hcollected]
  dsimp only
  rw [hself, update_update hlt, hreaped, detachThread_update, detachThread_update]
  by_cases hc : (k.block b).parent = some kernelPid ∧ (k.block b).waiter = false
  · rw [if_pos hc]
    exact congrArg Prod.snd (if_pos hc)
  · rw [if_neg hc]
    exact congrArg Prod.snd (if_neg hc)

/-- A process of a user's that runs; what is true of it and its children before it exits. -/
structure Exits (k : Kernel) (r : List Pid) (p : Pid) (b : BlockId) : Prop where
  intact : k.Intact r
  found : k.pids.lookup p = some b
  user : p ≠ kernelPid
  exiting : (k.block b).exiting = false
  own : b ∉ k.childBlocks p
  child : ∀ c ∈ k.childBlocks p, (k.block c).parent = some p
  /-- Its children change, and it does not. -/
  apart : (k.rearrangeChildren p).block b = k.block b

theorem Hale.exits (h : k.Hale a) (hb : k.pids.lookup p = some b) (hp : p ≠ kernelPid)
    (hr : (k.block b).state = .running) : k.Exits a.reserved p b := by
  have hpid := (h.intact.lookup_iff.1 hb).1
  have hown : (k.entry b).link ≠ some p := by
    have hloop := h.tidy.loop (x := b) (by rwa [hpid])
    rwa [hpid] at hloop
  refine ⟨h.intact, hb, hp, h.exiting_of_running hr, mt h.intact.mem_childBlocks.1 hown,
    fun c hc => h.tidy.parent (h.intact.mem_childBlocks.1 hc), ?_⟩
  have hentry := (h.intact.entry_rearrangeChildren h.tidy p).2 b
  rw [TableEntry.bereft, if_neg hown] at hentry
  rw [← block_entry, hentry, block_entry]

namespace Exits

variable (h : k.Exits r p b)
include h

theorem counted : (k.block b).refCount ≠ 0 := h.intact.counted h.found

theorem lt : b < k.blocks.size := h.intact.lt_of_refCount h.counted

theorem lt_bereave : b < (k.bereave p b).blocks.size := by
  have hsize : (k.bereave p b).blocks.size = k.blocks.size := size_rearrangeChildren k p
  rw [hsize]
  exact h.lt

theorem block_bereave : (k.bereave p b).block b = k.block b := h.apart

/-- The children are handed on as if the process had not changed. -/
theorem rearrangeChildren_update (hi : (k.update b f).Intact r) (hf : ∀ x, (f x).pid = x.pid) :
    (k.update b f).rearrangeChildren p = (k.rearrangeChildren p).update b f :=
  h.intact.rearrangeChildren_update hi hf h.own h.child

/-- The process is held while it exits, which leaves no trace. -/
theorem exit_eq (status : RawStatus) : (k.exit p status).2 =
    if k.exitPath b = .reaped
    then (((k.bereave p b).update b fun x => (x.quit status).collected).release b).2
    else (k.bereave p b).update b (.quit status) := by
  have hz := h.counted
  have hlt : b < (k.rearrangeChildren p).blocks.size := by
    rw [size_rearrangeChildren]
    exact h.lt
  have hhanded : ((k.update b .retained).beginExit b).rearrangeChildren p =
      (k.rearrangeChildren p).update b fun x => x.retained.leaving := by
    have hi : (k.update b fun x => x.retained.leaving).Intact r := by
      rw [← update_update h.lt]
      exact (h.intact.alike (.retained hz)).alike (.of_update b _ fun _ => ⟨rfl, rfl, rfl, rfl⟩)
    rw [h.intact.beginExit_eq h.found h.user h.exiting, update_update h.lt,
      h.rearrangeChildren_update hi fun _ => rfl]
  -- what is held and published is let go of once more
  have hheld : ∀ g : Block → Block, (∀ x, (g x).refCount = x.refCount) →
      (((k.bereave p b).update b fun x => (g x).retained).release b) =
        (false, (k.bereave p b).update b g) := fun g hg => by
    have hself : ((k.bereave p b).update b g).block b = g (k.block b) := by
      rw [block_update_self h.lt_bereave, h.block_bereave]
    rw [← update_update h.lt_bereave g .retained]
    refine release_retained ?_
    rw [hself, hg]
    exact hz
  have hself : ((k.rearrangeChildren p).update b fun x => x.retained.leaving).block b =
      (k.block b).retained.leaving := by
    rw [block_update_self hlt, h.apart]
  have hpath : ((k.rearrangeChildren p).update b fun x => x.retained.leaving).exitPath b =
      k.exitPath b := by
    unfold exitPath
    rw [hself]
    rfl
  have hreaped : (fun x : Block => (x.retained.leaving.published status).collected) =
      fun x => ((x.quit status).collected).retained := rfl
  have hzombie : (fun x : Block => x.retained.leaving.published status) =
      fun x => (x.quit status).retained := rfl
  have hbereft : (k.rearrangeChildren p).detachThread (k.block b).retained.leaving.task =
      k.bereave p b := rfl
  rw [(h.intact.exit_eq h.found status).2, hhanded, publishExit_snd (by rwa [size_update]), hpath,
    hself, detachThread_update, hbereft, update_update h.lt_bereave, update_update h.lt_bereave]
  rw [hreaped, hzombie]
  split
  · rw [hheld (fun x => (x.quit status).collected) fun _ => rfl]
  · rw [hheld (·.quit status) fun _ => rfl]

/-- A wait that was committed before is in place. -/
theorem bereave_awaited : (k.update b .awaited).Exits r p b ∧
    (k.update b .awaited).bereave p b = (k.bereave p b).update b .awaited := by
  have hi : (k.update b .awaited).Intact r := by
    have halike := (Alike.retained h.counted).trans (.of_update (k := k.update b .retained) b
      .committed fun _ => ⟨rfl, rfl, rfl, rfl⟩)
    have hi := h.intact.alike halike
    rw [update_update h.lt] at hi
    exact hi
  have hhanded := h.rearrangeChildren_update hi fun _ => rfl
  have hself : (k.update b .awaited).block b = (k.block b).awaited := block_update_self h.lt _
  refine ⟨⟨hi, h.found, h.user, ?_, h.own, fun c hc => ?_, ?_⟩, ?_⟩
  · rw [hself]
    exact h.exiting
  · have hcb : c ≠ b := fun hcb => h.own (hcb ▸ hc)
    rw [block_update_of_ne hcb]
    exact h.child c hc
  · rw [hhanded, block_update_self (by rw [size_rearrangeChildren]; exact h.lt), h.apart, hself]
  · unfold bereave
    rw [hhanded, hself]
    rfl

end Exits

/-! ### Flags and threads of a block that is torn down -/

theorem discardTaskOf_committed (hlt : b < k.blocks.size) :
    (k.update b .committed).discardTaskOf b = (k.discardTaskOf b).update b .committed := by
  have hself : (k.update b .committed).block b = (k.block b).committed := block_update_self hlt _
  rw [discardTaskOf_eq, discardTaskOf_eq, hself, update_update hlt]
  change (if (k.block b).taskReleased = true then _ else _) = _
  split
  · rfl
  · exact congrArg (discardTask · (k.block b).task) (update_update hlt .untasked .committed).symm

/-- The waiter flag of a block makes no difference to what becomes of the others. -/
theorem release_committed (hlt : b < k.blocks.size) :
    ((k.update b .committed).release b).2 = (k.release b).2.update b .committed := by
  have hself : (k.update b .committed).block b = (k.block b).committed := block_update_self hlt _
  have hswap : (k.update b .committed).update b .released =
      (k.update b .released).update b .committed := by
    simp only [update_update hlt]
    rfl
  have hpid : (((k.update b .released).update b .committed).block b).pid =
      ((k.update b .released).block b).pid := view_update Block.pid rfl b
  rw [release_eq, release_eq, hself, hswap]
  change (if (k.block b).refCount = 1 then _ else _ : Bool × Kernel).2 = _
  split
  · dsimp only
    unfold destroy
    rw [freePid_update hpid, hpid]
    refine discardTaskOf_committed (k := { (k.update b .released).freePid b with family := _ }) ?_
    have hsize := (quiet_freePid (k.update b .released) b).size
    rw [size_update] at hsize
    exact hsize ▸ hlt
  · rfl

theorem freePid_terminateThread (k : Kernel) (b : BlockId) (t : TaskHandle) :
    (k.terminateThread t).freePid b = (k.freePid b).terminateThread t := by
  have hpids : (k.terminateThread t).pids = k.pids := rfl
  have hblock : (k.terminateThread t).block b = k.block b := rfl
  unfold freePid
  rw [hpids, hblock]
  cases k.pids.deallocate (k.block b).pid (some b) <;> rfl

theorem discardTask_terminateThread (k : Kernel) (t u : TaskHandle) :
    (k.terminateThread t).discardTask u = { (k.discardTask u).terminateThread t with
      calls := .destroyTask u :: .destroyFdTable u :: .terminate t :: k.calls } := by
  have hhost : ((k.host.destroyFdTable u).terminate t).destroyTask u =
      ((k.host.destroyFdTable u).destroyTask u).terminate t := by
    have htasks : ((k.host.destroyFdTable u).terminate t).tasks =
        (k.host.destroyFdTable u).tasks := rfl
    unfold Host.destroyTask
    rw [htasks]
    split <;> rfl
  have hlast : (k.terminateThread t).discardTask u = { k with
      host := ((k.host.destroyFdTable u).terminate t).destroyTask u
      calls := .destroyTask u :: .destroyFdTable u :: .terminate t :: k.calls } := rfl
  rw [hlast, hhost]
  rfl

/-- A thread that ends before a block is torn down ends afterwards as well; what is different is
the order of the calls to the host. -/
theorem release_terminateThread (k : Kernel) (b : BlockId) (t : TaskHandle) : ∃ calls,
    ((k.terminateThread t).release b).2 =
        { (k.release b).2.terminateThread t with calls := calls } ∧
      calls.Perm ((k.release b).2.terminateThread t).calls := by
  have hdiscard : ∀ k : Kernel, ∃ calls, (k.terminateThread t).discardTaskOf b =
        { (k.discardTaskOf b).terminateThread t with calls := calls } ∧
      calls.Perm ((k.discardTaskOf b).terminateThread t).calls := fun k => by
    have hblock : (k.terminateThread t).block b = k.block b := rfl
    have hupdate : (k.terminateThread t).update b .untasked =
        (k.update b .untasked).terminateThread t := rfl
    rw [discardTaskOf_eq, discardTaskOf_eq, hblock]
    split
    · exact ⟨_, rfl, .refl _⟩
    · rw [hupdate, discardTask_terminateThread]
      exact ⟨_, rfl, (List.Perm.cons _ (.swap ..)).trans (.swap ..)⟩
  have hblock : (k.terminateThread t).block b = k.block b := rfl
  have hupdate : (k.terminateThread t).update b .released =
      (k.update b .released).terminateThread t := rfl
  rw [release_eq, release_eq, hblock, hupdate]
  split
  · dsimp only
    unfold destroy
    rw [freePid_terminateThread]
    exact hdiscard { (k.update b .released).freePid b with family := _ }
  · exact ⟨_, rfl, .refl _⟩

/-! ### An exit that meets a wait -/

/-- A table that a process has left by its exit, with its status to be collected. -/
def forsake (k : Kernel) (p : Pid) (b : BlockId) (status : RawStatus) : Kernel :=
  ((k.bereave p b).update b (.quit status)).terminateThread (k.block b).task

namespace Exits

variable (h : k.Exits r p b)
include h

theorem lt_forsake (status : RawStatus) : b < (k.forsake p b status).blocks.size := by
  have hsize : (k.forsake p b status).blocks.size = (k.bereave p b).blocks.size :=
    size_update ..
  rw [hsize]
  exact h.lt_bereave

theorem block_forsake (status : RawStatus) :
    (k.forsake p b status).block b = (k.block b).quit status := by
  have hself : (k.forsake p b status).block b = ((k.bereave p b).block b).quit status :=
    block_update_self h.lt_bereave _
  rw [hself, h.block_bereave]

/-- The status can be collected unless the kernel reaps the process. -/
theorem exitThread_zombie (hpath : k.exitPath b = .zombie) (status : ExitStatus) :
    (k.exitThread p status).2 = k.forsake p b status.encode := by
  rw [exitThread_of_found (h.intact.found h.found)]
  dsimp only
  rw [h.exit_eq, hpath, if_neg ExitPath.noConfusion]
  rfl

theorem exitThread_reaped (hpath : k.exitPath b = .reaped) (status : ExitStatus) :
    (k.exitThread p status).2 = (((k.bereave p b).update b fun x =>
      (x.quit status.encode).collected).release b).2.terminateThread (k.block b).task := by
  rw [exitThread_of_found (h.intact.found h.found)]
  dsimp only
  rw [h.exit_eq, hpath, if_pos rfl]

/-- Whoever waits from before is told the status, and what the exit leaves is collected. -/
theorem wake_awaited (hr : (k.block b).reaped = false) (status : ExitStatus) :
    ((k.update b .awaited).exitThread p status).2.wake b =
      (.ok (p, status.encode),
        (((k.forsake p b status.encode).update b .consumed).release b).2) := by
  obtain ⟨hawaited, hbereave⟩ := h.bereave_awaited
  have hself : (k.update b .awaited).block b = (k.block b).awaited := block_update_self h.lt _
  have hpath : (k.update b .awaited).exitPath b = .zombie := by
    unfold exitPath
    rw [hself]
    exact if_neg fun hc => Bool.false_ne_true hc.2.symm
  have hleft : ((k.update b .awaited).exitThread p status).2 =
      ((k.forsake p b status.encode).update b .retained).update b .committed := by
    have hchanges : ((k.bereave p b).update b .awaited).update b (.quit status.encode) =
        (((k.bereave p b).update b (.quit status.encode)).update b .retained).update b
          .committed := by
      simp only [update_update h.lt_bereave]
      rfl
    rw [hawaited.exitThread_zombie hpath, forsake, hbereave, hchanges, hself]
    rfl
  have hblock : (((k.forsake p b status.encode).update b .retained).update b .committed).block b =
      ((k.block b).quit status.encode).retained.committed := by
    rw [block_update_self (by rw [size_update]; exact h.lt_forsake _),
      block_update_self (h.lt_forsake _), h.block_forsake]
  have hpid : ((k.block b).quit status.encode).pid = p := (h.intact.lookup_iff.1 h.found).1
  have hcode : ((k.block b).quit status.encode).code = status.encode := rfl
  have hcollect := collect_committed (k := k.forsake p b status.encode) (b := b)
    (by rw [h.block_forsake]; exact h.counted)
  rw [h.block_forsake, hpid, hcode] at hcollect
  rw [hleft, Kernel.wake, hblock, if_neg, hcollect]
  exact fun hreaped => Bool.false_ne_true (hr.symm.trans hreaped)

/-- If the kernel reaps the process, the wait that comes first leaves its mark on the block. -/
theorem collected_eq (hpath : k.exitPath b = .reaped) (status : ExitStatus) : ∃ calls,
    (((k.forsake p b status.encode).update b .consumed).release b).2 =
        { (k.exitThread p status).2.update b .committed with calls := calls } ∧
      calls.Perm (k.exitThread p status).2.calls := by
  have hlt := h.lt_bereave
  have hmarked : (k.forsake p b status.encode).update b .consumed =
      (((k.bereave p b).update b fun x => (x.quit status.encode).collected).update b
        .committed).terminateThread (k.block b).task := by
    rw [update_update hlt]
    exact congrArg (terminateThread · (k.block b).task)
      (update_update hlt (.quit status.encode) .consumed)
  obtain ⟨calls, hlast, hcalls⟩ := release_terminateThread
    (((k.bereave p b).update b fun x => (x.quit status.encode).collected).update b .committed) b
    (k.block b).task
  rw [release_committed (by rwa [size_update])] at hlast hcalls
  rw [hmarked, hlast, h.exitThread_reaped hpath]
  generalize (Kernel.release _ b).2 = k' at hcalls ⊢
  exact ⟨calls, rfl, hcalls⟩

end Exits

end Kernel

end Lifecycle
