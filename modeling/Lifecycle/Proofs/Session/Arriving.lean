import Lifecycle.Proofs.Kernel.Thinning
import Lifecycle.Proofs.Session.Firm
import Lifecycle.Proofs.Session.Stranding

/-! Who comes into a list of children in a move: the child that a fork links, or the children
that an exit hands on. Everything else takes members out at most. When the table has been shut
down there is nobody in any list, and nobody comes. -/

namespace Lifecycle

/-- Whether a move shuts the table down. -/
def Move.isShutdown : Move → Bool
  | .shutdown => true
  | _ => false

namespace Session

/-- Whom a move may add to the list of a process: the child that a fork links under it, or,
with the kernel, the children of a process that exits. -/
def arrivals (s : Session) (move : Move) (p : Pid) : List BlockId :=
  match move, s.frames with
  | .resume _, f :: _ => f.pending.bears s.kernel p
  | .exit pid _, _ =>
    if p = kernelPid ∧ s.contexts.contains pid = true then s.kernel.childBlocks pid else []
  | _, _ => []

/-- How somebody arrives in a list: his fork links him under its parent, or the process that exits
hands him to the kernel. -/
inductive Arrives (s : Session) (c : BlockId) : Move → Pid → Prop
  | linked {parent : BlockId} {refusal : Option Errno} {purpose : Purpose} {fs : List Frame}
      (stopped : s.frames = ⟨.forkFiles parent c, purpose⟩ :: fs) :
      Arrives s c (.resume refusal) (s.kernel.block parent).pid
  | handed {pid : Pid} {status : ExitStatus} (runs : s.contexts.contains pid = true)
      (child : c ∈ s.kernel.childBlocks pid) : Arrives s c (.exit pid status) kernelPid

theorem arrives {s : Session} {move : Move} {p : Pid} {c : BlockId} (hc : c ∈ s.arrivals move p) :
    s.Arrives c move p := by
  unfold arrivals at hc
  split at hc
  · next f fs hf =>
    obtain ⟨pending, purpose⟩ := f
    cases pending with
    | forkFiles parent child =>
      simp only [Pending.bears] at hc
      split at hc
      · next hp =>
        obtain rfl := List.mem_singleton.1 hc
        exact hp ▸ .linked hf
      · cases hc
    | _ => cases hc
  · split at hc
    · next hp => exact hp.1 ▸ .handed hp.2 hc
    · cases hc
  · cases hc

variable {s : Session} {r : List Pid}

/-! ### Moves -/

theorem thins_store (h : s.kernel.Intact r) (slot : Nat) (content : Slot) :
    s.kernel.Thins (s.store slot content).kernel :=
  store_of (.refl _) h.thins_release slot content

theorem thins_proceed (h : s.kernel.Intact r) (purpose : Purpose) (progress : Progress) :
    s.kernel.Thins (s.proceed purpose progress).2.kernel :=
  proceed_of (.refl _) h.thins_release purpose progress

theorem Firm.appends_resume (hs : s.Firm) (hi : s.kernel.Intact s.taken) {f : Frame}
    {fs : List Frame} (hf : s.frames = f :: fs) (refusal : Option Errno) :
    s.kernel.Appends (s.arrivals (.resume refusal))
      (proceed { s with kernel := (s.kernel.resume f.pending refusal).2, frames := fs } f.purpose
        (s.kernel.resume f.pending refusal).1).2.kernel := by
  have hbelow : f.pending.Below s.kernel.blocks.size := hs.frames f (by simp [hf])
  have harrive : s.arrivals (.resume refusal) = f.pending.bears s.kernel := by
    funext p
    simp only [arrivals, hf]
  rw [taken_of_cons hf] at hi
  have happend := hi.appends_resume hbelow refusal
  have hnext := hi.resume hbelow refusal
  rw [harrive]
  exact happend.thins (thins_proceed
    (s := { s with kernel := (s.kernel.resume f.pending refusal).2, frames := fs }) hnext ..)

/-- Only those who arrive in a move come into a list. -/
theorem Firm.appends_act (hs : s.Firm) (hi : s.kernel.Intact s.taken) (move : Move) :
    s.kernel.Appends (s.arrivals move) (s.act move).2.kernel := by
  have hp := s.performs move
  generalize s.act move = out at hp ⊢
  cases hp with
  | declined => exact (Kernel.Thins.refl _).appends _
  | @fork pid =>
    have hnext := (hi.beginFork pid).1
    exact ((hi.thins_beginFork pid).trans (thins_proceed
      (s := { s with kernel := (s.kernel.beginFork pid).2 }) hnext ..)).appends _
  | @create name =>
    have hnext := hi.beginCreate name
    exact ((hi.thins_beginCreate name).trans (thins_proceed
      (s := { s with kernel := (s.kernel.beginCreate name).2 }) hnext ..)).appends _
  | resume stopped => exact hs.appends_resume hi stopped _
  | @exit pid status context serves =>
    intro p
    have harrive : s.arrivals (.exit pid status) p =
        if p = kernelPid then s.kernel.childBlocks pid else [] := by
      simp [arrivals, Assoc.contains, serves]
    rw [harrive]
    exact hi.appends_exitThread pid status p
  | @waited caller target options _ _ _ _ _ wait =>
    have hwait := hi.thins_wait caller target options
    rw [wait] at hwait
    exact hwait.appends _
  | @slept caller target options _ _ _ _ _ wait =>
    have hwait := hi.thins_wait caller target options
    rw [wait] at hwait
    exact hwait.appends _
  | missed => exact (Kernel.Thins.refl _).appends _
  | got found =>
    have hretained := Kernel.Alike.retained found.counted
    exact ((Kernel.Thins.of_alike hretained).trans
      (thins_store (s := { s with kernel := _ }) (hi.alike hretained) ..)).appends _
  | slot handles =>
    have hkept := handles.kernel_of (P := fun k => s.kernel.Thins k ∧ k.Intact s.taken)
      ⟨.refl _, hi⟩ (fun k b hk => ⟨hk.1.trans (hk.2.thins_release b), hk.2.release b⟩)
      fun b => ⟨Kernel.thins_retain .., hi.retain b⟩
    exact hkept.1.appends _
  | shutdown =>
    intro p
    change List.Sublist (s.kernel.shutdown.2.childBlocks p) _
    rw [Kernel.childBlocks_of_family hi.shutdown.family]
    exact List.nil_sublist _

/-! ### Waking -/

theorem thins_settle (h : s.kernel.Intact r) : s.kernel.Thins s.settle.2.kernel :=
  (settle_of (P := fun k => s.kernel.Thins k ∧ k.Intact r)
    (fun b hk => ⟨hk.1.trans (hk.2.thins_wake b), hk.2.wake b⟩) ⟨.refl _, h⟩).1

theorem Firm.intact (hs : s.Firm) (hf : s.kernel.fault = none) (hl : s.kernel.live = true) :
    s.kernel.Intact s.taken := by
  rcases hs.kernel hf with hi | hspent
  · exact hi
  · rw [hspent.down.live] at hl
    cases hl

theorem Firm.appends_step (hs : s.Firm) (hf : s.kernel.fault = none)
    (hl : s.kernel.live = true) {move : Move} (hf' : (s.act move).2.kernel.fault = none)
    (hl' : (s.act move).2.kernel.live = true) :
    s.kernel.Appends (s.arrivals move) (s.step move).2.2.kernel := by
  have hact := hs.appends_act (hs.intact hf hl) move
  exact hact.thins (thins_settle ((hs.act hf move).intact hf' hl'))

/-! ### A table that has been shut down -/

/-- The table is shut down, and nobody is in a list of children. -/
structure Ended (s : Session) : Prop where
  live : s.kernel.live = false
  family : s.kernel.family = {}

theorem family_act (h : s.kernel.Spent) (move : Move) : (s.act move).2.kernel.family = {} := by
  have hp := performsDown h.down.live move
  generalize s.act move = out at hp ⊢
  cases hp with
  | refused => exact h.family
  | exit => exact h.family
  | @resume f fs refusal =>
    have hf := h.family_resume f.pending refusal
    exact proceed_of (P := (·.family = {}))
      (s := { s with kernel := (s.kernel.resume f.pending refusal).2, frames := fs })
      hf (Kernel.family_release hf) ..
  | slot handles =>
    refine handles.kernel_of (P := (·.family = {})) h.family
      (fun k b hk => Kernel.family_release hk b) fun b => ?_
    rw [Kernel.retain_eq]
    split <;> exact h.family

theorem family_settle (hf : s.kernel.family = {}) : s.settle.2.kernel.family = {} :=
  settle_of (P := (·.family = {})) (fun b hk => Kernel.family_wake hk b) hf

/-- Whatever is done after a shutdown, a check that fails included. -/
theorem Ended.step (h : s.Ended) (hs : s.Firm) (hf : s.kernel.fault = none) (move : Move) :
    (s.step move).2.2.Ended := by
  have hspent : s.kernel.Spent := by
    rcases hs.kernel hf with hi | hspent
    · cases hi.live.symm.trans h.live
    · exact hspent
  exact ⟨(live_settle _).trans (lapse_act h.live move).live,
    family_settle (family_act hspent move)⟩

theorem ended_shutdown (hi : s.kernel.Intact r) : (s.step .shutdown).2.2.Ended :=
  ⟨(live_settle _).trans hi.shutdown.down.live, family_settle hi.shutdown.family⟩

end Session

end Lifecycle
