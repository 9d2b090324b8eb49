import Lifecycle.Proofs.Kernel.Sane
import Lifecycle.Proofs.Session.Settling

/-! What is true of a session after any moves, permitted or not: unless a check has failed,
its table is sane, with the pids that its stopped forks and creations have taken, and these
and its sleepers name blocks that have been made. -/

namespace Lifecycle.Session

/-- The pids taken for blocks to come. -/
def taken (s : Session) : List Pid := s.frames.filterMap (·.pending.reserved?)

structure Firm (s : Session) : Prop where
  kernel : s.kernel.fault = none → s.kernel.Sane s.taken
  frames : ∀ f ∈ s.frames, f.pending.Below s.kernel.blocks.size
  parked : ∀ w ∈ s.parked, w.block < s.kernel.blocks.size

variable {s s' : Session}

/-- The table may change, and nobody stops or falls asleep. -/
theorem Firm.of_kernel (h : s.Firm) (hk : s'.kernel.fault = none → s'.kernel.Sane s.taken)
    (hs : s'.kernel.blocks.size = s.kernel.blocks.size) (hf : s'.frames = s.frames)
    (hp : s'.parked = s.parked) : s'.Firm where
  kernel hfault := by
    rw [taken, hf]
    exact hk hfault
  frames f hm := by
    rw [hs]
    exact h.frames f (hf ▸ hm)
  parked w hw := by
    rw [hs]
    exact h.parked w (hp ▸ hw)

/-! ### Moves -/

/-- The innermost of the stopped ones may have taken a pid. -/
theorem taken_of_cons {f : Frame} {fs : List Frame} (hf : s.frames = f :: fs) :
    s.taken = f.pending.reserved?.toList ++ fs.filterMap (·.pending.reserved?) := by
  unfold taken
  rw [hf, List.filterMap_cons]
  cases f.pending.reserved? <;> rfl

theorem Firm.discard (h : s.Firm) (content : Option Slot) : (s.discard content).Firm := by
  rcases content with _ | b | b
  · exact h
  · refine h.of_kernel (fun hf => ?_) (Kernel.size_release ..) rfl rfl
    exact (h.kernel (Kernel.fault_of_release hf)).release b
  · exact h

theorem Firm.with_slots (h : s.Firm) (slots : Assoc Nat Slot) : Firm { s with slots := slots } :=
  ⟨h.kernel, h.frames, h.parked⟩

theorem Firm.store (h : s.Firm) (slot : Nat) (content : Slot) : (s.store slot content).Firm :=
  (h.with_slots _).discard _

/-- A fork or creation that has been begun or resumed stops, with a pid taken or its blocks
made, or is over. -/
theorem firm_proceed (purpose : Purpose) (progress : Progress)
    (hk : s.kernel.fault = none → s.kernel.Sane (progress.reserved ++ s.taken))
    (hf : ∀ f ∈ s.frames, f.pending.Below s.kernel.blocks.size)
    (hn : ∀ next, progress = .stopped next → next.Below s.kernel.blocks.size)
    (hp : ∀ w ∈ s.parked, w.block < s.kernel.blocks.size) :
    (s.proceed purpose progress).2.Firm := by
  cases progress with
  | stopped next =>
    refine ⟨fun hfault => ?_, fun f hm => ?_, hp⟩
    · change s.kernel.Sane (taken { s with frames := ⟨next, purpose⟩ :: s.frames })
      rw [taken_of_cons rfl]
      exact hk hfault
    · rcases List.mem_cons.1 hm with rfl | hm
      · exact hn next rfl
      · exact hf f hm
  | created b =>
    cases purpose with
    | fork via context => exact ⟨hk, hf, hp⟩
    | create slot => exact Firm.store ⟨hk, hf, hp⟩ slot _
  | forked child thread => cases purpose <;> exact ⟨hk, hf, hp⟩
  | failed error => cases purpose <;> exact ⟨hk, hf, hp⟩

theorem Firm.resume (h : s.Firm) (hf : s.kernel.fault = none) {f : Frame} {fs : List Frame}
    (hframes : s.frames = f :: fs) (refusal : Option Errno) :
    (proceed { s with kernel := (s.kernel.resume f.pending refusal).2, frames := fs } f.purpose
      (s.kernel.resume f.pending refusal).1).2.Firm := by
  have hmem : ∀ g ∈ fs, g ∈ s.frames := fun g hg => by simp [hframes, hg]
  have hbelow : f.pending.Below s.kernel.blocks.size := h.frames f (by simp [hframes])
  have hsize := (s.kernel.resumption f.pending refusal).size
  have hsane := h.kernel hf
  rw [taken_of_cons hframes] at hsane
  refine firm_proceed (s := { s with kernel := _, frames := fs }) f.purpose _ ?_ ?_ ?_ ?_
  · exact fun hfault => hsane.resume hbelow refusal hfault
  · intro g hg
    obtain ⟨hparent, hchild⟩ := h.frames g (hmem g hg)
    exact ⟨fun b hb => Nat.lt_of_lt_of_le (hparent b hb) hsize,
      fun c hc => Nat.lt_of_lt_of_le (hchild c hc) hsize⟩
  · exact fun next hn => Kernel.below_resume hbelow hn
  · exact fun w hw => Nat.lt_of_lt_of_le (h.parked w hw) hsize

/-- Taking and giving references back keeps the table sane. -/
theorem Firm.handled (h : s.Firm) (hf : s.kernel.fault = none) {move : Move}
    {out : Reply × Session} (hh : s.Handles move out) : out.2.Firm := by
  have hk := h.kernel hf
  obtain ⟨hsane, hsize⟩ := hh.kernel_of
    (P := fun k => (k.fault = none → k.Sane s.taken) ∧ k.blocks.size = s.kernel.blocks.size)
    ⟨fun _ => hk, rfl⟩
    (fun k b hkept => ⟨fun hf => (hkept.1 (Kernel.fault_of_release hf)).release b,
      (Kernel.size_release ..).trans hkept.2⟩)
    fun b => ⟨fun _ => hk.retain b, (Kernel.quiet_retain ..).size⟩
  exact h.of_kernel hsane hsize hh.frames hh.parked

theorem Firm.act (h : s.Firm) (hf : s.kernel.fault = none) (move : Move) :
    (s.act move).2.Firm := by
  have hk := h.kernel hf
  have hp := s.performs move
  generalize s.act move = out at hp ⊢
  cases hp with
  | declined => exact h
  | @fork pid via =>
    obtain ⟨hsane, hnext⟩ := hk.beginFork pid
    have hsize := Kernel.size_beginFork s.kernel pid
    refine firm_proceed (s := { s with kernel := _ }) _ _ (fun _ => hsane) ?_ hnext ?_
    · exact hsize.symm ▸ h.frames
    · exact hsize.symm ▸ h.parked
  | @create name slot =>
    obtain ⟨hsane, hnext⟩ := hk.beginCreate name
    have hsize := Kernel.size_beginCreate s.kernel name
    refine firm_proceed (s := { s with kernel := _ }) _ _ (fun _ => hsane) ?_ hnext ?_
    · exact hsize.symm ▸ h.frames
    · exact hsize.symm ▸ h.parked
  | resume stopped => exact h.resume hf stopped _
  | exit => exact h.of_kernel (fun _ => hk.exitThread _ _) (Kernel.size_exitThread ..) rfl rfl
  | @waited caller target options _ _ _ _ _ wait =>
    obtain ⟨hsane, -⟩ := hk.wait caller target options
    have hsize := Kernel.size_wait s.kernel caller target options
    rw [wait] at hsane hsize
    exact h.of_kernel (fun _ => hsane) hsize rfl rfl
  | @slept caller target options _ _ b k' _ wait =>
    obtain ⟨hsane, hasleep⟩ := hk.wait caller target options
    have hsize := Kernel.size_wait s.kernel caller target options
    rw [wait] at hsane hasleep hsize
    have hkept : Firm { s with kernel := k' } := h.of_kernel (fun _ => hsane) hsize rfl rfl
    refine ⟨hkept.kernel, hkept.frames, fun w hw => ?_⟩
    rcases List.mem_append.1 hw with hw | hw
    · exact hkept.parked w hw
    · rw [List.mem_singleton.1 hw]
      exact hasleep b rfl
  | missed => exact h
  | @got pid slot b found =>
    have hsane := hk.get pid
    rw [found.get] at hsane
    have hkept : Firm { s with kernel := s.kernel.update b .retained } :=
      h.of_kernel (fun _ => hsane) (Kernel.size_update ..) rfl rfl
    exact hkept.store slot _
  | slot handles => exact h.handled hf handles
  | shutdown => exact h.of_kernel (fun _ => hk.shutdown) (Kernel.size_shutdown ..) rfl rfl

/-! ### Waking -/

theorem Firm.settle (h : s.Firm) : s.settle.2.Firm := by
  refine ⟨?_, fun f hf => ?_, fun w hw => ?_⟩
  · rw [taken, frames_settle]
    exact settle_of (P := fun k => k.fault = none → k.Sane s.taken)
      (fun b hk hf => (hk (Kernel.fault_of_wake hf)).wake b) h.kernel
  · rw [frames_settle] at hf
    rw [size_settle]
    exact h.frames f hf
  · rw [parked_settle] at hw
    rw [size_settle]
    exact h.parked w (List.mem_of_mem_filter hw)

/-! ### Runs -/

theorem Firm.step (h : s.Firm) (hf : s.kernel.fault = none) (move : Move) :
    (s.step move).2.2.Firm :=
  (h.act hf move).settle

theorem settled_step (s : Session) (move : Move) : (s.step move).2.2.Settled :=
  settled_settle _

/-- Any moves leave a session firm, and nobody to be woken in it. -/
theorem Firm.run (h : s.Firm) (hd : s.Settled) (moves : List Move) :
    (s.run moves).Firm ∧ (s.run moves).Settled := by
  induction moves generalizing s with
  | nil => exact ⟨h, hd⟩
  | cons move moves ih =>
    rw [run_cons]
    cases hf : s.kernel.fault with
    | some fault => exact ih h hd
    | none => exact ih (h.step hf move) (settled_step s move)

theorem firm_boot {config : Config} {refusal : Option Errno} (hb : boot config refusal = .ok s) :
    s.Firm ∧ s.Settled := by
  obtain ⟨k, hk, rfl⟩ := boot_eq hb
  refine ⟨⟨fun _ => Or.inl (Kernel.intact_boot hk), fun f hf => ?_, fun w hw => ?_⟩,
    fun w hw => ?_⟩
  · cases hf
  · cases hw
  · cases hw

end Lifecycle.Session
