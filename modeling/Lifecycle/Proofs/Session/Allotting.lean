import Lifecycle.Proofs.Kernel.Allotting
import Lifecycle.Proofs.Session.Answering
import Lifecycle.Proofs.Session.Career
import Lifecycle.Proofs.Session.Staffing

/-! The pids that user code may come to see: those of contexts, of children whose forks are
under way and of those slept on. After any moves, permitted or not, the table has allotted
them. -/

namespace Lifecycle.Session

/-- Forks and creations under way keep to their kind, and every pid that somebody may be told is
allotted. Nobody sleeps on the kernel's pid. -/
structure Allotted (s : Session) : Prop where
  bound : s.kernel.pids.capacity ≤ maxPidSpace.toNat
  standing : s.kernel.Standing s.taken
  root_lt : Kernel.root < s.kernel.blocks.size
  root_pid : (s.kernel.block Kernel.root).pid = kernelPid
  taken : ∀ p ∈ s.taken, s.kernel.Allots p
  children : ∀ c ∈ s.inFlight, c < s.kernel.blocks.size ∧
    s.kernel.Allots (s.kernel.block c).pid
  forks : ∀ f ∈ s.frames, ∀ via context, f.purpose = .fork via context →
    ∃ parent, f.pending.parent? = some parent
  contexts : ∀ p, s.contexts.contains p = true → s.kernel.Allots p
  parked : ∀ w ∈ s.parked, w.block < s.kernel.blocks.size ∧
    s.kernel.Allots (s.kernel.block w.block).pid ∧ (s.kernel.block w.block).pid ≠ kernelPid

variable {s s' : Session} {busy : Prop} {ds : List Release} {move : Move}

/-- Whom a target names has a pid of the table's, and not the kernel's. -/
theorem Allotted.named (h : s.Allotted) {target : Int64} {b : BlockId}
    (hb : s.kernel.named? target = some b) : b < s.kernel.blocks.size ∧
      s.kernel.Allots (s.kernel.block b).pid ∧ (s.kernel.block b).pid ≠ kernelPid := by
  obtain ⟨hlive, pid, ht, hl⟩ := Kernel.named?_eq_some_iff.1 hb
  rcases h.standing with hs | hs
  · obtain ⟨hlt, rfl⟩ := hs.own hl
    have hne : (s.kernel.block b).pid ≠ kernelPid := fun he => by
      have hsigned := signedPid_of_targetPid? h.bound ht
      unfold Kernel.targetPid? at ht
      rw [← hsigned, toInt_signedPid, he] at ht
      rw [if_neg fun hr => absurd hr.1 (by decide)] at ht
      cases ht
    exact ⟨hlt, ⟨hs.valid.lookup_lt hl, fun he => absurd he hne⟩, hne⟩
  · cases hlive.symm.trans hs.live

/-- Elementary changes keep all of it, if whoever is new is allotted. -/
theorem Allotted.comes (h : s.Allotted) (hc : s.Comes busy ds s')
    (children : ∀ c ∈ s'.inFlight, c ∈ s.inFlight ∨
      c < s'.kernel.blocks.size ∧ (s'.kernel.block c).pid ∈ s.taken)
    (forks : ∀ f ∈ s'.frames, f ∈ s.frames ∨ ∀ via context, f.purpose = .fork via context →
      ∃ parent, f.pending.parent? = some parent)
    (contexts : ∀ p, s'.contexts.contains p = true → s.contexts.contains p = true ∨
      ∃ c ∈ s.inFlight, p = (s.kernel.block c).pid)
    (parked : ∀ w ∈ s'.parked, w ∈ s.parked ∨
      ∃ target, s.kernel.named? target = some w.block) : s'.Allotted := by
  have hallots : ∀ {p}, s.kernel.Allots p → s'.kernel.Allots p := hc.allots h.root_lt
  have hkept : ∀ {b}, b < s.kernel.blocks.size → s.kernel.Allots (s.kernel.block b).pid →
      b < s'.kernel.blocks.size ∧ s'.kernel.Allots (s'.kernel.block b).pid := fun hb ha =>
    ⟨Nat.lt_of_lt_of_le hb hc.size_le, hc.pid hb ▸ hallots ha⟩
  refine ⟨hc.capacity ▸ h.bound, hc.standing h.standing, Nat.lt_of_lt_of_le h.root_lt hc.size_le,
    (hc.pid h.root_lt).trans h.root_pid, hc.allots_taken h.standing h.root_lt h.root_pid h.taken,
    fun c hm => ?_, fun f hm => ?_, fun p hp => ?_, fun w hw => ?_⟩
  · rcases children c hm with hold | ⟨hlt, hpid⟩
    · exact hkept (h.children c hold).1 (h.children c hold).2
    · exact ⟨hlt, hallots (h.taken _ hpid)⟩
  · exact (forks f hm).elim (h.forks f) id
  · rcases contexts p hp with hold | ⟨c, hm, rfl⟩
    · exact hallots (h.contexts p hold)
    · exact hallots (h.children c hm).2
  · obtain ⟨hlt, hallotted, hne⟩ : w.block < s.kernel.blocks.size ∧
        s.kernel.Allots (s.kernel.block w.block).pid ∧
          (s.kernel.block w.block).pid ≠ kernelPid := by
      rcases parked w hw with hold | ⟨target, hnamed⟩
      · exact h.parked w hold
      · exact h.named hnamed
    obtain ⟨hlt', hallotted'⟩ := hkept hlt hallotted
    exact ⟨hlt', hallotted', hc.pid hlt ▸ hne⟩

/-! ### Moves -/

/-- Only a fork that succeeds gives anybody a context. -/
theorem contexts_proceed (purpose : Purpose) (progress : Progress) {p : Pid}
    (hp : (s.proceed purpose progress).2.contexts.contains p = true) :
    s.contexts.contains p = true ∨
      ∃ via thread, (s.proceed purpose progress).1 = .forked via (.ok (p, thread)) := by
  unfold proceed at hp ⊢
  split at hp
  · exact Or.inl hp
  · rw [contexts_store] at hp
    exact Or.inl hp
  · exact Or.inl hp
  · next child thread via context =>
    rw [Assoc.contains, Assoc.get?_insert] at hp
    split at hp
    · next he => exact Or.inr ⟨via, thread, by rw [he]⟩
    · exact Or.inl hp
  · exact Or.inl hp
  · exact Or.inl hp
  · exact Or.inl hp

theorem contexts_act (move : Move) {p : Pid} (hc : (s.act move).2.contexts.contains p = true) :
    s.contexts.contains p = true ∨
      ∃ via thread, (s.act move).1 = .forked via (.ok (p, thread)) := by
  have hp := s.performs move
  generalize s.act move = out at hp hc ⊢
  cases hp with
  | fork => exact contexts_proceed _ _ hc
  | create => exact contexts_proceed _ _ hc
  | resume => exact contexts_proceed _ _ hc
  | exit =>
    rw [Assoc.contains, Assoc.get?_erase] at hc
    split at hc
    · cases hc
    · exact Or.inl hc
  | got =>
    rw [contexts_store] at hc
    exact Or.inl hc
  | slot handles => exact Or.inl (handles.contexts ▸ hc)
  | _ => exact Or.inl hc

/-- A sleeper that is new has named its target. -/
theorem parked_of_act {r : List Pid} (hk : s.kernel.Sane r) (move : Move) :
    ∀ w ∈ (s.act move).2.parked, w ∈ s.parked ∨
      ∃ target, s.kernel.named? target = some w.block := by
  intro w hw
  cases move with
  | wait caller target options via destination =>
    cases hcan : s.canCall via caller with
    | false =>
      rw [act_wait_of_cannot hcan] at hw
      exact Or.inl hw
    | true =>
      rw [act_wait_eq hk hcan target options destination] at hw
      cases hv : s.kernel.verdict caller target options with
      | refused error => exact Or.inl (by rwa [hv] at hw)
      | collects b => exact Or.inl (by rwa [hv] at hw)
      | sleeps b =>
        rw [hv] at hw
        rcases List.mem_append.1 hw with hw | hw
        · exact Or.inl hw
        · obtain rfl := List.mem_singleton.1 hw
          exact Or.inr ⟨target, (Kernel.verdict_sleeps hv).1⟩
  | _ =>
    rw [parked_act s (by nofun)] at hw
    exact Or.inl hw

/-- A child that is new has the pid that its fork had taken. -/
theorem inFlight_of_act (move : Move) : ∀ c ∈ (s.act move).2.inFlight, c ∈ s.inFlight ∨
    c < (s.act move).2.kernel.blocks.size ∧ ((s.act move).2.kernel.block c).pid ∈ s.taken := by
  intro c hm
  obtain ⟨f, hf, hc⟩ := mem_inFlight.1 hm
  rcases stopped_of_act hf with hf | hstopping
  · exact Or.inl (mem_inFlight.2 ⟨f, hf, hc⟩)
  · cases hstopping with
    | fork => cases hc
    | create => cases hc
    | @resume g _ _ _ stopped resumed =>
      have hmem : g ∈ s.frames := stopped ▸ List.mem_cons_self
      rcases Kernel.child_of_resume resumed hc with hold | ⟨hlt, hpid⟩
      · exact Or.inl (mem_inFlight.2 ⟨g, hmem, hold⟩)
      · refine Or.inr ?_
        rw [act_resume_of_cons stopped, resumed]
        exact ⟨hlt, List.mem_filterMap.2 ⟨g, hmem, hpid⟩⟩

/-- A fork that stops again is still a fork. -/
theorem forks_of_act (hforks : ∀ f ∈ s.frames, ∀ via context, f.purpose = .fork via context →
      ∃ parent, f.pending.parent? = some parent) (move : Move) :
    ∀ f ∈ (s.act move).2.frames, f ∈ s.frames ∨ ∀ via context, f.purpose = .fork via context →
      ∃ parent, f.pending.parent? = some parent := by
  intro f hm
  refine (stopped_of_act hm).imp_right fun hstopping => ?_
  cases hstopping with
  | fork => exact fun _ _ _ => ⟨_, rfl⟩
  | create => exact fun _ _ he => by cases he
  | resume stopped resumed =>
    intro via context hp
    rw [((s.kernel.resumption _ _).next _ resumed).1]
    exact hforks _ (stopped ▸ List.mem_cons_self) via context hp

/-! ### Runs -/

theorem Allotted.act (h : s.Allotted) {r : List Pid} (hk : s.kernel.Sane r) (move : Move) :
    (s.act move).2.Allotted := by
  obtain ⟨ds, hc⟩ := comes_act s move
  refine h.comes hc (inFlight_of_act move) (forks_of_act h.forks move) (fun p hp => ?_)
    (parked_of_act hk move)
  rcases contexts_act move hp with hold | ⟨via, thread, hreply⟩
  · exact Or.inl hold
  · obtain ⟨f, hf, c, hc, rfl⟩ := forked_of_act hreply
    exact Or.inr ⟨c, List.mem_filterMap.2 ⟨f, hf, hc⟩, rfl⟩

theorem Allotted.settle (h : s.Allotted) : s.settle.2.Allotted := by
  obtain ⟨ds, hc⟩ := comes_settle s
  obtain ⟨k', hs⟩ := settle_eq s
  refine h.comes hc (fun c hm => Or.inl ?_) (fun f hm => Or.inl ?_) (fun p hp => Or.inl ?_)
    fun w hw => Or.inl ?_
  · rwa [inFlight, frames_settle] at hm
  · rwa [frames_settle] at hm
  · rwa [hs] at hp
  · rw [parked_settle] at hw
    exact List.mem_of_mem_filter hw

theorem allotted_boot {config : Config} {refusal : Option Errno}
    (hb : boot config refusal = .ok s) : s.Allotted := by
  obtain ⟨k, hk, rfl⟩ := boot_eq hb
  have hs := (Kernel.sound_boot hk).1
  exact ⟨hs.placed.bound, Or.inl (Kernel.intact_boot hk).seated, hs.ordered.root_lt,
    hs.ordered.root_pid, fun _ hp => absurd hp List.not_mem_nil,
    fun _ hc => absurd hc List.not_mem_nil, fun _ hf => absurd hf List.not_mem_nil,
    fun _ hp => (by cases hp), fun _ hw => absurd hw List.not_mem_nil⟩

/-- Any moves leave every pid allotted that somebody may be told. -/
theorem Allotted.run (h : s.Allotted) (hfirm : s.Firm) (moves : List Move) :
    (s.run moves).Allotted := by
  induction moves generalizing s with
  | nil => exact h
  | cons move moves ih =>
    rw [run_cons]
    cases hf : s.kernel.fault with
    | some fault => exact ih h hfirm
    | none => exact ih (h.act (hfirm.kernel hf) move).settle (hfirm.step hf move)

end Lifecycle.Session
