import Lifecycle.Proofs.Kernel.Extent

/-! Which pids a table gives to processes: its own, and the kernel's only once the kernel's
block has been given back. This holds of any table, whatever its callers do. -/

namespace Lifecycle.Kernel

/-- A pid that a process may have: one of the table's, and the kernel's own only if nobody has a
reference on the kernel's block any more. -/
structure Allots (k : Kernel) (p : Pid) : Prop where
  lt : p.toNat < k.pids.capacity
  given : p = kernelPid → (k.block root).refCount = 0

variable {k k' : Kernel} {busy : Prop} {r r' : List Pid} {ds : List Release} {p : Pid}

theorem Allots.of_capacity (h : k.Allots p) (hc : k'.pids.capacity = k.pids.capacity)
    (hr : (k.block root).refCount = 0 → (k'.block root).refCount = 0) : k'.Allots p :=
  ⟨hc ▸ h.lt, fun hp => hr (h.given hp)⟩

/-- What is allotted stays so. -/
theorem Change.allots (hd : k.Change busy r ds k' r') (hroot : root < k.blocks.size)
    (h : k.Allots p) : k'.Allots p :=
  h.of_capacity hd.capacity fun hz => (hd.dead hroot hz).1

theorem Does.allots (hd : k.Does busy r ds k' r') (hroot : root < k.blocks.size)
    (h : k.Allots p) : k'.Allots p :=
  h.of_capacity hd.capacity fun hz => (hd.dead hroot hz).1

/-- The kernel's pid is taken as long as somebody has a reference on the kernel's block. -/
theorem Seated.allots_reserve (h : k.Seated r) (hroot : (k.block root).pid = kernelPid)
    (got : k.reserve = (.ok p, k')) : k'.Allots p := by
  have hseated := h.reserve got
  have htaken : k'.pids.isAllocated p = true :=
    (hseated.placed.taken p).2 (Or.inr List.mem_cons_self)
  have hsame := alongside_reserve k
  rw [got] at hsame
  refine ⟨?_, fun hp => ?_⟩
  · simp only [PidMap.isAllocated, Bool.and_eq_true, decide_eq_true_iff] at htaken
    exact htaken.1
  · by_contra hz
    have hfound := hseated.installed root hz
    rw [hsame.block, hroot, ← hp, hseated.placed.empty p List.mem_cons_self] at hfound
    cases hfound

/-- The pids that are taken for blocks to come are allotted. -/
theorem Change.allots_taken (hd : k.Change busy r ds k' r') (hs : k.Standing r)
    (hroot : root < k.blocks.size) (hpid : (k.block root).pid = kernelPid)
    (h : ∀ p ∈ r, k.Allots p) : ∀ p ∈ r', k'.Allots p := by
  have hkept : ∀ p ∈ r, k'.Allots p := fun p hp => hd.allots hroot (h p hp)
  cases hd with
  | reserved got =>
    intro q hq
    rcases List.mem_cons.1 hq with rfl | hq
    · rcases hs with hs | hs
      · exact hs.allots_reserve hpid got
      · rw [reserve, hs.live] at got
        cases got
    · exact hkept q hq
  | unreserved => exact fun q hq => hkept q (List.mem_cons_of_mem _ hq)
  | made => exact fun q hq => hkept q (List.mem_cons_of_mem _ hq)
  | _ => exact hkept

theorem Does.allots_taken (hd : k.Does busy r ds k' r') (hs : k.Standing r)
    (hroot : root < k.blocks.size) (hpid : (k.block root).pid = kernelPid)
    (h : ∀ p ∈ r, k.Allots p) : ∀ p ∈ r', k'.Allots p := by
  induction hd with
  | done => exact h
  | next change _ ih =>
    exact ih (change.standing hs) (Nat.lt_of_lt_of_le hroot change.size_le)
      ((change.pid hroot).trans hpid) (change.allots_taken hs hroot hpid h)

/-! ### Forks -/

/-- A block that is made has the pid that was taken for it. -/
theorem pid_of_make {name : String} {refusal : Option Errno} {b : BlockId}
    (made : k.make p name refusal = (.ok b, k')) :
    b < k'.blocks.size ∧ (k'.block b).pid = p := by
  obtain ⟨-, rfl, task, hblocks⟩ := make_ok made
  refine ⟨?_, ?_⟩
  · rw [size_of_add hblocks]
    exact Nat.lt_succ_self _
  · rw [block_of_add hblocks, if_pos rfl]
    rfl

/-- A fork that stops again has the child that it had, or one with the pid it had taken. -/
theorem child_of_resume {pending next : Pending} {refusal : Option Errno} {child : BlockId}
    (hn : (k.resume pending refusal).1 = .stopped next) (hc : next.child? = some child) :
    pending.child? = some child ∨ child < (k.resume pending refusal).2.blocks.size ∧
      pending.reserved? = some ((k.resume pending refusal).2.block child).pid := by
  have hr := k.resumes pending refusal
  generalize k.resume pending refusal = out at hr hn ⊢
  cases hr with
  | born made =>
    cases hn
    cases hc
    obtain ⟨hlt, hpid⟩ := pid_of_make made
    exact Or.inr ⟨hlt, congrArg some hpid.symm⟩
  | copied space =>
    cases hn
    exact Or.inl hc
  | @linked parent c k' files =>
    rcases k'.linkChild_cases parent c with ⟨error, hk⟩ | hk
    · cases hk.symm.trans hn
    · cases hk.symm.trans hn
      exact Or.inl hc
  | _ => cases hn

/-- A fork does not become a creation. -/
theorem resume_ne_created {pending : Pending} {parent : BlockId} {refusal : Option Errno}
    (hp : pending.parent? = some parent) (b : BlockId) :
    (k.resume pending refusal).1 ≠ .created b := by
  have hr := k.resumes pending refusal
  intro he
  generalize k.resume pending refusal = out at hr he
  cases hr with
  | created made => cases hp
  | @linked parent child k' files =>
    rcases k'.linkChild_cases parent child with ⟨error, hk⟩ | hk
    · cases hk.symm.trans he
    · cases hk.symm.trans he
  | _ => cases he

end Lifecycle.Kernel
