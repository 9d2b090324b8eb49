import Lifecycle.Proofs.Kernel.Perishing

/-! A table has as many pids as it was made with, whatever is done to it. -/

namespace Lifecycle

namespace PidMap

variable {m m' : PidMap}

theorem capacity_allocate {p : Option Pid} (h : m.allocate = .ok (p, m')) :
    m'.capacity = m.capacity := by
  unfold allocate at h
  split at h
  · cases h
    rfl
  · split at h
    · cases h
      rfl
    · split at h <;> cases h
      rfl

theorem capacity_install {p own : Pid} {b : BlockId} (h : m.install p own b = .ok m') :
    m'.capacity = m.capacity := by
  unfold install at h
  split at h; · cases h
  split at h; · cases h
  split at h; · cases h
  split at h <;> cases h
  rfl

theorem capacity_deallocate {p : Pid} {expected found : Option BlockId}
    (h : m.deallocate p expected = .ok (found, m')) : m'.capacity = m.capacity := by
  unfold deallocate at h
  split at h
  · cases h
    rfl
  · split at h
    · split at h <;> cases h
      rfl
    · split at h; · cases h
      split at h <;> cases h
      rfl

theorem capacity_drain (m : PidMap) : m.drain.2.capacity = m.capacity := by
  have hat : ∀ (out : List BlockId × PidMap) (i : Nat),
      (drainAt out i).2.capacity = out.2.capacity := fun out i => by
    unfold drainAt
    split
    · split <;> rfl
    · rfl
  have hall : ∀ (is : List Nat) (out : List BlockId × PidMap),
      (is.foldl drainAt out).2.capacity = out.2.capacity := fun is => by
    induction is with
    | nil => exact fun _ => rfl
    | cons i is ih => exact fun out => (ih _).trans (hat out i)
  exact hall _ _

end PidMap

namespace Kernel

variable {k k' : Kernel} {busy : Prop} {r r' : List Pid} {ds : List Release}

theorem capacity_reserve (k : Kernel) : k.reserve.2.pids.capacity = k.pids.capacity := by
  unfold reserve
  split
  · rfl
  · split
    · next h => exact PidMap.capacity_allocate h
    · rfl
    · rfl

theorem capacity_unreserve (k : Kernel) (p : Pid) :
    (k.unreserve p).pids.capacity = k.pids.capacity := by
  unfold unreserve
  split
  · next h => exact PidMap.capacity_deallocate h
  · rfl

theorem capacity_freePid (k : Kernel) (b : BlockId) :
    (k.freePid b).pids.capacity = k.pids.capacity := by
  unfold freePid
  split
  · next h => exact PidMap.capacity_deallocate h
  · rfl

theorem capacity_install (k : Kernel) (block : Block) :
    (k.install block).2.pids.capacity = k.pids.capacity := by
  unfold install
  dsimp only
  split
  · next h => exact PidMap.capacity_install h
  · rfl

theorem capacity_release (k : Kernel) (b : BlockId) :
    (k.release b).2.pids.capacity = k.pids.capacity := by
  rw [release_eq]
  split
  · exact (congrArg PidMap.capacity (pids_discardTaskOf ..)).trans (capacity_freePid ..)
  · rfl

theorem capacity_shutdown (k : Kernel) : k.shutdown.2.pids.capacity = k.pids.capacity := by
  have hdrop : ∀ (bs : List BlockId) (k : Kernel), (bs.foldl dropBlock k).pids = k.pids :=
    fun bs => by
      induction bs with
      | nil => exact fun _ => rfl
      | cons b bs ih =>
        refine fun k => (ih _).trans ?_
        unfold dropBlock
        split <;> exact pids_discardTaskOf ..
  unfold shutdown
  split
  · rfl
  · exact (congrArg PidMap.capacity (hdrop ..)).trans (PidMap.capacity_drain _)

theorem Change.capacity (h : k.Change busy r ds k' r') : k'.pids.capacity = k.pids.capacity := by
  cases h with
  | tame ht => rw [ht.pids]
  | called hb hc => exact congrArg (·.pids.capacity) hc.table
  | refused => rfl
  | reserved got => exact (congrArg (·.2.pids.capacity) got).symm.trans (capacity_reserve k)
  | unreserved => exact capacity_unreserve ..
  | made => exact capacity_install ..
  | shut hb => exact capacity_shutdown k
  | released => exact capacity_release ..
  | forgone => rfl

theorem Does.capacity (h : k.Does busy r ds k' r') : k'.pids.capacity = k.pids.capacity := by
  induction h with
  | done => rfl
  | next change rest ih => exact ih.trans change.capacity

/-! ### Boot -/

/-- An empty table gives the kernel its pid. -/
theorem reserve_of_validate {config : Config} (hv : config.validate = .ok ()) : ∃ m,
    Kernel.reserve { config := config, pids := .ofCapacity config.maxProcesses.toNat } =
        (.ok kernelPid, { config := config, pids := m }) ∧
      m.capacity = config.maxProcesses.toNat ∧ 2 ≤ config.maxProcesses.toNat := by
  have hrange : 2 ≤ config.maxProcesses.toNat ∧
      config.maxProcesses.toNat ≤ maxPidSpace.toNat := by
    unfold Config.validate at hv
    split at hv
    · next hr => exact ⟨UInt64.le_iff_toNat_le.1 hr.1, UInt64.le_iff_toNat_le.1 hr.2⟩
    · cases hv
  obtain ⟨m, hm, -, hcapacity, -⟩ := allocate_ofCapacity (by omega) hrange.2
  exact ⟨m, by simp [reserve, hm], hcapacity, hrange.1⟩

/-- A valid configuration comes up, with the pid space that it asks for. -/
theorem boot_of_validate {config : Config} (hv : config.validate = .ok ()) : ∃ k,
    Kernel.boot config none = .ok k ∧ k.pids.capacity = config.maxProcesses.toNat ∧
      2 ≤ config.maxProcesses.toNat := by
  obtain ⟨m, hreserve, hcapacity, hrange⟩ := reserve_of_validate hv
  let k : Kernel := { config := config, pids := m }
  let task : TaskHandle := ⟨k.host.nextTask⟩
  let made := (k.createTask config.kernelName none).2.install (.kernel config.kernelName task)
  refine ⟨made.2.attachThread task kernelPid, ?_, (capacity_install ..).trans hcapacity, hrange⟩
  unfold boot
  rw [hv]
  dsimp only
  rw [hreserve]
  dsimp only
  rw [if_pos rfl]
  rfl

end Kernel

end Lifecycle
