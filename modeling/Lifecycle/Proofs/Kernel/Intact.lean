import Lifecycle.Proofs.Kernel.Tasks

/-! What every operation keeps in a table, whatever its callers do: references may be given
back that nobody held, and checks may fail on the way. A block is installed as long as it has
references and has a task just as long, and no list of children outlives its parent, that of
the kernel apart. -/

namespace Lifecycle

/-- The account of a table of which no more is known than the pids taken for blocks to come. -/
def Account.holding (r : List Pid) : Account := { initial with reserved := r }

namespace Kernel

/-- A live table; its faults are left out of account. -/
structure Intact (k : Kernel) (r : List Pid) : Prop where
  placed : { k with fault := none }.Placed (.holding r)
  hosted : k.Hosted
  counted : ∀ {p b}, k.pids.lookup p = some b → (k.block b).refCount ≠ 0
  installed : ∀ b, (k.block b).refCount ≠ 0 → k.pids.lookup (k.block b).pid = some b
  released : ∀ b < k.blocks.size,
    (k.block b).taskReleased = true ↔ (k.block b).refCount = 0
  family : k.family.Coherent
  child : ∀ {c p}, k.family.parentLink? c = some p → ∃ b, k.pids.lookup c = some b
  parent : ∀ {c p}, k.family.parentLink? c = some p →
    p = kernelPid ∨ ∃ q, k.pids.lookup p = some q
  root_lt : root < k.blocks.size
  root_pid : (k.block root).pid = kernelPid

/-- A table that is shut down, whose blocks have all lost their tasks. -/
structure Spent (k : Kernel) : Prop where
  down : k.Down
  hosted : k.Hosted
  released : ∀ b < k.blocks.size, (k.block b).taskReleased = true
  family : k.family = {}

variable {k k' : Kernel} {r : List Pid}

namespace Intact

variable (h : k.Intact r)
include h

theorem live : k.live = true := h.placed.live

theorem valid : k.pids.Valid := h.placed.valid

theorem own {p : Pid} {b : BlockId} (hb : k.pids.lookup p = some b) :
    b < k.blocks.size ∧ (k.block b).pid = p :=
  h.placed.own hb

theorem taken (p : Pid) :
    k.pids.isAllocated p = true ↔ (∃ b, k.pids.lookup p = some b) ∨ p ∈ r :=
  h.placed.taken p

theorem empty {p : Pid} (hp : p ∈ r) : k.pids.lookup p = none := h.placed.empty p hp

end Intact

theorem Intact.alike (h : k.Intact r) (ha : k.Alike k') : k'.Intact r := by
  refine ⟨h.placed.congr ha.live rfl ha.pids ha.size ha.pid rfl, h.hosted.alike ha,
    ?_, ?_, ?_, ha.family ▸ h.family, ?_, ?_, ha.size ▸ h.root_lt,
    (ha.pid root).trans h.root_pid⟩
  · intro p b
    simpa only [ha.pids, ne_eq, ha.vacant] using h.counted
  · simpa only [ha.pids, ha.pid, ne_eq, ha.vacant] using h.installed
  · simpa only [ha.size, ha.vacant, ha.taskReleased] using h.released
  · intro c p
    simpa only [ha.pids, ha.family] using h.child
  · intro c p
    simpa only [ha.pids, ha.family] using h.parent

theorem Spent.alike (h : k.Spent) (ha : k.Alike k') : k'.Spent := by
  refine ⟨⟨ha.live.trans h.down.live, ha.pids ▸ h.down.valid, ha.pids ▸ h.down.free⟩,
    h.hosted.alike ha, ?_, ha.family.trans h.family⟩
  simpa only [ha.size, ha.taskReleased] using h.released

/-- A block whose task the host knows is installed. -/
theorem Intact.lookup_of_task (h : k.Intact r) {b : BlockId} (hb : b < k.blocks.size)
    {record : TaskRecord} (ht : k.host.task? (k.block b).task = some record) :
    k.pids.lookup (k.block b).pid = some b := by
  apply h.installed
  intro hz
  obtain ⟨c, hc, hct, hcr⟩ := (h.hosted.known _).1 ((k.host.contains_iff _).2 ⟨record, ht⟩)
  rw [h.hosted.distinct c hc b hb hct, (h.released b hb).2 hz] at hcr
  cases hcr

/-! ### References -/

theorem Intact.lt_of_refCount (h : k.Intact r) {b : BlockId} (hz : (k.block b).refCount ≠ 0) :
    b < k.blocks.size :=
  (h.own (h.installed b hz)).1

theorem Intact.get (h : k.Intact r) (pid : Pid) : (k.get pid).2.Intact r := by
  have hl := k.looks pid
  generalize k.get pid = out at hl ⊢
  cases hl with
  | missed => exact h
  | found found => exact h.alike (.retained found.counted)

/-- A lookup finds the block that is installed at a pid. -/
theorem Intact.found (h : k.Intact r) {p : Pid} {b : BlockId}
    (hb : k.pids.lookup p = some b) : k.Found p b :=
  ⟨h.live, hb, h.counted hb⟩

theorem Intact.retain (h : k.Intact r) (b : BlockId) : (k.retain b).Intact r := by
  rw [retain_eq]
  split
  · exact h.alike (.halt ..)
  · next hz => exact h.alike (.retained hz)

/-- The last reference gone, the block loses its pid, its links and its task. -/
theorem Intact.destroyed (h : k.Intact r) {b : BlockId} (hn : (k.block b).refCount = 1) :
    ((k.update b .released).destroy b).Intact r := by
  have hb := h.installed b (by omega)
  have hlt := h.lt_of_refCount (b := b) (by omega)
  have hq₁ : k.Quiet (k.update b .released) := .of_update b _ fun _ => rfl
  have hq : k.Quiet ((k.update b .released).destroy b) := hq₁.trans (quiet_destroy ..)
  obtain ⟨hvalid, hcap, -, htaken, hlook, hfam, hlive, -, hrefs⟩ :=
    destroy_spec (k := k.update b .released) (b := b) h.valid (by rw [hq₁.pid]; exact hb)
  have hosted : (k.update b .released).Hosted :=
    h.hosted.congr (size_update ..) (view_update Block.task rfl)
      (view_update Block.taskReleased rfl) rfl fun _ => rfl
  obtain ⟨hhosted, -, hreleased, -⟩ :=
    destroy_host hosted (show b < (k.update b .released).blocks.size by rwa [size_update])
  rw [hq₁.pid] at hlook htaken hfam
  have hcount : ∀ c, (((k.update b .released).destroy b).block c).refCount =
      (k.block c).refCount - if c = b then 1 else 0 := fun c => by
    rw [hrefs, refCount_released hlt]
  have hreleased : ∀ c, (((k.update b .released).destroy b).block c).taskReleased =
      (decide (c = b) || (k.block c).taskReleased) := fun c => by
    rw [hreleased, view_update Block.taskReleased rfl]
  -- what is found by a pid other than the block's own is found as before
  have hfound : ∀ {p c}, p ≠ (k.block b).pid → k.pids.lookup p = some c →
      ((k.update b .released).destroy b).pids.lookup p = some c := fun hp hc => by
    rw [hlook, if_neg hp]
    exact hc
  refine ⟨h.placed.forget ⟨hq.size, hq.core⟩ hb hlive rfl hvalid hcap htaken hlook, hhosted,
    ?_, ?_, ?_, ?_, ?_, ?_, ?_, (hq.pid root).trans h.root_pid⟩
  · intro p c hp
    rw [hlook] at hp
    split at hp
    · cases hp
    · next hne =>
      have hcb : c ≠ b := by
        rintro rfl
        exact hne (h.own hp).2.symm
      rw [hcount, if_neg hcb]
      exact h.counted hp
  · intro c hz
    rw [hcount] at hz
    have hcb : c ≠ b := by
      rintro rfl
      rw [if_pos rfl] at hz
      omega
    have hc := h.installed c (by omega)
    rw [hq.pid]
    exact hfound (fun hp => hcb (Sound.eq_of_pid hc hb hp)) hc
  · intro c hc
    rw [hcount, hreleased, Bool.or_eq_true, decide_eq_true_iff, h.released c (hq.size ▸ hc)]
    by_cases hcb : c = b
    · subst hcb
      simp [hn]
    · simp [hcb]
  · rw [hfam]
    exact h.family.forget _
  · intro c p hl
    rw [hfam] at hl
    obtain ⟨hc, -, hl⟩ := (h.family.parentLink?_forget _ _ _).1 hl
    obtain ⟨x, hx⟩ := h.child hl
    exact ⟨x, hfound hc hx⟩
  · intro c p hl
    rw [hfam] at hl
    obtain ⟨-, hp, hl⟩ := (h.family.parentLink?_forget _ _ _).1 hl
    refine (h.parent hl).imp_right ?_
    rintro ⟨q, hq⟩
    exact ⟨q, hfound hp hq⟩
  · rw [hq.size]
    exact h.root_lt

theorem Intact.release (h : k.Intact r) (b : BlockId) : (k.release b).2.Intact r := by
  rw [release_eq]
  split
  · next hn => exact h.destroyed hn
  · next hn => exact h.alike (.released hn)

/-! ### Pids and blocks -/

theorem Intact.with_pids (h : k.Intact r) {m : PidMap} {r' : List Pid}
    (hp : { { k with pids := m } with fault := none }.Placed (.holding r'))
    (hl : m.lookup = k.pids.lookup) : { k with pids := m }.Intact r' := by
  refine ⟨hp, h.hosted.congr rfl (fun _ => rfl) (fun _ => rfl) rfl fun _ => rfl, ?_, ?_,
    h.released, h.family, ?_, ?_, h.root_lt, h.root_pid⟩
  · intro p b hb
    exact h.counted (hl ▸ hb)
  · intro b hz
    exact hl ▸ h.installed b hz
  · intro c p hs
    exact hl ▸ h.child hs
  · intro c p hs
    exact hl ▸ h.parent hs

theorem Intact.reserve (h : k.Intact r) :
    k.pids.free = 0 ∧ k.reserve = (.error k.pids.exhausted, k) ∨
    k.pids.free ≠ 0 ∧ ∃ p m, k.reserve = (.ok p, { k with pids := m }) ∧
      { k with pids := m }.Intact (p :: r) := by
  rcases reserve_spec h.live h.valid with he | ⟨hfree, p, m, he, hv, ht, -, hc, -, hl, hta⟩
  · exact Or.inl he
  · exact Or.inr ⟨hfree, p, m, he, h.with_pids (h.placed.reserve hv ht hc hl hta).2 hl⟩

theorem Intact.unreserve {p : Pid} (h : k.Intact (p :: r)) : (k.unreserve p).Intact r := by
  have hmem : p ∈ p :: r := List.mem_cons_self
  obtain ⟨m, hm, hv, hc, -, hl, hta⟩ :=
    unreserve_spec h.valid ((h.taken p).2 (Or.inr hmem)) (h.empty hmem)
  rw [hm]
  exact h.with_pids (h.placed.unreserve (a := .holding r) hv hc hl hta) hl

theorem Intact.make_refused {p : Pid} (h : k.Intact (p :: r)) (name : String) (errno : Errno) :
    ∃ k', k.make p name (some errno) = (.error (.host .createTask errno), k') ∧ k'.Intact r := by
  have ha : k.Alike (k.log (.refuseTask name errno)) := .of_host rfl rfl fun _ => rfl
  exact ⟨_, rfl, (h.alike ha).unreserve⟩

theorem Intact.make_done {p : Pid} (h : k.Intact (p :: r)) (name : String) :
    ∃ k', k.make p name none = (.ok k.blocks.size, k') ∧ k'.Intact r := by
  have hmem : p ∈ p :: r := List.mem_cons_self
  have hnone := h.empty hmem
  obtain ⟨k', hk, hb, hh, hf, hlive, -, hv, hc, -, hta, hl⟩ :=
    make_spec h.valid ((h.taken p).2 (Or.inr hmem)) hnone name
  have hself : k'.block k.blocks.size = .fresh p name ⟨k.host.nextTask⟩ := by
    rw [block_of_add hb, if_pos rfl]
  have hold : ∀ b < k.blocks.size, k'.block b = k.block b := fun b => block_of_add_of_lt hb
  have hgrow : ∀ {q b}, k.pids.lookup q = some b → k'.pids.lookup q = some b := by
    intro q b hq
    rw [hl, if_neg]
    · exact hq
    · rintro rfl
      rw [hnone] at hq
      cases hq
  have hplaced : ({ k with fault := none }.seat (.fresh p name ⟨k.host.nextTask⟩)
      k'.pids).Placed (.holding r) := h.placed.seat rfl hv hc hta hl
  refine ⟨k', hk, ⟨hplaced.congr hlive rfl rfl ?_ ?_ rfl, h.hosted.add hb rfl rfl ?_ ?_,
    ?_, ?_, ?_, hf ▸ h.family, ?_, ?_, ?_, ?_⟩⟩
  · exact congrArg BlockStore.size hb
  · exact fun b => congrArg (fun s : BlockStore => (s.get b).pid) hb
  · rw [hh]
    rfl
  · intro t
    rw [hh, contains_createTask]
  · intro q b hq
    rw [hl] at hq
    split at hq
    · obtain rfl := Option.some.inj hq
      rw [hself]
      exact Nat.one_ne_zero
    · rw [hold b (h.own hq).1]
      exact h.counted hq
  · intro b hz
    rcases Nat.lt_trichotomy b k.blocks.size with hlt | rfl | hgt
    · rw [hold b hlt] at hz ⊢
      exact hgrow (h.installed b hz)
    · rw [hself, hl]
      exact if_pos rfl
    · rw [block_of_size_le (size_of_add hb ▸ hgt)] at hz
      exact absurd rfl hz
  · intro b hlt
    rw [size_of_add hb] at hlt
    rcases Nat.lt_succ_iff_lt_or_eq.1 hlt with hlt | rfl
    · rw [hold b hlt]
      exact h.released b hlt
    · rw [hself]
      simp [Block.fresh]
  · intro c q hs
    rw [hf] at hs
    obtain ⟨b, hb⟩ := h.child hs
    exact ⟨b, hgrow hb⟩
  · intro c q hs
    rw [hf] at hs
    refine (h.parent hs).imp_right ?_
    rintro ⟨b, hb⟩
    exact ⟨b, hgrow hb⟩
  · rw [size_of_add hb]
    exact Nat.lt_succ_of_lt h.root_lt
  · rw [hold root h.root_lt]
    exact h.root_pid

theorem Intact.make {p : Pid} (h : k.Intact (p :: r)) {name : String} {refusal : Option Errno}
    {result : Except ProcessError BlockId} (hk : k.make p name refusal = (result, k')) :
    k'.Intact r := by
  cases refusal with
  | some errno =>
    obtain ⟨k₁, hmade, hi⟩ := Intact.make_refused (r := r) h name errno
    cases hmade.symm.trans hk
    exact hi
  | none =>
    obtain ⟨k₁, hmade, hi⟩ := Intact.make_done (r := r) h name
    cases hmade.symm.trans hk
    exact hi

/-! ### Links -/

theorem Intact.with_family (h : k.Intact r) {f : Family} (hf : f.Coherent)
    (hc : ∀ {c p}, f.parentLink? c = some p → ∃ b, k.pids.lookup c = some b)
    (hp : ∀ {c p}, f.parentLink? c = some p → p = kernelPid ∨ ∃ q, k.pids.lookup p = some q) :
    { k with family := f }.Intact r :=
  ⟨h.placed.congr rfl rfl rfl rfl (fun _ => rfl) rfl,
    h.hosted.congr rfl (fun _ => rfl) (fun _ => rfl) rfl fun _ => rfl, h.counted, h.installed,
    h.released, hf, hc, hp, h.root_lt, h.root_pid⟩

/-- An installed child comes under the kernel or a parent that is installed too. -/
theorem Intact.attach (h : k.Intact r) {c q : BlockId}
    (hc : k.pids.lookup (k.block c).pid = some c)
    (hq : (k.block q).pid = kernelPid ∨ k.pids.lookup (k.block q).pid = some q) :
    (k.attach c q).Intact r := by
  unfold Kernel.attach
  split
  · next family hf =>
    have hlink := Family.parentLink?_attach hf
    refine Intact.alike (h.with_family (h.family.attach hf) ?_ ?_)
      (.of_update c _ fun _ => ⟨rfl, rfl, rfl, rfl⟩)
    · intro x p hs
      rw [hlink] at hs
      split at hs
      · next hx => exact ⟨c, hx ▸ hc⟩
      · exact h.child hs
    · intro x p hs
      rw [hlink] at hs
      split at hs
      · obtain rfl := Option.some.inj hs
        exact hq.imp_right fun hq => ⟨q, hq⟩
      · exact h.parent hs
  · exact h.alike (.halt ..)

theorem Intact.detach (h : k.Intact r) (p : Pid) :
    { k with family := k.family.detachAll p }.Intact r := by
  have hkept : ∀ {c q}, (k.family.detachAll p).parentLink? c = some q →
      k.family.parentLink? c = some q := by
    intro c q hs
    rw [Family.parentLink?_detachAll] at hs
    split at hs
    · cases hs
    · exact hs
  exact h.with_family (h.family.detachAll p) (fun hs => h.child (hkept hs))
    fun hs => h.parent (hkept hs)

/-! ### Shutting down -/

/-- Shut down, a table has no task left. -/
theorem Intact.shutdown (h : k.Intact r) : k.shutdown.2.Spent := by
  obtain ⟨hdown, hq, -, hfamily⟩ := shutdown_spec h.live h.valid
  obtain ⟨hdrained, -⟩ := h.valid.drain_spec
  have hmem : ∀ b, b ∈ k.pids.drain.1 ↔ ∃ p, k.pids.lookup p = some b := fun b => by
    rw [hdrained, h.valid.mem_occupants]
  have hk : k.shutdown.2 = { k.pids.drain.1.foldl dropBlock
      { k with live := false, pids := k.pids.drain.2 } with family := {} } := by
    unfold Kernel.shutdown
    rw [h.live]
    rfl
  have hopen : { k with live := false, pids := k.pids.drain.2 }.Hosted :=
    h.hosted.congr rfl (fun _ => rfl) (fun _ => rfl) rfl fun _ => rfl
  obtain ⟨hhosted, hreleased⟩ := hopen.foldl_dropBlock k.pids.drain.1 fun b hb => by
    obtain ⟨p, hp⟩ := (hmem b).1 hb
    exact (h.own hp).1
  refine ⟨hdown, ?_, fun b hb => ?_, hfamily⟩
  · rw [hk]
    exact hhosted.congr rfl (fun _ => rfl) (fun _ => rfl) rfl fun _ => rfl
  · rw [hq.size] at hb
    rw [hk]
    refine (hreleased b).trans ?_
    rw [Bool.or_eq_true, decide_eq_true_iff, hmem]
    by_cases hz : (k.block b).refCount = 0
    · exact Or.inr ((h.released b hb).2 hz)
    · exact Or.inl ⟨_, h.installed b hz⟩

/-! ### A new table -/

theorem host_install (k : Kernel) (block : Block) : (k.install block).2.host = k.host := by
  unfold install
  dsimp only
  split <;> rfl

/-- The kernel's block comes with the first task of the host. -/
theorem host_boot {config : Config} {refusal : Option Errno}
    (hb : Kernel.boot config refusal = .ok k) :
    k.blocks = BlockStore.add {} (.kernel config.kernelName ⟨1⟩) ∧
      k.host = (Host.createTask {} config.kernelName).2.attach ⟨1⟩ kernelPid := by
  unfold boot at hb
  split at hb
  · cases hb
  · have hframe : ∀ k₀ : Kernel, k₀.reserve.2.host = k₀.host ∧
        k₀.reserve.2.blocks = k₀.blocks := by
      intro k₀
      unfold reserve
      split
      · exact ⟨rfl, rfl⟩
      · split <;> exact ⟨rfl, rfl⟩
    obtain ⟨hhost, hblocks⟩ := hframe
      { config := config, pids := .ofCapacity config.maxProcesses.toNat }
    dsimp only at hb
    generalize Kernel.reserve _ = out at hb hhost hblocks
    obtain ⟨result, k₁⟩ := out
    cases result with
    | error error => cases hb
    | ok pid =>
      cases refusal with
      | some errno => split at hb <;> cases hb
      | none =>
        have hkept : ∀ k₂ : Kernel, k₂ = (if pid = kernelPid then k₁ else k₁.halt .kernelElsewhere) →
            k₂.host = {} ∧ k₂.blocks = {} := by
          rintro k₂ rfl
          split <;> exact ⟨hhost, hblocks⟩
        dsimp only at hb
        generalize (if pid = kernelPid then k₁ else k₁.halt .kernelElsewhere) = k₂ at hb hkept
        obtain ⟨hhost, hblocks⟩ := hkept k₂ rfl
        obtain ⟨-, hinstall, -⟩ := install_frame (k₂.createTask config.kernelName none).2
          (.kernel config.kernelName ⟨k₂.host.nextTask⟩)
        have hsame := host_install (k₂.createTask config.kernelName none).2
          (.kernel config.kernelName ⟨k₂.host.nextTask⟩)
        have hold : (k₂.createTask config.kernelName none).2.blocks = k₂.blocks := rfl
        have hnew : (k₂.createTask config.kernelName none).2.host =
          (k₂.host.createTask config.kernelName).2 := rfl
        cases hb
        refine ⟨hinstall.trans ?_, (congrArg (Host.attach · ⟨k₂.host.nextTask⟩ kernelPid)
          hsame).trans ?_⟩
        · rw [hold, hblocks, hhost]
        · rw [hnew, hhost]

/-- A table that has just come up is intact. -/
theorem intact_boot {config : Config} {refusal : Option Errno}
    (hb : Kernel.boot config refusal = .ok k) : k.Intact [] := by
  obtain ⟨hs, hsize, -⟩ := sound_boot hb
  obtain ⟨hblocks, hhost⟩ := host_boot hb
  have hroot : k.block root = .kernel config.kernelName ⟨1⟩ := by
    rw [Kernel.block, hblocks]
    rfl
  have hlt : ∀ b, b < k.blocks.size → b = root := by
    intro b hb
    rw [hsize] at hb
    exact Nat.lt_one_iff.1 hb
  have hcontains : ∀ t, k.host.tasks.contains t = decide (t = ⟨1⟩) := by
    intro t
    rw [hhost]
    exact (Assoc.contains_modify ..).trans
      ((contains_createTask ..).trans (Bool.or_false _))
  refine ⟨hs.placed.congr rfl hs.placed.fault.symm rfl rfl (fun _ => rfl) rfl,
    ⟨?_, ?_, ?_⟩, hs.counted.counted, ?_, ?_, hs.kindred.family, ?_, ?_, hs.ordered.root_lt,
    hs.ordered.root_pid⟩
  · intro b hb
    rw [hlt b hb, hroot, hhost]
    exact Nat.one_lt_two
  · intro b hb c hc _
    rw [hlt b hb, hlt c hc]
  · intro t
    rw [hcontains, decide_eq_true_iff]
    constructor
    · rintro rfl
      exact ⟨root, hs.ordered.root_lt, by rw [hroot]; rfl, by rw [hroot]; rfl⟩
    · rintro ⟨b, hb, rfl, -⟩
      rw [hlt b hb, hroot]
      rfl
  · intro b hz
    refine hs.counted.installed b (Nat.lt_of_not_le fun hle => hz ?_) hz
    rw [block_of_size_le hle]
    rfl
  · intro b hb
    rw [hlt b hb, hroot]
    simp [Block.kernel, Block.fresh]
  · intro c p hl
    obtain ⟨b, q, hc, -⟩ := hs.kindred.linked hl
    exact ⟨b, hc⟩
  · intro c p hl
    obtain ⟨b, q, -, hp, -⟩ := hs.kindred.linked hl
    exact Or.inr ⟨q, hp⟩

end Kernel

end Lifecycle
