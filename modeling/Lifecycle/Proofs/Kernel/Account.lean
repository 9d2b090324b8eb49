import Lifecycle.Proofs.Family
import Lifecycle.Proofs.Kernel.Performing
import Lifecycle.Proofs.PidMap.Spec

/-! What every operation of a live table keeps. An account says how the blocks
came about and what the surroundings of the table hold: references, pids taken for
blocks to come, children not linked yet. A kernel is sound for an account if its
pid map, its counts, its flags and its family agree with each other and with the
account. -/

namespace Lifecycle

@[ext] structure Account where
  /-- The process whose fork made a block; none for the others. -/
  forker : BlockId → Option BlockId
  /-- Blocks whose table reference a holder has given back. -/
  given : BlockId → Bool
  /-- References held outside the table. -/
  owed : BlockId → Nat
  /-- Children that their fork has not linked yet. -/
  half : List BlockId
  /-- Children taken from an exiting parent and not moved on yet. -/
  adrift : List BlockId
  /-- Pids taken for blocks to come. -/
  reserved : List Pid

namespace Account

def owe (a : Account) (b : BlockId) : Account :=
  { a with owed := fun c => a.owed c + if c = b then 1 else 0 }

def carry (a : Account) (b : BlockId) : Account := { a with half := b :: a.half }

def reserve (a : Account) (p : Pid) : Account := { a with reserved := p :: a.reserved }

def give (a : Account) (b : BlockId) : Account := { a with given := fun c => c == b || a.given c }

def beget (a : Account) (child parent : BlockId) : Account :=
  { a with forker := fun c => if c = child then some parent else a.forker c }

/-- The account of a table that has just come up. -/
def initial : Account where
  forker _ := none
  given _ := false
  owed _ := 0
  half := []
  adrift := []
  reserved := []

@[simp] theorem owed_owe (a : Account) (b c : BlockId) :
    (a.owe b).owed c = a.owed c + if c = b then 1 else 0 := rfl

theorem owe_comm (a : Account) (b c : BlockId) : (a.owe b).owe c = (a.owe c).owe b := by
  ext1 <;> try rfl
  funext d
  simp only [owed_owe]
  omega

end Account

/-- No pid in use is the word for "no parent". -/
theorem Block.adopt_of_lookup {m : PidMap} (hv : m.Valid)
    (hbound : m.capacity ≤ maxPidSpace.toNat) {p : Pid} {c : BlockId} (hl : m.lookup p = some c)
    (x : Block) : x.adopt p = { x with parent := some p } := by
  have hlt := hv.lookup_lt hl
  have hne : p ≠ noParent := by
    rintro rfl
    simp [noParent] at hlt
    simp [maxPidSpace] at hbound
    omega
  rw [Block.adopt, if_neg hne]

namespace Kernel

/-- A block sits at its own pid, and a pid is taken for a block or for one to come. -/
structure Placed (k : Kernel) (a : Account) : Prop where
  live : k.live = true
  fault : k.fault = none
  valid : k.pids.Valid
  bound : k.pids.capacity ≤ maxPidSpace.toNat
  own : ∀ {p b}, k.pids.lookup p = some b → b < k.blocks.size ∧ (k.block b).pid = p
  taken : ∀ p, k.pids.isAllocated p = true ↔ (∃ b, k.pids.lookup p = some b) ∨ p ∈ a.reserved
  empty : ∀ p ∈ a.reserved, k.pids.lookup p = none
  nodup : a.reserved.Nodup

/-- A block has the table's reference until it is reaped, or that reference is
given back, and those held outside; it is installed as long as it has any. -/
structure Counted (k : Kernel) (a : Account) : Prop where
  count : ∀ b < k.blocks.size, (k.block b).refCount =
    (if (k.block b).reaped || a.given b then 0 else 1) + a.owed b
  installed : ∀ b < k.blocks.size, (k.block b).refCount ≠ 0 →
    k.pids.lookup (k.block b).pid = some b
  counted : ∀ {p b}, k.pids.lookup p = some b → (k.block b).refCount ≠ 0
  unborn : ∀ b, k.blocks.size ≤ b → a.owed b = 0

/-- The flags of a block rise in their order, and never for the kernel's own. -/
structure Ordered (k : Kernel) : Prop where
  exiting : ∀ b, (k.block b).exited = true → (k.block b).exiting = true
  exited : ∀ b, (k.block b).reaped = true → (k.block b).exited = true
  root_lt : root < k.blocks.size
  root_pid : (k.block root).pid = kernelPid
  root_parent : (k.block root).parent = none

/-- Parents, links and child lists agree. A process is a child of the one that
forked it, or of the kernel from before it is linked or since its forker exits; it
is in the list of its parent as long as that is installed. -/
structure Kindred (k : Kernel) (a : Account) : Prop where
  born : ∀ {b q}, a.forker b = some q → q < b ∧ b < k.blocks.size
  given : ∀ {b}, a.given b = true → b < k.blocks.size ∧ b ≠ root ∧ a.forker b = none
  forked : ∀ {b}, (k.block b).exiting = true → ∃ q, a.forker b = some q
  parent : ∀ b < k.blocks.size, b ≠ root → (k.block b).parent = some kernelPid ∨
    ∃ q, a.forker b = some q ∧ (k.block b).parent = some (k.block q).pid
  half : ∀ b ∈ a.half, (∃ q, a.forker b = some q) ∧ (k.block b).parent = some kernelPid ∧
    (k.block b).exiting = false ∧ k.family.parentLink? (k.block b).pid = none
  half_nodup : a.half.Nodup
  adrift : ∀ b ∈ a.adrift, b ∉ a.half ∧ k.family.parentLink? (k.block b).pid = none ∧
    ∃ q, a.forker b = some q ∧ (k.block q).exiting = true
  adrift_nodup : (a.adrift.map fun b => (k.block b).pid).Nodup
  moved : ∀ {b q}, a.forker b = some q → b ∉ a.half → (k.block b).reaped = false →
    (k.block b).parent = some kernelPid → q = root ∨ (k.block q).exiting = true
  family : k.family.Coherent
  linked : ∀ {c p}, k.family.parentLink? c = some p → ∃ b q, k.pids.lookup c = some b ∧
    k.pids.lookup p = some q ∧ (k.block b).parent = some p ∧ (q = root ∨ a.forker b = some q)
  kin : ∀ {b q p}, a.forker b = some q → b ∉ a.half → b ∉ a.adrift →
    (k.block b).reaped = false → (k.block b).parent = some p →
    (p = kernelPid ∨ k.pids.lookup p = some q) → k.family.parentLink? (k.block b).pid = some p

structure Sound (k : Kernel) (a : Account) : Prop where
  placed : k.Placed a
  counted : k.Counted a
  ordered : k.Ordered
  kindred : k.Kindred a

/-! ### Consequences -/

namespace Sound

variable {k : Kernel} {a : Account} (h : k.Sound a)
include h

theorem lookup_of_installed {p : Pid} {b : BlockId} (hb : k.pids.lookup p = some b) :
    k.pids.lookup (k.block b).pid = some b := by
  rw [(h.placed.own hb).2]
  exact hb

/-- A block with a reference outside is installed. -/
theorem lookup_of_owed {b : BlockId} (ho : a.owed b ≠ 0) :
    k.pids.lookup (k.block b).pid = some b := by
  have hb : b < k.blocks.size := Nat.lt_of_not_le fun hle => ho (h.counted.unborn b hle)
  apply h.counted.installed b hb
  rw [h.counted.count b hb]
  omega

/-- So is one that the table still has its own reference on. -/
theorem lookup_of_unreaped {b : BlockId} (hb : b < k.blocks.size)
    (hr : (k.block b).reaped = false) (hg : a.given b = false) :
    k.pids.lookup (k.block b).pid = some b := by
  apply h.counted.installed b hb
  rw [h.counted.count b hb, hr, hg]
  simp

theorem given_of_forker {b q : BlockId} (hf : a.forker b = some q) : a.given b = false := by
  cases hg : a.given b with
  | false => rfl
  | true => rw [(h.kindred.given hg).2.2] at hf; cases hf

/-- A forked process that is not reaped is installed. -/
theorem lookup_of_forker {b q : BlockId} (hf : a.forker b = some q)
    (hr : (k.block b).reaped = false) : k.pids.lookup (k.block b).pid = some b :=
  h.lookup_of_unreaped (h.kindred.born hf).2 hr (h.given_of_forker hf)

theorem exited_of_not_exiting {b : BlockId} (he : (k.block b).exiting = false) :
    (k.block b).exited = false :=
  Bool.eq_false_iff.2 fun hx => absurd (h.ordered.exiting b hx) (Bool.eq_false_iff.1 he)

theorem reaped_of_not_exiting {b : BlockId} (he : (k.block b).exiting = false) :
    (k.block b).reaped = false :=
  Bool.eq_false_iff.2 fun hr =>
    absurd (h.ordered.exited b hr) (Bool.eq_false_iff.1 (h.exited_of_not_exiting he))

theorem ne_root_of_forker {b q : BlockId} (hf : a.forker b = some q) : b ≠ root := by
  rintro rfl
  exact absurd (h.kindred.born hf).1 (Nat.not_lt_zero q)

theorem exiting_root : (k.block root).exiting = false := by
  cases he : (k.block root).exiting with
  | false => rfl
  | true =>
    obtain ⟨q, hq⟩ := h.kindred.forked he
    exact absurd rfl (h.ne_root_of_forker hq)

theorem lookup_root : k.pids.lookup kernelPid = some root := by
  have hg : a.given root = false := by
    cases hg : a.given root with
    | false => rfl
    | true => exact absurd rfl (h.kindred.given hg).2.1
  have hl := h.lookup_of_unreaped h.ordered.root_lt (h.reaped_of_not_exiting h.exiting_root) hg
  rwa [h.ordered.root_pid] at hl

omit h in
/-- Two blocks installed at one pid are one block. -/
theorem eq_of_pid {b c : BlockId} (hb : k.pids.lookup (k.block b).pid = some b)
    (hc : k.pids.lookup (k.block c).pid = some c) (hp : (k.block b).pid = (k.block c).pid) :
    b = c := by
  rw [hp, hc] at hb
  exact (Option.some.inj hb).symm

theorem pid_ne_kernelPid {b : BlockId} (hb : k.pids.lookup (k.block b).pid = some b)
    (hr : b ≠ root) : (k.block b).pid ≠ kernelPid := by
  intro hp
  rw [hp, h.lookup_root] at hb
  exact hr (Option.some.inj hb).symm

theorem adopt_eq {b : BlockId} (hb : k.pids.lookup (k.block b).pid = some b) (x : Block) :
    x.adopt (k.block b).pid = { x with parent := some (k.block b).pid } :=
  x.adopt_of_lookup h.placed.valid h.placed.bound hb

end Sound

/-! ### Agreement of kernels -/

section Congruence

variable {k k' : Kernel} {a a' : Account}

/-- Where pids, their reservations and the blocks' own pids agree, so does placement. -/
theorem Placed.congr (h : k.Placed a) (hl : k'.live = k.live) (hf : k'.fault = k.fault)
    (hp : k'.pids = k.pids) (hs : k'.blocks.size = k.blocks.size)
    (hb : ∀ b, (k'.block b).pid = (k.block b).pid) (hr : a'.reserved = a.reserved) :
    k'.Placed a' where
  live := hl.trans h.live
  fault := hf.trans h.fault
  valid := hp ▸ h.valid
  bound := hp ▸ h.bound
  own hk := by
    rw [hp] at hk
    rw [hs, hb]
    exact h.own hk
  taken p := by rw [hp, hr]; exact h.taken p
  empty p hk := by rw [hp]; exact h.empty p (hr ▸ hk)
  nodup := hr ▸ h.nodup

/-- Where counts, pids and reaping agree, so do the counts with the account. -/
theorem Counted.congr (h : k.Counted a) (hs : k'.blocks.size = k.blocks.size)
    (hp : k'.pids.lookup = k.pids.lookup)
    (hb : ∀ b, (k'.block b).pid = (k.block b).pid ∧
      (k'.block b).refCount = (k.block b).refCount ∧ (k'.block b).reaped = (k.block b).reaped)
    (ho : a'.owed = a.owed) (hg : a'.given = a.given) : k'.Counted a' where
  count b hlt := by
    rw [(hb b).2.1, (hb b).2.2, ho, hg]
    exact h.count b (hs ▸ hlt)
  installed b hlt hz := by
    rw [(hb b).2.1] at hz
    rw [(hb b).1, hp]
    exact h.installed b (hs ▸ hlt) hz
  counted {p b} hl := by
    rw [hp] at hl
    rw [(hb b).2.1]
    exact h.counted hl
  unborn b hle := by
    rw [ho]
    exact h.unborn b (hs ▸ hle)

theorem Ordered.congr (h : k.Ordered) (hq : k.Quiet k') : k'.Ordered where
  exiting b := by rw [hq.exited, hq.exiting]; exact h.exiting b
  exited b := by rw [hq.reaped, hq.exited]; exact h.exited b
  root_lt := by rw [hq.size]; exact h.root_lt
  root_pid := by rw [hq.pid]; exact h.root_pid
  root_parent := by rw [hq.parent]; exact h.root_parent

/-- Where pids and links agree as well, quiet operations keep the family. -/
theorem Kindred.congr (h : k.Kindred a) (hq : k.Quiet k') (hp : k'.pids.lookup = k.pids.lookup)
    (hf : k'.family = k.family) (hd : a'.forker = a.forker) (hg : a'.given = a.given)
    (hh : a'.half = a.half) (ha : a'.adrift = a.adrift) : k'.Kindred a' where
  born hb := by rw [hq.size]; exact h.born (hd ▸ hb)
  given hb := by rw [hq.size, hd]; exact h.given (hg ▸ hb)
  forked hb := by rw [hd]; exact h.forked (hq.exiting _ ▸ hb)
  parent b hb := by
    simp only [hq.parent, hq.pid, hd]
    exact h.parent b (hq.size ▸ hb)
  half b hb := by
    simp only [hq.parent, hq.pid, hq.exiting, hd, hf]
    exact h.half b (hh ▸ hb)
  half_nodup := hh ▸ h.half_nodup
  adrift b hb := by
    simp only [hq.pid, hq.exiting, hd, hf, hh]
    exact h.adrift b (ha ▸ hb)
  adrift_nodup := by
    simp only [hq.pid, ha]
    exact h.adrift_nodup
  moved := by
    simp only [hq.reaped, hq.parent, hq.exiting, hd, hh]
    exact h.moved
  family := hf ▸ h.family
  linked := by
    simp only [hq.parent, hp, hf, hd]
    exact h.linked
  kin := by
    simp only [hq.reaped, hq.parent, hq.pid, hp, hf, hd, hh, ha]
    exact h.kin

/-- Soundness does not look at the host. -/
theorem Sound.of_table (h : k.Sound a) (ht : k'.table = k.table) : k'.Sound a := by
  have hq := Quiet.of_table ht
  have hp : k'.pids = k.pids := congrArg Table.pids ht
  have hf : k'.family = k.family := congrArg Table.family ht
  have hb := block_eq_of_table ht
  have hl : k'.pids.lookup = k.pids.lookup := congrArg PidMap.lookup hp
  refine ⟨h.placed.congr (congrArg Table.live ht) (congrArg Table.fault ht) hp hq.size hq.pid rfl,
    h.counted.congr hq.size hl (fun b => ?_) rfl rfl, h.ordered.congr hq,
    h.kindred.congr hq hl hf rfl rfl rfl rfl⟩
  rw [hb]
  exact ⟨rfl, rfl, rfl⟩

end Congruence

end Kernel

end Lifecycle
