import Lifecycle.Proofs.Kernel.References

/-! Flags that rise keep a kernel sound. A block that is reaped loses the table's
reference on it, which is then held outside until it is given back. -/

namespace Lifecycle

/-- How a block changes while it stays in its place: its flags rise, in their order. -/
structure Block.Rises (x y : Block) : Prop where
  pid : y.pid = x.pid
  parent : y.parent = x.parent
  refCount : y.refCount = x.refCount
  exiting : x.exiting = true → y.exiting = true
  reaped : x.reaped = true → y.reaped = true
  exited_le : y.exited = true → y.exiting = true
  reaped_le : y.reaped = true → y.exited = true

namespace Block

theorem state_eq_running_iff (b : Block) :
    b.state = .running ↔ b.reaped = false ∧ b.exited = false := by
  unfold state
  cases b.reaped <;> cases b.exited <;> simp

theorem state_eq_zombie_iff (b : Block) :
    b.state = .zombie ↔ b.reaped = false ∧ b.exited = true := by
  unfold state
  cases b.reaped <;> cases b.exited <;> simp

theorem state_eq_reaped_iff (b : Block) : b.state = .reaped ↔ b.reaped = true := by
  unfold state
  cases b.reaped <;> cases b.exited <;> simp

theorem state_ne_reaped_iff (b : Block) : b.state ≠ .reaped ↔ b.reaped = false := by
  rw [ne_eq, state_eq_reaped_iff, Bool.not_eq_true]

theorem rises_unwound (b : Block) : b.Rises b.unwound :=
  ⟨rfl, rfl, rfl, fun _ => rfl, fun _ => rfl, fun _ => rfl, fun _ => rfl⟩

theorem rises_committed {b : Block} (he : b.exited = true → b.exiting = true)
    (hr : b.reaped = true → b.exited = true) : b.Rises b.committed :=
  ⟨rfl, rfl, rfl, id, id, he, hr⟩

theorem rises_collected {b : Block} (hx : b.exiting = true) (he : b.exited = true) :
    b.Rises b.collected :=
  ⟨rfl, rfl, rfl, id, fun _ => rfl, fun _ => hx, fun _ => he⟩

theorem rises_leaving {b : Block} (hr : b.reaped = true → b.exited = true) :
    b.Rises b.leaving :=
  ⟨rfl, rfl, rfl, fun _ => rfl, id, fun _ => rfl, hr⟩

theorem rises_published {b : Block} (hx : b.exiting = true) (status : RawStatus) :
    b.Rises (b.published status) :=
  ⟨rfl, rfl, rfl, id, id, fun _ => hx, fun _ => rfl⟩

end Block

/-- A child that has been linked, or whose fork is unwound. -/
def Account.land (a : Account) (b : BlockId) : Account := { a with half := a.half.erase b }

@[simp] theorem Account.land_carry (a : Account) (b : BlockId) : (a.carry b).land b = a := by
  simp [land, carry]

theorem Account.land_of_not_mem {a : Account} {b : BlockId} (hb : b ∉ a.half) : a.land b = a := by
  rw [land, List.erase_of_not_mem hb]

namespace Kernel

section Rise

variable {k : Kernel} {a : Account} {b : BlockId} {f : Block → Block}

/-- What the change leaves as it was in every block. -/
theorem rises_frame (hr : (k.block b).Rises (f (k.block b))) (c : BlockId) :
    ((k.update b f).block c).pid = (k.block c).pid ∧
      ((k.update b f).block c).parent = (k.block c).parent ∧
      ((k.update b f).block c).refCount = (k.block c).refCount := by
  rw [block_update]
  split
  · next h => rw [h.1]; exact ⟨hr.pid, hr.parent, hr.refCount⟩
  · exact ⟨rfl, rfl, rfl⟩

theorem rises_exiting (hr : (k.block b).Rises (f (k.block b))) {c : BlockId}
    (hc : (k.block c).exiting = true) : ((k.update b f).block c).exiting = true := by
  rw [block_update]
  split
  · next h => rw [h.1] at hc ⊢; exact hr.exiting hc
  · exact hc

theorem rises_reaped (hr : (k.block b).Rises (f (k.block b))) {c : BlockId}
    (hc : ((k.update b f).block c).reaped = false) : (k.block c).reaped = false := by
  rw [block_update] at hc
  split at hc
  · next h =>
    rw [h.1] at hc ⊢
    cases hx : (k.block b).reaped with
    | false => rfl
    | true => rw [hr.reaped hx] at hc; cases hc
  · exact hc

theorem Ordered.rise (h : k.Ordered) (hr : (k.block b).Rises (f (k.block b))) :
    (k.update b f).Ordered where
  exiting c hc := by
    rw [block_update] at hc ⊢
    split at hc
    · next he => rw [if_pos he, he.1]; rw [he.1] at hc; exact hr.exited_le hc
    · next he => rw [if_neg he]; exact h.exiting c hc
  exited c hc := by
    rw [block_update] at hc ⊢
    split at hc
    · next he => rw [if_pos he, he.1]; rw [he.1] at hc; exact hr.reaped_le hc
    · next he => rw [if_neg he]; exact h.exited c hc
  root_lt := by rw [size_update]; exact h.root_lt
  root_pid := by rw [(rises_frame hr root).1]; exact h.root_pid
  root_parent := by rw [(rises_frame hr root).2.1]; exact h.root_parent

/-- A child may leave the half-forked ones when it is reaped; otherwise it must not
begin to exit. -/
theorem Kindred.rise (h : k.Kindred a) (hr : (k.block b).Rises (f (k.block b)))
    (hq : (f (k.block b)).exiting = true → ∃ q, a.forker b = some q) {half : List BlockId}
    (hsub : half.Sublist a.half)
    (hkeep : ∀ c ∈ a.half, c ∉ half → ((k.update b f).block c).reaped = true)
    (hout : (f (k.block b)).exiting = true → b ∉ half) :
    (k.update b f).Kindred { a with half := half } where
  born hc := by rw [size_update]; exact h.born hc
  given hc := by rw [size_update]; exact h.given hc
  forked {c} hc := by
    rw [block_update] at hc
    split at hc
    · next he => rw [he.1] at hc ⊢; exact hq hc
    · exact h.forked hc
  parent c hc := by
    rw [size_update] at hc
    simp only [(rises_frame hr _).1, (rises_frame hr _).2.1]
    exact h.parent c hc
  half c hc := by
    obtain ⟨hd, hp, he, hn⟩ := h.half c (hsub.subset hc)
    rw [(rises_frame hr c).1, (rises_frame hr c).2.1]
    refine ⟨hd, hp, ?_, hn⟩
    rw [block_update]
    split
    · next hb =>
      rw [hb.1] at hc ⊢
      exact Bool.eq_false_iff.2 fun hx => hout hx hc
    · exact he
  half_nodup := h.half_nodup.sublist hsub
  adrift c hc := by
    obtain ⟨hd, hn, q, hfq, he⟩ := h.adrift c hc
    rw [(rises_frame hr c).1]
    exact ⟨fun hm => hd (hsub.subset hm), hn, q, hfq, rises_exiting hr he⟩
  adrift_nodup := by
    simp only [(rises_frame hr _).1]
    exact h.adrift_nodup
  moved {c q} hc hhalf hx hp := by
    rw [(rises_frame hr c).2.1] at hp
    have hnot : c ∉ a.half := fun hm => by
      rw [hkeep c hm hhalf] at hx
      cases hx
    exact (h.moved hc hnot (rises_reaped hr hx) hp).imp_right (rises_exiting hr)
  family := h.family
  linked {c p} hl := by
    simp only [(rises_frame hr _).2.1]
    exact h.linked hl
  kin {c q p} hc hhalf hadrift hx hp hl := by
    rw [(rises_frame hr c).2.1] at hp
    rw [(rises_frame hr c).1]
    have hnot : c ∉ a.half := fun hm => by
      rw [hkeep c hm hhalf] at hx
      cases hx
    exact h.kin hc hnot hadrift (rises_reaped hr hx) hp hl

theorem Placed.rise (h : k.Placed a) (hr : (k.block b).Rises (f (k.block b))) {a' : Account}
    (ha : a'.reserved = a.reserved) : (k.update b f).Placed a' :=
  h.congr rfl rfl rfl (size_update ..) (fun c => (rises_frame hr c).1) ha

/-- Flags below the last may rise in a process that is not half-forked. -/
theorem Sound.rise (h : k.Sound a) (hr : (k.block b).Rises (f (k.block b)))
    (hx : (f (k.block b)).reaped = (k.block b).reaped)
    (hq : (f (k.block b)).exiting = true → b ∉ a.half ∧ ∃ q, a.forker b = some q) :
    (k.update b f).Sound a := by
  have hreaped : ∀ c, ((k.update b f).block c).reaped = (k.block c).reaped :=
    view_update Block.reaped hx
  exact ⟨h.placed.rise hr rfl,
    h.counted.congr (size_update ..) rfl
      (fun c => ⟨(rises_frame hr c).1, (rises_frame hr c).2.2, hreaped c⟩) rfl rfl,
    h.ordered.rise hr,
    h.kindred.rise hr (fun he => (hq he).2) (List.Sublist.refl _)
      (fun c hm hn => absurd hm hn) (fun he => (hq he).1)⟩

theorem Counted.reap (h : k.Counted a) (hr : (k.block b).Rises (f (k.block b)))
    (hlt : b < k.blocks.size) (hg : a.given b = false) (hx : (k.block b).reaped = false)
    (hreaped : ∀ c, ((k.update b f).block c).reaped = if c = b then true else (k.block c).reaped) :
    (k.update b f).Counted ((a.land b).owe b) where
  count c hc := by
    have hcount := h.count c (size_update .. ▸ hc)
    rw [(rises_frame hr c).2.2, hreaped, hcount, Account.owed_owe]
    by_cases hcb : c = b
    · subst hcb
      simp only [hx, hg, Account.land, if_true, Bool.true_or, Bool.or_false, if_false,
        Bool.false_eq_true]
      omega
    · rw [if_neg hcb, if_neg hcb]
      rfl
  installed c hc hz := by
    rw [(rises_frame hr c).2.2] at hz
    rw [(rises_frame hr c).1]
    exact h.installed c (size_update .. ▸ hc) hz
  counted {p c} hl := by
    rw [(rises_frame hr c).2.2]
    exact h.counted hl
  unborn c hc := by
    rw [size_update] at hc
    have hne : c ≠ b := fun he => absurd hlt (Nat.not_lt.2 (he ▸ hc))
    rw [Account.owed_owe, if_neg hne]
    exact h.unborn c hc

/-- Reaping leaves the table's reference to be given back. -/
theorem Sound.reap (h : k.Sound a) (hr : (k.block b).Rises (f (k.block b))) {q : BlockId}
    (hq : a.forker b = some q) (hx : (k.block b).reaped = false)
    (hy : (f (k.block b)).reaped = true) :
    (k.update b f).Sound ((a.land b).owe b) := by
  have hlt := (h.kindred.born hq).2
  have hreaped : ∀ c, ((k.update b f).block c).reaped =
      if c = b then true else (k.block c).reaped := by
    intro c
    by_cases hc : c = b
    · rw [hc, block_update_self hlt, if_pos rfl]
      exact hy
    · rw [block_update_of_ne hc, if_neg hc]
  have hk := h.kindred.rise hr (fun _ => ⟨q, hq⟩) List.erase_sublist
    (fun c hm hn => by
      rw [hreaped, if_pos]
      exact Classical.byContradiction fun hc => hn ((List.mem_erase_of_ne hc).2 hm))
    (fun _ => h.kindred.half_nodup.not_mem_erase)
  exact ⟨h.placed.rise hr rfl, h.counted.reap hr hlt (h.given_of_forker hq) hx hreaped,
    h.ordered.rise hr, hk.congr (.refl _) rfl rfl rfl rfl rfl rfl⟩

end Rise

end Kernel

end Lifecycle
