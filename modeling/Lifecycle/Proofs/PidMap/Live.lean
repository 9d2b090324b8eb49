import Lifecycle.Proofs.PidMap.Valid
import Mathlib.Data.List.Nodup

/-! The pids that are in use: those with a block installed, in ascending order, and how many
are taken in all. -/

namespace Lifecycle.PidMap.Valid

variable {m : PidMap} (h : m.Valid)
include h

/-- The pids listed are those at which a lookup succeeds. -/
theorem mem_livePids {p : Pid} : p ∈ m.livePids ↔ ∃ b, m.lookup p = some b := by
  have hslot : ∀ {o : Option BlockId} {i : Nat}, (o, i) ∈ m.slots.toList.zipIdx →
      i < m.capacity ∧ m.slot i = o := by
    intro o i hm
    rw [List.mem_zipIdx_iff_getElem?, Array.getElem?_toList] at hm
    obtain ⟨hi, -⟩ := Array.getElem?_eq_some_iff.1 hm
    exact ⟨h.slots ▸ hi, by rw [slot, Array.getD_eq_getD_getElem?, hm, Option.getD_some]⟩
  unfold livePids
  simp only [List.mem_map, List.mem_filter, Option.isSome_iff_exists, Prod.exists]
  constructor
  · rintro ⟨o, i, ⟨hm, b, rfl⟩, rfl⟩
    obtain ⟨hi, hb⟩ := hslot hm
    exact ⟨b, by rw [h.lookup_eq, h.toNat_ofNat hi, hb]⟩
  · rintro ⟨b, hb⟩
    have hlt := h.lookup_lt hb
    have hs : m.slot p.toNat = some b := h.lookup_eq p ▸ hb
    refine ⟨some b, p.toNat, ⟨?_, b, rfl⟩, UInt32.ofNat_toNat⟩
    rw [List.mem_zipIdx_iff_getElem?, Array.getElem?_toList]
    have hsize : p.toNat < m.slots.size := h.slots.symm ▸ hlt
    simpa [slot, Array.getD_eq_getD_getElem?, hsize] using hs

theorem ascending_livePids : m.livePids.Pairwise (· < ·) := by
  have hindices : m.slots.toList.zipIdx.Pairwise (·.2 < ·.2) := by
    rw [← List.pairwise_map (R := (· < ·)) (f := Prod.snd), List.zipIdx_map_snd]
    exact List.pairwise_lt_range'
  have hbound : ∀ {x : Option BlockId × Nat}, x ∈ m.slots.toList.zipIdx → x.2 < m.capacity := by
    intro x hx
    rw [List.mem_zipIdx_iff_getElem?, Array.getElem?_toList] at hx
    exact h.slots ▸ (Array.getElem?_eq_some_iff.1 hx).1
  refine List.pairwise_map.2 ((hindices.filter _).imp_of_mem fun {x y} hx hy hlt => ?_)
  rw [UInt32.lt_iff_toNat_lt, h.toNat_ofNat (hbound (List.mem_of_mem_filter hx)),
    h.toNat_ofNat (hbound (List.mem_of_mem_filter hy))]
  exact hlt

/-- No pid is listed twice. -/
theorem nodup_livePids : m.livePids.Nodup :=
  h.ascending_livePids.imp UInt32.ne_of_lt

/-- The free pids are those that a list of all pids taken leaves. -/
theorem free_add_length {ps : List Pid} (hn : ps.Nodup)
    (hp : ∀ p, m.isAllocated p = true ↔ p ∈ ps) : m.free + ps.length = m.capacity := by
  have hinj : (ps.map UInt32.toNat).Nodup := hn.map fun _ _ he => UInt32.toNat_inj.1 he
  have hperm : ((List.range m.capacity).filter m.isTaken).Perm (ps.map UInt32.toNat) := by
    refine (List.perm_ext_iff_of_nodup (List.nodup_range.filter _) hinj).2 fun i => ?_
    rw [List.mem_filter, List.mem_range, List.mem_map]
    constructor
    · rintro ⟨hi, ht⟩
      have hto := h.toNat_ofNat hi
      exact ⟨UInt32.ofNat i, (hp _).1 (by simp [isAllocated, hto, hi, ht]), hto⟩
    · rintro ⟨p, hm, rfl⟩
      simpa [isAllocated] using (hp p).2 hm
  have hlength := hperm.length_eq
  rw [List.length_map, ← List.countP_eq_length_filter] at hlength
  rw [← hlength]
  exact h.counted

end Lifecycle.PidMap.Valid
