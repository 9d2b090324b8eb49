import Lifecycle.Family

/-! A family is coherent if its two halves mirror each other: a process is in the
list of the parent it is linked under, once, and in no other. Every change to a
family keeps it so. -/

namespace Lifecycle.Family

structure Coherent (f : Family) : Prop where
  mirror : ∀ c p, f.parentLink? c = some p ↔ c ∈ f.childrenOf p
  nodup : ∀ p, (f.childrenOf p).Nodup

/-- Forget a process that is torn down: its own link, its list, and the links of
the children still in it. -/
def forget (f : Family) (pid : Pid) : Family := (f.unlink pid).dropList pid

namespace Coherent

theorem empty : Coherent {} where
  mirror c p := by simp [parentLink?, childrenOf]
  nodup p := by simp [childrenOf]

variable {f : Family} (h : f.Coherent)
include h

theorem attach {g : Family} {child parent : Pid} (ha : f.attach child parent = .ok g) :
    g.Coherent where
  mirror c p := by
    have hfree : f.parentLink? child = none := (attach_eq_ok_iff.1 ha).1
    have hm := h.mirror c p
    rw [parentLink?_attach ha, childrenOf_attach ha]
    by_cases hc : c = child
    · subst hc
      have hnot : c ∉ f.childrenOf p := fun hmem => by
        rw [hm.2 hmem] at hfree
        cases hfree
      by_cases hp : p = parent
      · simp [hp]
      · simp [hp, hnot, Ne.symm hp]
    · by_cases hp : p = parent
      · subst hp
        simp [hc, hm]
      · simp [hc, hp, hm]
  nodup p := by
    have hfree : f.parentLink? child = none := (attach_eq_ok_iff.1 ha).1
    rw [childrenOf_attach ha]
    split
    · have hnot : child ∉ f.childrenOf p := fun hmem => by
        rw [(h.mirror child p).2 hmem] at hfree
        cases hfree
      rw [List.nodup_append]
      refine ⟨h.nodup p, by simp, ?_⟩
      intro c hc d hd he
      rw [List.mem_singleton] at hd
      exact hnot (hd ▸ he ▸ hc)
    · exact h.nodup p

theorem unlink (child : Pid) : (f.unlink child).Coherent where
  mirror c p := by
    have hm := h.mirror c p
    rw [parentLink?_unlink, childrenOf_unlink]
    by_cases hc : c = child
    · subst hc
      by_cases hp : f.parentLink? c = some p
      · simp [hp]
      · simpa [hp] using fun hmem => hp (hm.2 hmem)
    · by_cases hp : f.parentLink? child = some p
      · simp [hc, hp, hm]
      · simp [hc, hp, hm]
  nodup p := by
    rw [childrenOf_unlink]
    split
    · exact (h.nodup p).filter _
    · exact h.nodup p

theorem dropList (parent : Pid) : (f.dropList parent).Coherent where
  mirror c p := by
    have hm := h.mirror c p
    have hparent := h.mirror c parent
    rw [parentLink?_dropList, childrenOf_dropList]
    by_cases hp : p = parent
    · subst hp
      by_cases hc : c ∈ f.childrenOf p
      · simp [hc]
      · simpa [hc] using fun hl => hc (hm.1 hl)
    · by_cases hc : c ∈ f.childrenOf parent
      · have hne : c ∉ f.childrenOf p := fun hmem => by
          rw [hm.2 hmem] at hparent
          exact hp (Option.some.inj (hparent.2 hc))
        simp [hc, hp, hne]
      · simp [hc, hp, hm]
  nodup p := by
    rw [childrenOf_dropList]
    split
    · exact List.nodup_nil
    · exact h.nodup p

theorem forget (pid : Pid) : (f.forget pid).Coherent := (h.unlink pid).dropList pid

theorem detachAll (parent : Pid) : (f.detachAll parent).Coherent where
  mirror c p := by
    have hd := (h.dropList parent).mirror c p
    rw [parentLink?_detachAll, childrenOf_detachAll, ← parentLink?_dropList,
      ← childrenOf_dropList]
    exact hd
  nodup p := by
    rw [childrenOf_detachAll, ← childrenOf_dropList]
    exact (h.dropList parent).nodup p

/-- A link survives if neither the child nor the parent is the one forgotten. -/
theorem parentLink?_forget (pid c p : Pid) :
    (f.forget pid).parentLink? c = some p ↔
      c ≠ pid ∧ p ≠ pid ∧ f.parentLink? c = some p := by
  have hu := (h.unlink pid).mirror c pid
  rw [parentLink?_unlink] at hu
  rw [Family.forget, parentLink?_dropList, parentLink?_unlink]
  by_cases hc : c = pid
  · simp [hc]
  · simp only [hc, if_false] at hu ⊢
    by_cases hl : f.parentLink? c = some pid
    · simp only [if_pos (hu.1 hl), hl, reduceCtorEq, Option.some.injEq, false_iff]
      rintro ⟨_, hp, he⟩
      exact hp he.symm
    · rw [if_neg (mt hu.2 hl)]
      exact ⟨fun he => ⟨hc, fun hp => hl (hp ▸ he), he⟩, fun he => he.2.2⟩

end Coherent

end Lifecycle.Family
