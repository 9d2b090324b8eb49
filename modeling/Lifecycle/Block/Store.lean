import Lifecycle.Block
import Lifecycle.Fault

/-! All blocks ever made, each under an identity of its own. Two blocks that
had the same pid one after the other differ in identity. -/

namespace Lifecycle

/-- The number of blocks made before it. -/
abbrev BlockId := Nat

structure BlockStore where
  blocks : Array Block := #[]

namespace BlockStore

def size (s : BlockStore) : Nat := s.blocks.size

def get (s : BlockStore) (b : BlockId) : Block := s.blocks.getD b default

def set (s : BlockStore) (b : BlockId) (block : Block) : BlockStore :=
  ⟨s.blocks.setIfInBounds b block⟩

def update (s : BlockStore) (b : BlockId) (f : Block → Block) : BlockStore := s.set b (f (s.get b))

/-- A new block goes under the identity `s.size`. -/
def add (s : BlockStore) (block : Block) : BlockStore := ⟨s.blocks.push block⟩

/-- Another reference for a caller that already has one. -/
def retain (s : BlockStore) (b : BlockId) : Except Fault BlockStore :=
  if (s.get b).refCount = 0 then .error (.deadRetain (s.get b).pid)
  else .ok (s.update b fun block => { block with refCount := block.refCount + 1 })

/-- A reference on a block, unless it is already being torn down. -/
def tryRetain (s : BlockStore) (b : BlockId) : Option BlockStore :=
  if (s.get b).refCount = 0 then none
  else some (s.update b fun block => { block with refCount := block.refCount + 1 })

/-- Give one reference back; true if it was the last. Nothing happens at zero. -/
def release (s : BlockStore) (b : BlockId) : Bool × BlockStore :=
  ((s.get b).refCount == 1, s.update b fun block => { block with refCount := block.refCount - 1 })

/-! ### The view after each operation -/

@[simp] theorem size_set (s : BlockStore) (b : BlockId) (block : Block) :
    (s.set b block).size = s.size := by
  simp [size, set]

@[simp] theorem size_update (s : BlockStore) (b : BlockId) (f : Block → Block) :
    (s.update b f).size = s.size := size_set s b _

@[simp] theorem size_add (s : BlockStore) (block : Block) : (s.add block).size = s.size + 1 := by
  simp [size, add]

theorem get_set (s : BlockStore) (b c : BlockId) (block : Block) :
    (s.set b block).get c = if c = b ∧ b < s.size then block else s.get c := by
  simp only [get, set, size, Array.getD_eq_getD_getElem?, Array.getElem?_setIfInBounds]
  by_cases h : b = c
  · subst h; by_cases hb : b < s.blocks.size <;> simp [hb]
  · simp [h, Ne.symm h]

theorem get_update (s : BlockStore) (b c : BlockId) (f : Block → Block) :
    (s.update b f).get c = if c = b ∧ b < s.size then f (s.get c) else s.get c := by
  rw [update, get_set]
  by_cases h : c = b
  · subst h; rfl
  · simp [h]

theorem get_add (s : BlockStore) (c : BlockId) (block : Block) :
    (s.add block).get c = if c = s.size then block else s.get c := by
  simp only [get, add, size, Array.getD_eq_getD_getElem?, Array.getElem?_push]
  by_cases h : c = s.blocks.size <;> simp [h]

theorem get_of_size_le (s : BlockStore) {c : BlockId} (h : s.size ≤ c) : s.get c = default := by
  simp [get, size, Array.getD_eq_getD_getElem?] at *
  simp [h]

end BlockStore

end Lifecycle
