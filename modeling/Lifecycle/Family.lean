import Lifecycle.Assoc
import Lifecycle.Fault

/-! Who is whose child: for each parent the list of its children in the order in
which they were linked, and for each child the parent it is linked under. Links
are pids, so the registry keeps no block alive. -/

namespace Lifecycle

structure Family where
  lists : Assoc Pid (List Pid) := .empty
  links : Assoc Pid Pid := .empty

namespace Family

def childrenOf (f : Family) (parent : Pid) : List Pid := (f.lists.get? parent).getD []

def parentLink? (f : Family) (child : Pid) : Option Pid := f.links.get? child

/-- Link a child at the end of its parent's list. -/
def attach (f : Family) (child parent : Pid) : Except Fault Family :=
  match f.links.get? child with
  | some previous => .error (.alreadyLinked child previous)
  | none => .ok
    { lists := f.lists.insert parent (f.childrenOf parent ++ [child])
      links := f.links.insert child parent }

/-- Forget the links of these children. -/
def unlinkAll (links : Assoc Pid Pid) (children : List Pid) : Assoc Pid Pid :=
  children.foldl Assoc.erase links

/-- Empty a parent's list. -/
def detachAll (f : Family) (parent : Pid) : Family where
  lists := f.lists.modify parent fun _ => []
  links := unlinkAll f.links (f.childrenOf parent)

/-- Take a child out of the list that holds it. -/
def unlink (f : Family) (child : Pid) : Family :=
  match f.links.get? child with
  | none => f
  | some parent =>
    { lists := f.lists.modify parent (·.filter (· ≠ child))
      links := f.links.erase child }

/-- Remove the list of a parent, and the links of the children it still has. -/
def dropList (f : Family) (parent : Pid) : Family where
  lists := f.lists.erase parent
  links := unlinkAll f.links (f.childrenOf parent)

/-! ### The two views after each operation -/

theorem get?_unlinkAll (links : Assoc Pid Pid) (children : List Pid) (c : Pid) :
    (unlinkAll links children).get? c = if c ∈ children then none else links.get? c := by
  induction children generalizing links with
  | nil => simp [unlinkAll]
  | cons a rest ih =>
    rw [unlinkAll, List.foldl_cons, ← unlinkAll, ih, Assoc.get?_erase]
    by_cases ha : c = a <;> by_cases hr : c ∈ rest <;> simp [ha, hr]

theorem attach_eq_ok_iff {f g : Family} {child parent : Pid} :
    f.attach child parent = .ok g ↔ f.parentLink? child = none ∧
      g = { lists := f.lists.insert parent (f.childrenOf parent ++ [child])
            links := f.links.insert child parent } := by
  unfold attach parentLink?
  cases f.links.get? child <;> simp [eq_comm]

theorem childrenOf_attach {f g : Family} {child parent : Pid} (h : f.attach child parent = .ok g)
    (p : Pid) :
    g.childrenOf p = if p = parent then f.childrenOf p ++ [child] else f.childrenOf p := by
  obtain ⟨_, rfl⟩ := attach_eq_ok_iff.1 h
  rw [childrenOf, Assoc.get?_insert]
  by_cases hp : p = parent <;> simp [hp, childrenOf]

theorem parentLink?_attach {f g : Family} {child parent : Pid}
    (h : f.attach child parent = .ok g) (c : Pid) :
    g.parentLink? c = if c = child then some parent else f.parentLink? c := by
  obtain ⟨_, rfl⟩ := attach_eq_ok_iff.1 h
  exact Assoc.get?_insert ..

theorem childrenOf_detachAll (f : Family) (parent p : Pid) :
    (f.detachAll parent).childrenOf p = if p = parent then [] else f.childrenOf p := by
  rw [childrenOf, detachAll, Assoc.get?_modify]
  by_cases hp : p = parent
  · subst hp
    cases h : f.lists.get? p <;> simp
  · simp [hp, childrenOf]

theorem parentLink?_detachAll (f : Family) (parent c : Pid) :
    (f.detachAll parent).parentLink? c =
      if c ∈ f.childrenOf parent then none else f.parentLink? c :=
  get?_unlinkAll ..

theorem childrenOf_unlink (f : Family) (child p : Pid) :
    (f.unlink child).childrenOf p =
      if f.parentLink? child = some p then (f.childrenOf p).filter (· ≠ child)
      else f.childrenOf p := by
  unfold unlink parentLink?
  cases hl : f.links.get? child with
  | none => simp
  | some parent =>
    rw [childrenOf, Assoc.get?_modify]
    by_cases hp : p = parent
    · subst hp
      cases h : f.lists.get? p <;> simp [childrenOf, h]
    · simp [hp, Ne.symm hp, childrenOf]

theorem parentLink?_unlink (f : Family) (child c : Pid) :
    (f.unlink child).parentLink? c = if c = child then none else f.parentLink? c := by
  unfold unlink parentLink?
  cases hl : f.links.get? child with
  | none =>
    by_cases hc : c = child
    · subst hc; simp [hl]
    · simp [hc]
  | some parent => exact Assoc.get?_erase ..

theorem childrenOf_dropList (f : Family) (parent p : Pid) :
    (f.dropList parent).childrenOf p = if p = parent then [] else f.childrenOf p := by
  rw [childrenOf, dropList, Assoc.get?_erase]
  by_cases hp : p = parent <;> simp [hp, childrenOf]

theorem parentLink?_dropList (f : Family) (parent c : Pid) :
    (f.dropList parent).parentLink? c =
      if c ∈ f.childrenOf parent then none else f.parentLink? c :=
  get?_unlinkAll ..

end Family

end Lifecycle
