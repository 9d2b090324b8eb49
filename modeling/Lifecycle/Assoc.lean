/-! Finite maps with distinct keys, seen through `get?`. -/

namespace Lifecycle

structure Assoc (κ α : Type) where
  entries : List (κ × α) := []
  nodup : (entries.map Prod.fst).Nodup := by simp

namespace Assoc

variable {κ α : Type} [DecidableEq κ]

def empty : Assoc κ α := {}

instance : Inhabited (Assoc κ α) := ⟨empty⟩

def get? (m : Assoc κ α) (k : κ) : Option α := m.entries.lookup k

def contains (m : Assoc κ α) (k : κ) : Bool := (m.get? k).isSome

def size (m : Assoc κ α) : Nat := m.entries.length

def erase (m : Assoc κ α) (k : κ) : Assoc κ α where
  entries := m.entries.filter (·.1 ≠ k)
  nodup := m.nodup.sublist (List.filter_sublist.map _)

/-- A key given again takes the new value. -/
def insert (m : Assoc κ α) (k : κ) (v : α) : Assoc κ α where
  entries := (k, v) :: (m.erase k).entries
  nodup := by
    rw [List.map_cons, List.nodup_cons]
    exact ⟨by simp [erase], (m.erase k).nodup⟩

/-- Change the value of a key that is there. -/
def modify (m : Assoc κ α) (k : κ) (f : α → α) : Assoc κ α where
  entries := m.entries.map fun e => if e.1 = k then (e.1, f e.2) else e
  nodup := by
    have h : (fun e : κ × α => (if e.1 = k then (e.1, f e.2) else e).1) = Prod.fst := by
      funext e; split <;> rfl
    simpa [List.map_map, Function.comp_def, h] using m.nodup

/-! ### What each operation does to the view -/

@[simp] theorem get?_empty (k : κ) : (empty : Assoc κ α).get? k = none := rfl

theorem lookup_filter_ne (l : List (κ × α)) (k j : κ) :
    (l.filter (·.1 ≠ k)).lookup j = if j = k then none else l.lookup j := by
  induction l with
  | nil => simp
  | cons e l ih =>
    obtain ⟨a, v⟩ := e
    by_cases ha : a = k
    · subst ha
      by_cases hj : j = a
      · subst hj; simpa using ih
      · have : (j == a) = false := by simpa using hj
        simpa [List.lookup_cons, this, hj] using ih
    · by_cases hj : j = a
      · subst hj; simp [ha]
      · have : (j == a) = false := by simpa using hj
        simpa [List.lookup_cons, this, ha] using ih

theorem get?_erase (m : Assoc κ α) (k j : κ) :
    (m.erase k).get? j = if j = k then none else m.get? j :=
  lookup_filter_ne m.entries k j

theorem get?_insert (m : Assoc κ α) (k j : κ) (v : α) :
    (m.insert k v).get? j = if j = k then some v else m.get? j := by
  have h := get?_erase m k j
  by_cases hj : j = k
  · subst hj; simp [get?, insert]
  · have : (j == k) = false := by simpa using hj
    simpa [get?, insert, List.lookup_cons, this, hj] using h

theorem lookup_map_modify (l : List (κ × α)) (k j : κ) (f : α → α) :
    (l.map fun e => if e.1 = k then (e.1, f e.2) else e).lookup j
      = if j = k then (l.lookup j).map f else l.lookup j := by
  induction l with
  | nil => simp
  | cons e l ih =>
    obtain ⟨a, v⟩ := e
    by_cases ha : a = k <;> by_cases hj : j = a
    · subst ha; subst hj; simp
    · subst ha
      have : (j == a) = false := by simpa using hj
      simpa [List.lookup_cons, this, hj] using ih
    · subst hj; simp [ha]
    · have : (j == a) = false := by simpa using hj
      simpa [List.lookup_cons, this, ha] using ih

theorem get?_modify (m : Assoc κ α) (k j : κ) (f : α → α) :
    (m.modify k f).get? j = if j = k then (m.get? j).map f else m.get? j :=
  lookup_map_modify m.entries k j f

theorem get?_modify_self {m : Assoc κ α} {k : κ} {v : α} (hv : m.get? k = some v) (f : α → α) :
    (m.modify k f).get? k = some (f v) := by
  rw [get?_modify, if_pos rfl, hv, Option.map_some]

theorem contains_modify (m : Assoc κ α) (k j : κ) (f : α → α) :
    (m.modify k f).contains j = m.contains j := by
  rw [contains, get?_modify, contains]
  split
  · exact Option.isSome_map
  · rfl

end Assoc

end Lifecycle
