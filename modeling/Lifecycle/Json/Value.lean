/-! JSON values. Integers of 64 bits, signed or unsigned, are read as numbers;
any other number is kept as it was written. -/

namespace Lifecycle

inductive Json where
  | null
  | bool (b : Bool)
  | int (n : Int)
  | decimal (text : String)
  | str (s : String)
  | arr (items : List Json)
  | obj (fields : List (String × Json))
  /-- What has the form of a value and yet denotes none: a string with half of a
  surrogate pair, a number beyond every double, an object with such a key. It may
  be skipped, but not read. -/
  | garbled

namespace Json

instance : Inhabited Json := ⟨.null⟩

def nat (n : Nat) : Json := .int (Int.ofNat n)

/-- The value there is, or null. -/
def ofOption {α : Type} (f : α → Json) : Option α → Json
  | some a => f a
  | none => .null

mutual

/-- How deeply arrays and objects are nested. -/
def depth : Json → Nat
  | .arr items => depthOfItems items + 1
  | .obj fields => depthOfFields fields + 1
  | _ => 0

def depthOfItems : List Json → Nat
  | [] => 0
  | v :: vs => max v.depth (depthOfItems vs)

def depthOfFields : List (String × Json) → Nat
  | [] => 0
  | (_, v) :: fs => max v.depth (depthOfFields fs)

end

mutual

/-- Whether no part of the value is garbled. -/
def isReadable : Json → Bool
  | .garbled => false
  | .arr items => itemsReadable items
  | .obj fields => fieldsReadable fields
  | _ => true

def itemsReadable : List Json → Bool
  | [] => true
  | v :: vs => v.isReadable && itemsReadable vs

def fieldsReadable : List (String × Json) → Bool
  | [] => true
  | (_, v) :: fs => v.isReadable && fieldsReadable fs

end

end Json

end Lifecycle
