import Lifecycle.Json.Value

/-! Reading typed parts of JSON values: words of a fixed width, the names of an
enumeration, the fields of a record, and the two parts of a tagged value. -/

namespace Lifecycle.Json

def str? : Json → Option String
  | .str s => some s
  | _ => none

/-- An integer from `lo` up to but not including `hi`. -/
def intWithin? (lo hi : Int) : Json → Option Int
  | .int n => if lo ≤ n ∧ n < hi then some n else none
  | _ => none

def int32? (v : Json) : Option Int32 :=
  (v.intWithin? Int32.minValue.toInt (Int32.maxValue.toInt + 1)).map Int32.ofInt

def int64? (v : Json) : Option Int64 :=
  (v.intWithin? Int64.minValue.toInt (Int64.maxValue.toInt + 1)).map Int64.ofInt

def uint32? (v : Json) : Option UInt32 :=
  (v.intWithin? 0 UInt32.size).map fun n => UInt32.ofNat n.toNat

def uint64? (v : Json) : Option UInt64 :=
  (v.intWithin? 0 UInt64.size).map fun n => UInt64.ofNat n.toNat

/-- A name by itself, or as the only key of an object whose value is null. Where
the name lies in a content that was kept, an empty object does for the null. -/
def name? (kept : Bool) : Json → Option String
  | .str s => some s
  | .obj [(s, .null)] => some s
  | .obj [(s, .obj [])] => if kept then some s else none
  | _ => none

/-! ### Records -/

/-- The values given to one field of an object. -/
def valuesOf (name : String) (fields : List (String × Json)) : List Json :=
  (fields.filter (·.1 == name)).map (·.2)

/-- The field, which must be there exactly once. -/
def field? (name : String) (fields : List (String × Json)) : Option Json :=
  match valuesOf name fields with
  | [v] => some v
  | _ => none

/-- The field, which may be missing but not repeated; the outer `none` is a
repeated field. -/
def optionalField? (name : String) (fields : List (String × Json)) : Option (Option Json) :=
  match valuesOf name fields with
  | [] => some none
  | [v] => some (some v)
  | _ => none

/-! ### Tagged values -/

/-- The two parts of a tagged value. -/
structure Tagged where
  tag : String
  content : Option Json
  /-- Whether the content came first and was kept until the tag was known. -/
  kept : Bool

/-- The deepest nesting allowed in a content that is kept. -/
def keptDepth : Nat := 126

/-- Whether a content can be kept. -/
def isKeepable (v : Json) : Bool := v.isReadable && v.depth ≤ keptDepth

/-- Whether the first of the two fields to be given is the content. -/
def contentFirst (tag content : String) (fields : List (String × Json)) : Bool :=
  match fields.find? fun f => f.1 == tag || f.1 == content with
  | some f => f.1 == content
  | none => false

/-- Tag and content of an object with these two fields, in either order and among
others, or of a pair, in which the tag is a string. -/
def tagged? (tag content : String) : Json → Option Tagged
  | .arr [.str t, c] => some ⟨t, some c, false⟩
  | .obj fields => do
    let t ← (← field? tag fields).name? false
    let c ← optionalField? content fields
    let kept := contentFirst tag content fields
    if kept && !(c.all isKeepable) then none else some ⟨t, c, kept⟩
  | _ => none

end Lifecycle.Json
