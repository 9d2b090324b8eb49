import Lifecycle.Json.Value
import Lifecycle.Text.Decimal

/-! Reading JSON texts. A string is read in two passes, first its escapes and
then the surrogate pairs among them, so that a text with half a pair still has a
form. A number is an integer if it has neither fraction nor exponent, fits 64
bits and is not a negative zero. -/

namespace Lifecycle.Json

def isSpace (c : Char) : Bool := c == ' ' || c == '\n' || c == '\t' || c == '\r'

def skipSpace (text : List Char) : List Char := text.dropWhile isSpace

/-! ### Strings -/

/-- A part of a string as it is written: a character, or sixteen bits given by
their digits. -/
inductive Piece
  | char (c : Char)
  | word (n : Nat)

def hexDigit? (c : Char) : Option Nat :=
  if '0' ≤ c ∧ c ≤ '9' then some (c.toNat - '0'.toNat)
  else if 'a' ≤ c ∧ c ≤ 'f' then some (c.toNat - 'a'.toNat + 10)
  else if 'A' ≤ c ∧ c ≤ 'F' then some (c.toNat - 'A'.toNat + 10)
  else none

def hexWord? (a b c d : Char) : Option Nat := do
  some ((((← hexDigit? a) * 16 + (← hexDigit? b)) * 16 + (← hexDigit? c)) * 16 + (← hexDigit? d))

def shortEscape? : Char → Option Char
  | '"' => some '"'
  | '\\' => some '\\'
  | '/' => some '/'
  | 'b' => some '\x08'
  | 'f' => some '\x0c'
  | 'n' => some '\n'
  | 'r' => some '\r'
  | 't' => some '\t'
  | _ => none

/-- The pieces up to the closing quote, and the text after it. -/
def pieces? : List Char → Option (List Piece × List Char)
  | [] => none
  | '"' :: rest => some ([], rest)
  | '\\' :: 'u' :: a :: b :: c :: d :: rest => do
    let n ← hexWord? a b c d
    let (ps, rest) ← pieces? rest
    some (.word n :: ps, rest)
  | '\\' :: e :: rest => do
    let c ← shortEscape? e
    let (ps, rest) ← pieces? rest
    some (.char c :: ps, rest)
  | c :: rest =>
    if c.toNat < 32 then none
    else do
      let (ps, rest) ← pieces? rest
      some (.char c :: ps, rest)

def isHighHalf (n : Nat) : Bool := 0xD800 ≤ n && n < 0xDC00

def isLowHalf (n : Nat) : Bool := 0xDC00 ≤ n && n < 0xE000

/-- The characters of the pieces, unless half a pair stands alone. -/
def assemble? : List Piece → Option (List Char)
  | [] => some []
  | .char c :: ps => (assemble? ps).map (c :: ·)
  | .word n :: .word m :: ps =>
    if isHighHalf n then
      if isLowHalf m then
        (assemble? ps).map (Char.ofNat (0x10000 + (n - 0xD800) * 0x400 + (m - 0xDC00)) :: ·)
      else none
    else if isLowHalf n then none
    else (assemble? (.word m :: ps)).map (Char.ofNat n :: ·)
  | .word n :: ps =>
    if isHighHalf n || isLowHalf n then none else (assemble? ps).map (Char.ofNat n :: ·)

/-- The string whose opening quote has been read; `none` inside stands for one
that is garbled. -/
def string? (text : List Char) : Option (Option String × List Char) :=
  (pieces? text).map fun (ps, rest) => ((assemble? ps).map String.ofList, rest)

/-! ### Numbers -/

/-- A number as it is written. -/
structure Numeral where
  negative : Bool
  whole : List Char
  fraction : Option (List Char)
  exponent : Option (List Char × List Char)

/-- At least one digit, as many as there are. -/
def digits? (text : List Char) : Option (List Char × List Char) :=
  if (text.takeWhile Text.isDigit).isEmpty then none
  else some (text.takeWhile Text.isDigit, text.dropWhile Text.isDigit)

/-- Digits without a leading zero, or zero alone. -/
def whole? (text : List Char) : Option (List Char × List Char) :=
  (digits? text).bind fun (ds, rest) =>
    if ds.head? = some '0' ∧ ds.length ≠ 1 then none else some (ds, rest)

def fraction? : List Char → Option (Option (List Char) × List Char)
  | '.' :: rest => (digits? rest).map fun (ds, rest) => (some ds, rest)
  | text => some (none, text)

/-- Sign and digits of the exponent, if there is one. -/
def exponent? : List Char → Option (Option (List Char × List Char) × List Char)
  | c :: rest =>
    if c = 'e' ∨ c = 'E' then
      match rest with
      | '+' :: rest => (digits? rest).map fun (ds, rest) => (some (['+'], ds), rest)
      | '-' :: rest => (digits? rest).map fun (ds, rest) => (some (['-'], ds), rest)
      | rest => (digits? rest).map fun (ds, rest) => (some ([], ds), rest)
    else some (none, c :: rest)
  | [] => some (none, [])

def unsigned? (negative : Bool) (text : List Char) : Option (Numeral × List Char) := do
  let (whole, rest) ← whole? text
  let (fraction, rest) ← fraction? rest
  let (exponent, rest) ← exponent? rest
  some (⟨negative, whole, fraction, exponent⟩, rest)

def numeral? : List Char → Option (Numeral × List Char)
  | '-' :: rest => unsigned? true rest
  | text => unsigned? false text

namespace Numeral

def write (x : Numeral) : List Char :=
  (if x.negative then ['-'] else []) ++ x.whole
    ++ (x.fraction.elim [] fun ds => '.' :: ds)
    ++ (x.exponent.elim [] fun e => 'e' :: e.1 ++ e.2)

/-- Add digits to a number as long as it fits 64 bits; the digits left over. -/
def takeDigits (n : Nat) : List Char → Nat × List Char
  | [] => (n, [])
  | c :: ds =>
    let m := 10 * n + Text.digitValue c
    if m < UInt64.size then takeDigits m ds else (n, c :: ds)

/-- The leading digits as one number, and the power of ten that scales it. Digits
of the whole part that do not fit are counted, those of the fraction dropped. -/
def scaled (x : Numeral) : Nat × Int :=
  let fraction := x.fraction.getD []
  let (n, more) := takeDigits 0 x.whole
  let (n, dropped) := takeDigits n fraction
  let exponent : Int :=
    match x.exponent with
    | none => 0
    | some (sign, ds) =>
      if sign = ['-'] then - Int.ofNat (Text.valueOfDigits ds)
      else Int.ofNat (Text.valueOfDigits ds)
  (n, exponent + Int.ofNat more.length - Int.ofNat (fraction.length - dropped.length))

/-- The double nearest to a number within the range of doubles; of two, the even one. -/
def nearestDouble (n : Nat) : Nat :=
  let unit := Nat.pow 2 (n.log2 - 52)
  let (q, r) := (n / unit, n % unit)
  if 2 * r < unit ∨ (2 * r = unit ∧ q % 2 = 0) then q * unit else (q + 1) * unit

/-- The largest power of ten that is a double. -/
def maxPower : Nat := 308

/-- The least magnitude that rounds past the largest double. -/
def doubleLimit : Nat := Nat.pow 2 1024 - Nat.pow 2 970

/-- Whether the number is too large for a double. Its digits and its power of ten
are rounded first, each to a double, and then their product. -/
def isHuge (x : Numeral) : Bool :=
  let (n, scale) := x.scaled
  if n = 0 ∨ scale < 0 then false
  else if maxPower < scale.toNat then true
  else doubleLimit ≤ nearestDouble n * nearestDouble (Nat.pow 10 scale.toNat)

def toJson (x : Numeral) : Json :=
  let n : Int := if x.negative then - Int.ofNat (Text.valueOfDigits x.whole)
    else Int.ofNat (Text.valueOfDigits x.whole)
  if x.fraction.isNone && x.exponent.isNone && !(x.negative && n == 0)
      && Int64.minValue.toInt ≤ n && n < UInt64.size then .int n
  else if x.isHuge then .garbled
  else .decimal (String.ofList x.write)

end Numeral

/-! ### Values -/

/-- An object, unless one of its keys is garbled. -/
def ofMembers (members : List (Option String × Json)) : Json :=
  match members.mapM fun m => m.1.map (·, m.2) with
  | some fields => .obj fields
  | none => .garbled

mutual

/-- A value and the text after it. The fuel bounds the steps; the length of the
text is enough. -/
def value? : Nat → List Char → Option (Json × List Char)
  | 0, _ => none
  | fuel + 1, text =>
    match skipSpace text with
    | '"' :: rest => (string? rest).map fun (s, rest) => (s.elim .garbled .str, rest)
    | '[' :: rest =>
      match skipSpace rest with
      | ']' :: rest => some (.arr [], rest)
      | rest => (items? fuel rest).map fun (vs, rest) => (.arr vs, rest)
    | '\x7b' :: rest =>
      match skipSpace rest with
      | '\x7d' :: rest => some (.obj [], rest)
      | rest => (members? fuel rest).map fun (ms, rest) => (ofMembers ms, rest)
    | 'n' :: 'u' :: 'l' :: 'l' :: rest => some (.null, rest)
    | 't' :: 'r' :: 'u' :: 'e' :: rest => some (.bool true, rest)
    | 'f' :: 'a' :: 'l' :: 's' :: 'e' :: rest => some (.bool false, rest)
    | text => (numeral? text).map fun (x, rest) => (x.toJson, rest)

/-- One or more items and the closing bracket. -/
def items? : Nat → List Char → Option (List Json × List Char)
  | 0, _ => none
  | fuel + 1, text =>
    (value? fuel text).bind fun (v, rest) =>
      match skipSpace rest with
      | ',' :: rest => (items? fuel rest).map fun (vs, rest) => (v :: vs, rest)
      | ']' :: rest => some ([v], rest)
      | _ => none

/-- One or more members and the closing brace. -/
def members? : Nat → List Char → Option (List (Option String × Json) × List Char)
  | 0, _ => none
  | fuel + 1, text =>
    match skipSpace text with
    | '"' :: rest =>
      (string? rest).bind fun (k, rest) =>
        match skipSpace rest with
        | ':' :: rest =>
          (value? fuel rest).bind fun (v, rest) =>
            match skipSpace rest with
            | ',' :: rest => (members? fuel rest).map fun (ms, rest) => ((k, v) :: ms, rest)
            | '\x7d' :: rest => some ([(k, v)], rest)
            | _ => none
        | _ => none
    | _ => none

end

/-- The value that is the whole text, blanks around it aside. -/
def parse? (text : List Char) : Option Json :=
  match value? (text.length + 1) text with
  | some (v, rest) => if (skipSpace rest).isEmpty then some v else none
  | none => none

end Lifecycle.Json
