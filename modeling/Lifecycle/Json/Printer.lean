import Lifecycle.Json.Value
import Lifecycle.Text.Decimal

/-! The written form of JSON values: compact, or with one member a line. -/

namespace Lifecycle.Json

/-- Two hexadecimal digits. -/
def hexPair (n : Nat) : List Char := [Nat.digitChar (n / 16), Nat.digitChar (n % 16)]

/-- Controls, the quote and the backslash are escaped, all else stands for itself. -/
def escape (c : Char) : List Char :=
  if c = '"' ∨ c = '\\' then ['\\', c]
  else if c = '\n' then ['\\', 'n']
  else if c = '\r' then ['\\', 'r']
  else if c = '\t' then ['\\', 't']
  else if c = '\x08' then ['\\', 'b']
  else if c = '\x0c' then ['\\', 'f']
  else if c.toNat < 32 then ['\\', 'u', '0', '0'] ++ hexPair c.toNat
  else [c]

def writeString (s : String) : List Char := '"' :: s.toList.flatMap escape ++ ['"']

mutual

def write : Json → List Char
  | .null => ['n', 'u', 'l', 'l']
  | .bool true => ['t', 'r', 'u', 'e']
  | .bool false => ['f', 'a', 'l', 's', 'e']
  | .int n => Text.writeInt n
  | .decimal text => text.toList
  | .str s => writeString s
  | .arr [] => ['[', ']']
  | .arr (v :: vs) => '[' :: write v ++ writeItems vs
  | .obj [] => ['\x7b', '\x7d']
  | .obj ((k, v) :: fs) => '\x7b' :: writeString k ++ ':' :: write v ++ writeFields fs
  | .garbled => ['n', 'u', 'l', 'l']

/-- The items after the first, and the closing bracket. -/
def writeItems : List Json → List Char
  | [] => [']']
  | v :: vs => ',' :: write v ++ writeItems vs

/-- The members after the first, and the closing brace. -/
def writeFields : List (String × Json) → List Char
  | [] => ['\x7d']
  | (k, v) :: fs => ',' :: writeString k ++ ':' :: write v ++ writeFields fs

end

/-- The value on one line, without blanks. -/
def compress (v : Json) : String := String.ofList v.write

/-- An object with one member a line, each indented by two blanks. -/
def prettyFields (fields : List (String × Json)) : String :=
  "\x7b\n" ++ ",\n".intercalate (fields.map fun f =>
    "  " ++ String.ofList (writeString f.1 ++ ':' :: ' ' :: f.2.write)) ++ "\n\x7d"

end Lifecycle.Json
