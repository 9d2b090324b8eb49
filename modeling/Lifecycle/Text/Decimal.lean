/-! Decimal numerals. -/

namespace Lifecycle.Text

def isDigit (c : Char) : Bool := '0' ≤ c && c ≤ '9'

/-- The value of a decimal digit. -/
def digitValue (c : Char) : Nat := c.toNat - '0'.toNat

/-- The number written by a list of digits; leading zeros count for nothing. -/
def valueOfDigits (digits : List Char) : Nat :=
  digits.foldl (fun value c => 10 * value + digitValue c) 0

/-- One or more digits and nothing else. -/
def readDigits? (text : List Char) : Option Nat :=
  if !text.isEmpty && text.all isDigit then some (valueOfDigits text) else none

/-- Digits after an optional plus sign. -/
def readUnsigned? : List Char → Option Nat
  | '+' :: digits => readDigits? digits
  | text => readDigits? text

def writeNat (n : Nat) : List Char := Nat.toDigits 10 n

def writeInt : Int → List Char
  | .ofNat n => writeNat n
  | .negSucc n => '-' :: writeNat (n + 1)

/-- Lower-case hexadecimal digits, without leading zeros. -/
def writeHex (n : Nat) : List Char := Nat.toDigits 16 n

end Lifecycle.Text
