/-! Blank characters, and cutting them off both ends of a text. -/

namespace Lifecycle.Text

/-- The characters with the Unicode property White_Space. -/
def blanks : List (Nat × Nat) :=
  [(0x9, 0xd), (0x20, 0x20), (0x85, 0x85), (0xa0, 0xa0), (0x1680, 0x1680), (0x2000, 0x200a),
    (0x2028, 0x2029), (0x202f, 0x202f), (0x205f, 0x205f), (0x3000, 0x3000)]

/-- Whether the code point lies in one of the closed intervals. -/
def within (intervals : List (Nat × Nat)) (code : Nat) : Bool :=
  intervals.any fun interval => interval.1 ≤ code && code ≤ interval.2

def isBlank (c : Char) : Bool := within blanks c.toNat

/-- The text without the blanks at its two ends. -/
def trim (text : List Char) : List Char :=
  ((text.dropWhile isBlank).reverse.dropWhile isBlank).reverse

end Lifecycle.Text
