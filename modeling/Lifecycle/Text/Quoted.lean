import Lifecycle.Text.Decimal
import Lifecycle.Text.Unprintable

/-! Texts quoted for a reader: between double quotes, with short escapes for
the usual controls, and a braced code point for every other character that
would not show. -/

namespace Lifecycle.Text

def quoteChar (c : Char) : List Char :=
  if c = '\x00' then ['\\', '0']
  else if c = '\t' then ['\\', 't']
  else if c = '\r' then ['\\', 'r']
  else if c = '\n' then ['\\', 'n']
  else if c = '\\' ∨ c = '"' then ['\\', c]
  else if isUnprintable c then ['\\', 'u', '\x7b'] ++ writeHex c.toNat ++ ['\x7d']
  else [c]

def quote (text : String) : String :=
  String.ofList ('"' :: text.toList.flatMap quoteChar ++ ['"'])

end Lifecycle.Text
