import OffsetService.Text.Hex
import OffsetService.Text.Printable

/-!
# Quoted text

A text is shown between double quotes so that no character of it is lost or mistaken: a quote and a
backslash are written behind a backslash, four controls by their letter, and every other character
that leaves no mark of its own by its code point in braces.
-/

namespace OffsetService.Quoted

/-- One character as it stands between the quotes. -/
def escape (c : Char) : List Char :=
  if c = '\x00' then ['\\', '0']
  else if c = '\t' then ['\\', 't']
  else if c = '\r' then ['\\', 'r']
  else if c = '\n' then ['\\', 'n']
  else if c = '\\' then ['\\', '\\']
  else if c = '"' then ['\\', '"']
  else if Printable.isPrintable c then [c]
  else ['\\', 'u', '\x7b'] ++ Nat.toDigits 16 c.toNat ++ ['\x7d']

/-- A text between double quotes. -/
def quote (text : String) : String :=
  String.ofList ('"' :: text.toList.flatMap escape ++ ['"'])

end OffsetService.Quoted
