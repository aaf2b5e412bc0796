import OffsetService.Json.Value
import OffsetService.Text.Hex

/-!
# Writing JSON texts

Values are written without any white space. In a text only the quote, the backslash and the controls
below U+0020 are escaped; every other character stands for itself.
-/

namespace OffsetService.Json

/-- One character as it stands between the quotes. -/
def escape (c : Char) : List Char :=
  if c = '"' then ['\\', '"']
  else if c = '\\' then ['\\', '\\']
  else if c = '\n' then ['\\', 'n']
  else if c = '\r' then ['\\', 'r']
  else if c = '\t' then ['\\', 't']
  else if c = '\x08' then ['\\', 'b']
  else if c = '\x0c' then ['\\', 'f']
  else if c.toNat < 0x20 then ['\\', 'u'] ++ Hex.fixed .lower 4 c.toNat
  else [c]

/-- A text between quotes. -/
def renderText (s : String) : List Char :=
  '"' :: s.toList.flatMap escape ++ ['"']

/-- A number. -/
def renderNumber : Number → List Char
  | .natural n => (toString n.toNat).toList
  | .negative n => (toString n.toInt).toList
  | .decimal isNegative magnitude => (decimalText isNegative magnitude).toList

/-- Parts with commas between them. -/
def commas (parts : List (List Char)) : List Char :=
  [','].intercalate parts

mutual

/-- The text of a value. -/
def render : Value → List Char
  | .null => ['n', 'u', 'l', 'l']
  | .boolean true => ['t', 'r', 'u', 'e']
  | .boolean false => ['f', 'a', 'l', 's', 'e']
  | .number n => renderNumber n
  | .text s => renderText s
  | .sequence items => '[' :: commas (renderItems items) ++ [']']
  | .object members => '\x7b' :: commas (renderMembers members) ++ ['\x7d']

/-- The texts of items. -/
def renderItems : List Value → List (List Char)
  | [] => []
  | item :: items => render item :: renderItems items

/-- The texts of members. -/
def renderMembers : List (String × Value) → List (List Char)
  | [] => []
  | (name, value) :: members => (renderText name ++ ':' :: render value) :: renderMembers members

end

end OffsetService.Json
