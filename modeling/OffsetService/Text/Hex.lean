/-!
# Hexadecimal text

Numbers are written either with as few digits as they need (`lower`, `upper`) or with a fixed count
of digits (`fixed`), and digits are in one case throughout.
-/

namespace OffsetService.Hex

/-- The letters that stand for the digits ten to fifteen. -/
inductive Case where
  | lower
  | upper
  deriving DecidableEq, Repr

/-- The character of one digit. -/
def digit (case : Case) (n : Nat) : Char :=
  match case with
  | .lower => Nat.digitChar n
  | .upper => (Nat.digitChar n).toUpper

/-- Exactly `width` digits, most significant first; higher digits are dropped. -/
def fixed (case : Case) : (width : Nat) → Nat → List Char
  | 0, _ => []
  | width + 1, n => fixed case width (n / 16) ++ [digit case (n % 16)]

@[simp] theorem length_fixed (case : Case) (width n : Nat) :
    (fixed case width n).length = width := by
  induction width generalizing n with
  | zero => rfl
  | succ width ih => simp [fixed, ih]

/-- As many digits as the number needs, letters in lower case. -/
def lower (n : Nat) : String :=
  String.ofList (Nat.toDigits 16 n)

/-- As many digits as the number needs, letters in upper case. -/
def upper (n : Nat) : String :=
  String.ofList ((Nat.toDigits 16 n).map Char.toUpper)

/-- A number behind the mark `0x`. -/
def marked (n : Nat) : String :=
  "0x" ++ lower n

/-- A number of at least four digits behind the mark `0x`, for 16-bit words. -/
def markedWord (n : UInt16) : String :=
  "0x" ++ String.ofList (fixed .lower 4 n.toNat)

/-- A list of bytes of two digits each, in square brackets. -/
def byteList (bytes : List UInt8) : String :=
  "[" ++ ", ".intercalate (bytes.map fun b => String.ofList (fixed .lower 2 b.toNat)) ++ "]"

/-- The value of one digit of either case. -/
def value? (c : Char) : Option Nat :=
  if '0' ≤ c ∧ c ≤ '9' then some (c.toNat - '0'.toNat)
  else if 'a' ≤ c ∧ c ≤ 'f' then some (c.toNat - 'a'.toNat + 10)
  else if 'A' ≤ c ∧ c ≤ 'F' then some (c.toNat - 'A'.toNat + 10)
  else none

end OffsetService.Hex
