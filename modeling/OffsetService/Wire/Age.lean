import OffsetService.Json.Refusal
import OffsetService.Text.Blank
import OffsetService.Text.Digits

/-!
# Spellings of an age

An age arrives as a whole number of 32 bits or as a text. The text may have white space at its ends;
inside, `0x` or `0X` announces hexadecimal digits of either case, and without it the digits are
decimal. One plus sign may stand before the digits, and zeros may lead.
-/

namespace OffsetService.Wire

open Json

/-- The bound that ages stay below. -/
def ageBound : Nat := 0x100000000

/-- The number below `ageBound` that digits spell behind the value so far; the first digit that is
none or that makes the number too large decides. -/
def digitsFrom (base : Nat) : (value : Nat) → List Char → Except Misfit Nat
  | value, [] => .ok value
  | value, c :: rest =>
    match Digits.value? base c with
    | none => .error .invalidDigit
    | some d =>
      let value := base * value + d
      if value < ageBound then digitsFrom base value rest else .error .tooLarge

/-- The number that digits spell behind an optional plus sign. -/
def unsigned (base : Nat) (text : List Char) : Except Misfit Nat :=
  match text with
  | [] => .error .noDigits
  | ['+'] => .error .invalidDigit
  | '+' :: digits => digitsFrom base 0 digits
  | digits => digitsFrom base 0 digits

/-- The age that a text spells. -/
def ageOfText (text : List Char) : Except Misfit Nat :=
  match Blank.trim text with
  | '0' :: 'x' :: digits => unsigned 16 digits
  | '0' :: 'X' :: digits => unsigned 16 digits
  | digits => unsigned 10 digits

/-- The age that a value spells. -/
def ageOf : Value → Except Misfit UInt32
  | .number (.natural n) => if n.toNat < ageBound then .ok n.toUInt32 else .error .ageNumber
  | .number _ => .error .ageNumber
  | .text s => (ageOfText s.toList).map Nat.toUInt32
  | _ => .error .ageType

end OffsetService.Wire
