import OffsetService.Text.Hex

/-!
# Whole numbers in digits

A whole number is read from one or more digits of a base up to sixteen, letters in either case, and
from nothing else.
-/

namespace OffsetService.Digits

/-- The value of a digit of a base. -/
def value? (base : Nat) (c : Char) : Option Nat :=
  (Hex.value? c).filter (· < base)

/-- The number that digits spell behind the number of the digits before them. -/
def readFrom (base : Nat) : (before : Nat) → List Char → Option Nat
  | before, [] => some before
  | before, c :: rest =>
    match value? base c with
    | some digit => readFrom base (base * before + digit) rest
    | none => none

/-- The number that a text of digits spells. -/
def read? (base : Nat) (text : List Char) : Option Nat :=
  if text = [] then none else readFrom base 0 text

theorem readFrom_append (base before : Nat) (text more : List Char) :
    readFrom base before (text ++ more)
      = (readFrom base before text).bind (readFrom base · more) := by
  induction text generalizing before with
  | nil => rfl
  | cons c rest ih =>
    simp only [List.cons_append, readFrom]
    split
    · exact ih _
    · rfl

end OffsetService.Digits
