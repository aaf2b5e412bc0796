import OffsetService.Decimal.Binary64

/-!
# Shortest decimal text

The decimal text of a 64-bit magnitude has the fewest digits that no other magnitude is nearer to.
With `n` digits only two decimals come into question, the neighbours of the magnitude on the grid of
`n` digits; the first grid on which one of them reads back as the magnitude is taken, and of two the
nearer one, or the even one of two that are equally near.

The digits are then placed: with a decimal point while the point stays near the digits, with an
exponent otherwise.
-/

namespace OffsetService

/-- A decimal `digits * 10 ^ exponent`. -/
structure Decimal where
  digits : Nat
  exponent : Int
  deriving DecidableEq, Repr

namespace Decimal

/-! ## Digits -/

/-- The place of the first digit of a quotient: the exponent of the greatest power of ten that it
reaches. -/
def firstPlace (num den : Nat) : Int :=
  if den ≤ num then
    ((Nat.toDigits 10 (num / den)).length : Int) - 1
  else
    let places := (Nat.toDigits 10 (den / num)).length - 1
    if den ≤ num * Nat.pow 10 places then -(places : Int) else -(places : Int) - 1

/-- A quotient divided by a power of ten, as a quotient. -/
def shift (num den : Nat) (exponent : Int) : Nat × Nat :=
  if 0 ≤ exponent then (num, den * Nat.pow 10 exponent.toNat)
  else (num * Nat.pow 10 (-exponent).toNat, den)

/-- The decimals from `low` to `high` on the grid of `10 ^ exponent` that are next to `value`, the
nearer one first; all three are numerators over `den`. -/
def onGrid (low value high den : Nat) (closed : Bool) (exponent : Int) : Option Nat :=
  let (v, d) := shift value den exponent
  let (l, _) := shift low den exponent
  let (h, _) := shift high den exponent
  let inside (n : Nat) : Bool :=
    if closed then l ≤ n * d && n * d ≤ h else l < n * d && n * d < h
  let below := v / d
  let twice := 2 * (v % d)
  let nearer := if twice < d || (twice == d && below % 2 == 0) then below else below + 1
  let farther := if nearer = below then below + 1 else below
  if inside nearer then some nearer
  else if inside farther then some farther
  else none

/-- The decimal on the first grid that has one, from `used` digits on. -/
def searchGrids (low value high den : Nat) (closed : Bool) (place : Int) :
    (fuel used : Nat) → Decimal
  | 0, _ => ⟨value / den, 0⟩
  | fuel + 1, used =>
    let exponent := place - used + 1
    match onGrid low value high den closed exponent with
    | some digits => ⟨digits, exponent⟩
    | none => searchGrids low value high den closed place fuel (used + 1)

/-- The shortest decimal of a magnitude. The decimals nearer to it than to any other lie between the
points halfway to its neighbours; those points belong to it when its significand is even. -/
def ofBinary64 (x : Binary64) : Decimal :=
  if x.significand = 0 then ⟨0, 0⟩
  else
    let m := x.significand
    let narrow := m = Binary64.bound / 2 ∧ Binary64.leastExponent < x.exponent
    let (unit, den) :=
      if 2 ≤ x.exponent then (1 <<< (x.exponent - 2).toNat, 1)
      else (1, 1 <<< (2 - x.exponent).toNat)
    let low := (if narrow then 4 * m - 1 else 4 * m - 2) * unit
    let value := 4 * m * unit
    let high := (4 * m + 2) * unit
    searchGrids low value high den (m % 2 = 0) (firstPlace value den) 17 1

/-! ## Text -/

/-- The least number of places behind the point, and the greatest number before it, that are still
written without an exponent. -/
def pointRange : Int × Int := (-5, 16)

/-- The digits of a number without the zeros at their end, and how many zeros those were. -/
def dropZeros : (fuel : Nat) → Nat → Nat → Nat × Nat
  | 0, n, dropped => (n, dropped)
  | fuel + 1, n, dropped =>
    if n % 10 = 0 ∧ n ≠ 0 then dropZeros fuel (n / 10) (dropped + 1) else (n, dropped)

/-- A decimal as text: always with a point or an exponent. -/
def text (x : Decimal) : String :=
  let (digits, dropped) := dropZeros 17 x.digits 0
  let exponent := x.exponent + dropped
  let shown := Nat.toDigits 10 digits
  let point : Int := shown.length + exponent
  let chars :=
    if digits = 0 then ['0', '.', '0']
    else if 0 ≤ exponent ∧ point ≤ pointRange.2 then
      shown ++ List.replicate exponent.toNat '0' ++ ['.', '0']
    else if 0 < point ∧ point ≤ pointRange.2 then
      shown.take point.toNat ++ '.' :: shown.drop point.toNat
    else if pointRange.1 < point ∧ point ≤ 0 then
      ['0', '.'] ++ List.replicate (-point).toNat '0' ++ shown
    else
      let power := (toString (point - 1)).toList
      match shown with
      | [digit] => digit :: 'e' :: power
      | digit :: others => digit :: '.' :: others ++ 'e' :: power
      | [] => []
  String.ofList chars

end Decimal

end OffsetService
