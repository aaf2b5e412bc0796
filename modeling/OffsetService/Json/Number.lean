import OffsetService.Json.Refusal

/-!
# Numbers in a JSON text

A number is a sign, whole digits without a leading zero, an optional fraction and an optional
exponent. `NumberText` is this form; `takeNumber` reads it and `NumberText.value` says what number
it stands for.

A number without a fraction or an exponent is whole while it fits. Every other number collects its
digits in 64 bits; once another digit does not fit, the digits that follow are dropped, and those
before the point count as powers of ten. The collected digits become the nearest binary number,
which is then multiplied or divided by a power of ten; each step is rounded. A number too large for
this is no number at all.
-/

namespace OffsetService.Json

/-- The characters of a number. -/
structure NumberText where
  isNegative : Bool
  whole : List Char
  /-- The digits behind the point. -/
  fraction : Option (List Char)
  /-- Whether the exponent is below zero, and its digits. -/
  exponent : Option (Bool × List Char)
  deriving DecidableEq, Repr

/-- Whether a character is one of the ten digits. -/
def isDigit (c : Char) : Bool :=
  '0' ≤ c && c ≤ '9'

/-- The value of a digit. -/
def digitValue (c : Char) : Nat :=
  c.toNat - '0'.toNat

/-! ## Reading -/

/-- Digits from the front of a text, at least one, and what follows. -/
def takeDigits (text : List Char) : Except Refusal (List Char × List Char) :=
  let digits := text.takeWhile isDigit
  if digits.isEmpty then .error .malformed else .ok (digits, text.drop digits.length)

/-- An exponent from the front of a text, if there is one, and what follows. -/
def takeExponent (text : List Char) : Except Refusal (Option (Bool × List Char) × List Char) :=
  match text with
  | c :: rest =>
    if c = 'e' ∨ c = 'E' then
      let (isNegative, digits) := match rest with
        | '+' :: digits => (false, digits)
        | '-' :: digits => (true, digits)
        | digits => (false, digits)
      match takeDigits digits with
      | .ok (digits, rest) => .ok (some (isNegative, digits), rest)
      | .error e => .error e
    else .ok (none, text)
  | [] => .ok (none, text)

/-- A fraction from the front of a text, if there is one, and what follows. -/
def takeFraction (text : List Char) : Except Refusal (Option (List Char) × List Char) :=
  match text with
  | '.' :: rest =>
    match takeDigits rest with
    | .ok (digits, rest) => .ok (some digits, rest)
    | .error e => .error e
  | _ => .ok (none, text)

/-- Whether a minus sign is in front of a text, and what follows. -/
def takeSign (text : List Char) : Bool × List Char :=
  match text with
  | '-' :: rest => (true, rest)
  | _ => (false, text)

/-- A number from the front of a text, and what follows. -/
def takeNumber (text : List Char) : Except Refusal (NumberText × List Char) := do
  let (isNegative, text) := takeSign text
  let (whole, text) ← takeDigits text
  if whole.head? = some '0' ∧ 1 < whole.length then
    throw .malformed
  let (fraction, text) ← takeFraction text
  let (exponent, text) ← takeExponent text
  return ({ isNegative, whole, fraction, exponent }, text)

/-! ## Values -/

/-- Digits collected in 64 bits. -/
structure Collected where
  significand : Nat
  /-- How many digits were taken in. -/
  taken : Nat
  /-- How many digits were dropped. -/
  dropped : Nat

/-- The collected digits after one more. Once a digit is dropped, so are all that follow. -/
def Collected.push (c : Collected) (digit : Char) : Collected :=
  let next := 10 * c.significand + digitValue digit
  if c.dropped = 0 ∧ next < 1 <<< 64 then
    { c with significand := next, taken := c.taken + 1 }
  else
    { c with dropped := c.dropped + 1 }

/-- Digits collected behind a significand. -/
def collect (significand : Nat) (digits : List Char) : Collected :=
  digits.foldl Collected.push ⟨significand, 0, 0⟩

/-- The greatest exponent that is told apart from greater ones. -/
def maxExponent : Nat := (1 <<< 31) - 1

/-- The number that the digits of an exponent spell, up to `maxExponent`. -/
def exponentValue (digits : List Char) : Nat :=
  digits.foldl (fun n c => min (10 * n + digitValue c) maxExponent) 0

/-- The greatest power of ten that is applied at once. -/
def maxPower : Nat := 308

/-- The binary number nearest to a power of ten. -/
def powerOfTen (n : Nat) : Binary64 :=
  (Binary64.nearest (Nat.pow 10 n) 1).getD Binary64.zero

/-- A binary number times a power of ten, rounded at each step; nothing when it is too large. Steps
of `maxPower` are applied until the number has vanished or the rest fits into one step. -/
def timesPower : (steps : Nat) → Binary64 → Int → Option Binary64
  | 0, _, _ => some Binary64.zero
  | steps + 1, x, exponent =>
    if exponent.natAbs ≤ maxPower then
      if 0 ≤ exponent then x.mul? (powerOfTen exponent.natAbs)
      else x.div? (powerOfTen exponent.natAbs)
    else if x.significand = 0 then some x
    else if 0 ≤ exponent then none
    else
      match x.div? (powerOfTen maxPower) with
      | none => none
      | some x => timesPower steps x (exponent + maxPower)

/-- A significand times a power of ten as a binary number. A significand of 64 bits vanishes after
three steps. -/
def toBinary64 (significand : Nat) (exponent : Int) : Option Binary64 :=
  match Binary64.nearest significand 1 with
  | none => none
  | some x => timesPower 4 x exponent

/-- The decimal that a significand and an exponent spell. -/
def decimalNumber (isNegative : Bool) (significand : Nat) (exponent : Int) :
    Except Refusal Number :=
  match toBinary64 significand exponent with
  | some magnitude => .ok (.decimal isNegative magnitude)
  | none => .error .malformed

/-- The number that a text stands for. -/
def NumberText.value (t : NumberText) : Except Refusal Number :=
  let whole := collect 0 t.whole
  match t.fraction, t.exponent with
  | none, none =>
    if 0 < whole.dropped then
      decimalNumber t.isNegative whole.significand whole.dropped
    else if !t.isNegative then
      .ok (.natural whole.significand.toUInt64)
    else if whole.significand = 0 ∨ 1 <<< 63 < whole.significand then
      decimalNumber true whole.significand 0
    else
      .ok (.negative (Int64.ofInt (-whole.significand)))
  | fraction, exponent =>
    let all := collect whole.significand (fraction.getD [])
    let power : Int := match exponent with
      | none => 0
      | some (isNegative, digits) =>
        if isNegative then -(exponentValue digits : Int) else exponentValue digits
    decimalNumber t.isNegative all.significand ((whole.dropped : Int) - all.taken + power)

end OffsetService.Json
