/-!
# 64-bit binary numbers

A magnitude is a natural number of at most 53 bits times a power of two. `nearest` rounds a quotient
of natural numbers to the nearest magnitude, ties going to the even significand, and gives nothing
when the quotient is too large. Products and quotients of magnitudes are rounded once. All of it is
exact arithmetic on natural numbers.
-/

namespace OffsetService

/-- A finite magnitude `significand * 2 ^ exponent`. -/
structure Binary64 where
  significand : Nat
  exponent : Int
  deriving DecidableEq, Repr

namespace Binary64

/-- The exponent of the least magnitudes. -/
def leastExponent : Int := -1074

/-- The exponent of the greatest magnitudes. -/
def greatestExponent : Int := 971

/-- The number of values of a significand. -/
def bound : Nat := 1 <<< 53

def zero : Binary64 := ⟨0, leastExponent⟩

/-- A quotient divided by a power of two, as a quotient. -/
def scale (num den : Nat) (exponent : Int) : Nat × Nat :=
  if 0 ≤ exponent then (num, den <<< exponent.toNat) else (num <<< (-exponent).toNat, den)

/-- A quotient rounded to a natural number, ties going to the even one. -/
def roundEven (num den : Nat) : Nat :=
  let whole := num / den
  let twice := 2 * (num % den)
  if twice < den then whole
  else if den < twice then whole + 1
  else whole + whole % 2

/-- The exponent at which the significand of a quotient has 53 bits, or the least exponent. -/
def exponentOf (num den : Nat) : Int :=
  let guess : Int := (Nat.log2 num : Int) - (Nat.log2 den : Int) - 52
  let (n, d) := scale num den guess
  let exponent := if n / d < bound / 2 then guess - 1 else guess
  max exponent leastExponent

/-- The nearest magnitude to a quotient, or nothing when it is too large. -/
def nearest (num den : Nat) : Option Binary64 :=
  if num = 0 then some zero
  else
    let exponent := exponentOf num den
    let (n, d) := scale num den exponent
    let significand := roundEven n d
    let carried :=
      if significand = bound then (bound / 2, exponent + 1) else (significand, exponent)
    if greatestExponent < carried.2 then none else some ⟨carried.1, carried.2⟩

/-- A magnitude as a quotient. -/
def quotient (x : Binary64) : Nat × Nat :=
  if 0 ≤ x.exponent then (x.significand <<< x.exponent.toNat, 1)
  else (x.significand, 1 <<< (-x.exponent).toNat)

/-- The rounded product. -/
def mul? (x y : Binary64) : Option Binary64 :=
  nearest (x.quotient.1 * y.quotient.1) (x.quotient.2 * y.quotient.2)

/-- The rounded quotient. -/
def div? (x y : Binary64) : Option Binary64 :=
  nearest (x.quotient.1 * y.quotient.2) (x.quotient.2 * y.quotient.1)

end Binary64

end OffsetService
