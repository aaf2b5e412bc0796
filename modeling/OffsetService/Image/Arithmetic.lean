/-!
# Arithmetic on places

The places of the parts of an image are sums of numbers that the image itself holds. `exact`
computes them as natural numbers, and `words` as machine words, which wrap around: sums and products
in 64 bits, and the distance between two addresses in 32 bits. A reader that is stated for any
arithmetic does the same with both as long as no operation leaves the words.
-/

namespace OffsetService.Image

/-- How the places of parts of an image are computed. -/
structure Arithmetic where
  /-- A place behind another. -/
  add : Nat → Nat → Nat
  /-- The size of so many entries. -/
  mul : Nat → Nat → Nat
  /-- The distance of an address from one that is not above it. -/
  sub : Nat → Nat → Nat

namespace Arithmetic

/-- Natural numbers. -/
def exact : Arithmetic where
  add x y := x + y
  mul x y := x * y
  sub x y := x - y

/-- Machine words. -/
def words : Arithmetic where
  add x y := (x.toUInt64 + y.toUInt64).toNat
  mul x y := (x.toUInt64 * y.toUInt64).toNat
  sub x y := (x.toUInt32 - y.toUInt32).toNat

theorem words_add {x y : Nat} (h : x + y < 0x10000000000000000) :
    words.add x y = exact.add x y := by
  simp only [words, exact, UInt64.toNat_add, Nat.toUInt64, UInt64.toNat_ofNat', Nat.reducePow]
  omega

theorem words_sub {x y : Nat} (hy : y ≤ x) (hx : x < 0x100000000) :
    words.sub x y = exact.sub x y := by
  simp only [words, exact, UInt32.toNat_sub, Nat.toUInt32, UInt32.toNat_ofNat', Nat.reducePow]
  omega

theorem words_mul {x y : Nat} (h : x * y < 0x10000000000000000) :
    words.mul x y = exact.mul x y := by
  simp only [words, exact, UInt64.toNat_mul, Nat.toUInt64, UInt64.toNat_ofNat', Nat.reducePow]
  rw [← Nat.mul_mod, Nat.mod_eq_of_lt h]

/-- What is a word is computed exactly. -/
structure Faithful (a : Arithmetic) : Prop where
  add : ∀ {x y : Nat}, x + y < 0x10000000000000000 → a.add x y = x + y
  mul : ∀ {x y : Nat}, x * y < 0x10000000000000000 → a.mul x y = x * y
  sub : ∀ {x y : Nat}, y ≤ x → x < 0x100000000 → a.sub x y = x - y

theorem faithful_exact : exact.Faithful where
  add _ := rfl
  mul _ := rfl
  sub _ _ := rfl

theorem faithful_words : words.Faithful where
  add := words_add
  mul := words_mul
  sub := words_sub

end Arithmetic

end OffsetService.Image
