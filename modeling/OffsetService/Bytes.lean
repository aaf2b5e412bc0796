/-!
# Byte strings and little-endian words

`Bytes` is `List UInt8`: codec proofs go by induction on the list. A word of `width` bytes is read
and written by one pair of functions for all widths, and the pair is exact in both directions:

- `littleEndian_word`: writing a number and reading it back gives the number modulo
  `capacity width`;
- `word_littleEndian`: reading any bytes and writing them back gives the bytes.

`chop?` takes a field off the front, or nothing at all when the field is cut short
(`chop?_eq_some_iff`), so no reader built on it can run past the end.
-/

namespace OffsetService

/-- A byte string. -/
abbrev Bytes := List UInt8

namespace Bytes

/-- The number that the bytes spell, least significant byte first. -/
def littleEndian : Bytes → Nat
  | [] => 0
  | b :: rest => b.toNat + 256 * littleEndian rest

/-- A number as `width` bytes, least significant byte first; what does not fit is dropped. -/
def word : (width : Nat) → Nat → Bytes
  | 0, _ => []
  | width + 1, n => UInt8.ofNat n :: word width (n / 256)

@[simp] theorem length_word (width n : Nat) : (word width n).length = width := by
  induction width generalizing n with
  | zero => rfl
  | succ width ih => simp [word, ih]

/-- How many numbers `width` bytes can spell. -/
def capacity : (width : Nat) → Nat
  | 0 => 1
  | width + 1 => 256 * capacity width

theorem littleEndian_lt (b : Bytes) : littleEndian b < capacity b.length := by
  induction b with
  | nil => simp [littleEndian, capacity]
  | cons x rest ih =>
    have hx : x.toNat < 256 := x.toNat_lt
    simp only [littleEndian, List.length_cons, capacity]
    omega

theorem littleEndian_word (width n : Nat) : littleEndian (word width n) = n % capacity width := by
  induction width generalizing n with
  | zero => simp [word, littleEndian, capacity, Nat.mod_one]
  | succ width ih =>
    have h : n % (256 * capacity width) = n % 256 + 256 * (n / 256 % capacity width) := Nat.mod_mul
    simp only [word, littleEndian, ih, capacity, UInt8.toNat_ofNat', h]

theorem word_littleEndian (b : Bytes) : word b.length (littleEndian b) = b := by
  induction b with
  | nil => rfl
  | cons x rest ih =>
    have hx : x.toNat < 256 := x.toNat_lt
    have hdiv : (x.toNat + 256 * littleEndian rest) / 256 = littleEndian rest := by omega
    simp only [List.length_cons, littleEndian, word, hdiv, ih, List.cons.injEq, and_true]
    apply UInt8.toNat.inj
    simp only [UInt8.toNat_ofNat']
    omega

/-- What a word drops does not matter. -/
theorem word_mod (width n : Nat) : word width (n % capacity width) = word width n := by
  have h := word_littleEndian (word width n)
  rwa [length_word, littleEndian_word] at h

/-- The first `n` bytes and the rest, or nothing when fewer than `n` bytes are there. -/
def chop? (n : Nat) (b : Bytes) : Option (Bytes × Bytes) :=
  let head := b.take n
  if head.length = n then some (head, b.drop n) else none

theorem chop?_eq_some_iff {n : Nat} {b head rest : Bytes} :
    chop? n b = some (head, rest) ↔ b = head ++ rest ∧ head.length = n := by
  simp only [chop?]
  constructor
  · intro h
    split at h
    next hlen =>
      simp only [Option.some.injEq, Prod.mk.injEq] at h
      obtain ⟨rfl, rfl⟩ := h
      exact ⟨(List.take_append_drop n b).symm, hlen⟩
    next => simp at h
  · rintro ⟨rfl, rfl⟩
    simp

theorem chop?_append (head rest : Bytes) : chop? head.length (head ++ rest) = some (head, rest) :=
  chop?_eq_some_iff.2 ⟨rfl, rfl⟩

theorem chop?_eq_none_iff {n : Nat} {b : Bytes} : chop? n b = none ↔ b.length < n := by
  simp only [chop?, List.length_take]
  split
  next h => simp; omega
  next h => simp; omega

/-- The bytes before the first zero byte and those after it, or nothing without a zero byte. -/
def terminated? : Bytes → Option (Bytes × Bytes)
  | b =>
    let text := b.takeWhile (· != 0)
    match b.drop text.length with
    | [] => none
    | _ :: rest => some (text, rest)

theorem terminated?_append {text : Bytes} (h : 0 ∉ text) (rest : Bytes) :
    terminated? (text ++ 0 :: rest) = some (text, rest) := by
  have htake : (text ++ 0 :: rest).takeWhile (· != 0) = text := by
    rw [List.takeWhile_append_of_pos]
    · simp
    · intro b hb
      simp only [bne_iff_ne, ne_eq]
      rintro rfl
      exact h hb
  simp [terminated?, htake]

end Bytes

end OffsetService
