import Mathlib.Data.Nat.Digits.Defs
import OffsetService.Text.Digits

/-!
# Numbers in digits are read back

A number that is written in the digits of a base, with letters in either case, is read as that
number (`read?_toDigits`). Its digits are digits of the base (`exists_digit_of_mem_toDigits`), so no
mark of punctuation is among them.
-/

namespace OffsetService.Digits

theorem value?_decimalDigit : ∀ d < 10, value? 10 (Nat.digitChar d) = some d := by decide

theorem value?_hexDigit : ∀ d < 16, value? 16 (Nat.digitChar d) = some d := by decide

theorem value?_upperHexDigit : ∀ d < 16, value? 16 (Nat.digitChar d).toUpper = some d := by decide

/-! ## What is read -/

section Read

variable {base before n : Nat} {text : List Char}

theorem isSome_value?_of_readFrom (h : readFrom base before text = some n) :
    ∀ c ∈ text, (value? base c).isSome = true := by
  induction text generalizing before with
  | nil => simp
  | cons c rest ih =>
    rw [readFrom] at h
    split at h
    next digit hdigit => exact List.forall_mem_cons.2 ⟨by rw [hdigit]; rfl, ih h⟩
    next => cases h

theorem readFrom_of_read? (h : read? base text = some n) :
    text ≠ [] ∧ readFrom base 0 text = some n := by
  unfold read? at h
  split at h
  next => cases h
  next hne => exact ⟨hne, h⟩

/-- A text with a character that is no digit is no number. -/
theorem read?_eq_none_of_mem {c : Char} (h : c ∈ text) (hc : Hex.value? c = none) :
    read? base text = none := by
  refine Option.eq_none_iff_forall_ne_some.2 fun n hread => ?_
  have hdigit := isSome_value?_of_readFrom (readFrom_of_read? hread).2 c h
  rw [value?, hc] at hdigit
  cases hdigit

end Read

/-! ## What is written -/

section Base

variable {base : Nat} (hbase : 1 < base)

include hbase

section Spell

variable (spell : Char → Char) (hspell : ∀ d < base, value? base (spell (Nat.digitChar d)) = some d)

include hspell

/-- The digits of a number, written in letters of either case, are read as the number. -/
theorem readFrom_toDigits (n : Nat) :
    readFrom base 0 ((Nat.toDigits base n).map spell) = some n := by
  induction n using Nat.strongRecOn with
  | _ n ih =>
    rw [Nat.toDigits_eq_if hbase]
    split
    next hlt => simp [readFrom, hspell n hlt]
    next hge =>
      have hpos : 0 < n := by omega
      have hlow : value? base (spell (Nat.digitChar (n % base))) = some (n % base) :=
        hspell _ (Nat.mod_lt n (by omega))
      rw [List.map_append, readFrom_append, ih (n / base) (Nat.div_lt_self hpos hbase)]
      simp [readFrom, hlow, Nat.div_add_mod]

theorem read?_toDigits (n : Nat) : read? base ((Nat.toDigits base n).map spell) = some n := by
  rw [read?, if_neg (by simp [Nat.toDigits_ne_nil])]
  exact readFrom_toDigits hbase spell hspell n

end Spell

theorem exists_digit_of_mem_toDigits {n : Nat} {c : Char} (h : c ∈ Nat.toDigits base n) :
    ∃ d < base, c = Nat.digitChar d := by
  induction n using Nat.strongRecOn with
  | _ n ih =>
    rw [Nat.toDigits_eq_if hbase] at h
    split at h
    next hlt => exact ⟨n, hlt, List.mem_singleton.1 h⟩
    next hge =>
      rcases List.mem_append.1 h with hhigh | hlow
      · exact ih (n / base) (Nat.div_lt_self (by omega) hbase) hhigh
      · exact ⟨n % base, Nat.mod_lt n (by omega), List.mem_singleton.1 hlow⟩

/-- A number has one digit more than the exponent of the greatest power that it reaches. -/
theorem exists_length_toDigits {n : Nat} (h : 0 < n) :
    ∃ k, (Nat.toDigits base n).length = k + 1 ∧ base ^ k ≤ n ∧ n < base ^ (k + 1) := by
  induction n using Nat.strongRecOn with
  | _ n ih =>
    rw [Nat.toDigits_eq_if hbase]
    split
    next hlt => exact ⟨0, rfl, h, by simpa using hlt⟩
    next hge =>
      have hpos : 0 < n / base := Nat.div_pos (by omega) (by omega)
      obtain ⟨k, hlength, hlow, hhigh⟩ := ih (n / base) (Nat.div_lt_self h hbase) hpos
      rw [Nat.le_div_iff_mul_le (by omega)] at hlow
      rw [Nat.div_lt_iff_lt_mul (by omega)] at hhigh
      exact ⟨k + 1, by rw [List.length_append, hlength, List.length_singleton], hlow, hhigh⟩

end Base

theorem read?_decimal (n : Nat) : read? 10 (Nat.toDigits 10 n) = some n := by
  simpa using read?_toDigits (by decide) id value?_decimalDigit n

theorem read?_hex (n : Nat) : read? 16 (Nat.toDigits 16 n) = some n := by
  simpa using read?_toDigits (by decide) id value?_hexDigit n

/-- What is no digit of either base is not among the digits of a number. -/
theorem notMem_toDigits {base : Nat} (hbase : base = 10 ∨ base = 16) {c : Char}
    (hc : Hex.value? c = none) (n : Nat) : c ∉ Nat.toDigits base n := by
  intro h
  have hdigit : ∀ d < 16, Hex.value? (Nat.digitChar d) ≠ none := by decide
  obtain ⟨d, hd, rfl⟩ := exists_digit_of_mem_toDigits (by omega) h
  exact hdigit d (by omega) hc

end OffsetService.Digits
