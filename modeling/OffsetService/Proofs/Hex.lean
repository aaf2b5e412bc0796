import Mathlib.Data.Nat.Digits.Defs
import OffsetService.Text.Hex

/-!
# What hexadecimal text says

Text of a fixed count of digits spells the number modulo the count's power of sixteen
(`fixed_inj`), and text of as many digits as needed spells the number itself (`upper_inj`). So bytes
of two digits each are spelled exactly (`flatMap_fixed_inj`), and all of it is made of the sixteen
digits (`mem_upperDigits_of_mem_fixed`, `mem_upperDigits_of_mem_upper`).
-/

namespace OffsetService.Hex

/-- The digits, with letters in upper case. -/
def upperDigits : List Char := "0123456789ABCDEF".toList

theorem digit_inj (case : Case) :
    ∀ a < 16, ∀ b < 16, digit case a = digit case b → a = b := by
  cases case <;> decide

theorem digit_mem_upperDigits : ∀ n < 16, digit .upper n ∈ upperDigits := by decide

/-! ## A fixed count of digits -/

theorem fixed_inj {case : Case} {width n m : Nat} (h : fixed case width n = fixed case width m) :
    n % 16 ^ width = m % 16 ^ width := by
  induction width generalizing n m with
  | zero => rw [Nat.pow_zero, Nat.mod_one, Nat.mod_one]
  | succ width ih =>
    obtain ⟨hhigh, hlow⟩ := List.append_inj' h rfl
    have hdigit : n % 16 = m % 16 := by
      apply digit_inj case _ (Nat.mod_lt _ (by decide)) _ (Nat.mod_lt _ (by decide))
      exact (List.cons.inj hlow).1
    rw [Nat.pow_succ', Nat.mod_mul, Nat.mod_mul, hdigit, ih hhigh]

/-- A number that the digits hold is what they spell. -/
theorem eq_of_fixed_eq {case : Case} {width n m : Nat} (hn : n < 16 ^ width) (hm : m < 16 ^ width)
    (h : fixed case width n = fixed case width m) : n = m := by
  have hmod := fixed_inj h
  rwa [Nat.mod_eq_of_lt hn, Nat.mod_eq_of_lt hm] at hmod

theorem mem_upperDigits_of_mem_fixed {width n : Nat} {c : Char} (h : c ∈ fixed .upper width n) :
    c ∈ upperDigits := by
  induction width generalizing n with
  | zero => cases h
  | succ width ih =>
    rcases List.mem_append.1 h with hhigh | hlow
    · exact ih hhigh
    · rw [List.mem_singleton.1 hlow]
      exact digit_mem_upperDigits _ (Nat.mod_lt _ (by decide))

/-! ## Bytes of two digits each -/

/-- Bytes are what their digits spell. -/
theorem flatMap_fixed_inj {case : Case} {bytes other : List UInt8}
    (h : (bytes.flatMap fun b => fixed case 2 b.toNat)
      = other.flatMap fun b => fixed case 2 b.toNat) : bytes = other := by
  induction bytes generalizing other with
  | nil =>
    cases other with
    | nil => rfl
    | cons b rest => cases congrArg List.length h
  | cons a bytes ih =>
    cases other with
    | nil => cases congrArg List.length h
    | cons b rest =>
      rw [List.flatMap_cons, List.flatMap_cons] at h
      obtain ⟨hfirst, hrest⟩ := List.append_inj h (by rw [length_fixed, length_fixed])
      have hbyte : a.toNat = b.toNat := eq_of_fixed_eq a.toNat_lt b.toNat_lt hfirst
      rw [UInt8.toNat_inj.1 hbyte, ih hrest]

theorem length_flatMap_fixed (case : Case) (bytes : List UInt8) :
    (bytes.flatMap fun b => fixed case 2 b.toNat).length = 2 * bytes.length := by
  induction bytes with
  | nil => rfl
  | cons b rest ih =>
    rw [List.flatMap_cons, List.length_append, ih, length_fixed, List.length_cons]
    omega

/-! ## As many digits as needed -/

theorem toList_upper (n : Nat) : (upper n).toList
    = if n < 16 then [digit .upper n]
      else (upper (n / 16)).toList ++ [digit .upper (n % 16)] := by
  unfold upper
  rw [String.toList_ofList, String.toList_ofList, Nat.toDigits_eq_if (by decide)]
  split
  · rfl
  · rw [List.map_append]
    rfl

theorem toList_upper_ne_nil (n : Nat) : (upper n).toList ≠ [] := by
  rw [toList_upper]
  split <;> simp

theorem mem_upperDigits_of_mem_upper {n : Nat} {c : Char} (h : c ∈ (upper n).toList) :
    c ∈ upperDigits := by
  induction n using Nat.strongRecOn with
  | _ n ih =>
    rw [toList_upper] at h
    split at h
    next hn =>
      rw [List.mem_singleton.1 h]
      exact digit_mem_upperDigits n hn
    next hn =>
      rcases List.mem_append.1 h with hhigh | hlow
      · exact ih (n / 16) (by omega) hhigh
      · rw [List.mem_singleton.1 hlow]
        exact digit_mem_upperDigits _ (Nat.mod_lt _ (by decide))

/-- A number is what its digits spell. -/
theorem upper_inj {n m : Nat} (h : upper n = upper m) : n = m := by
  induction n using Nat.strongRecOn generalizing m with
  | _ n ih =>
    have hlist := congrArg String.toList h
    rw [toList_upper n, toList_upper m] at hlist
    split at hlist
    next hn =>
      split at hlist
      next hm => exact digit_inj .upper n hn m hm (List.cons.inj hlist).1
      next =>
        have hsplit : [] ++ [digit .upper n]
            = (upper (m / 16)).toList ++ [digit .upper (m % 16)] := hlist
        exact absurd (List.append_inj' hsplit rfl).1.symm (toList_upper_ne_nil _)
    next hn =>
      split at hlist
      next =>
        have hsplit : (upper (n / 16)).toList ++ [digit .upper (n % 16)]
            = [] ++ [digit .upper m] := hlist
        exact absurd (List.append_inj' hsplit rfl).1 (toList_upper_ne_nil _)
      next hm =>
        obtain ⟨hhigh, hlow⟩ := List.append_inj' hlist rfl
        have hrest : n / 16 = m / 16 := ih (n / 16) (by omega) (String.toList_inj.1 hhigh)
        have hdigit : n % 16 = m % 16 := by
          apply digit_inj .upper _ (Nat.mod_lt _ (by decide)) _ (Nat.mod_lt _ (by decide))
          exact (List.cons.inj hlow).1
        omega

/-- A number of 32 bits has one to eight digits. -/
theorem length_upper (n : UInt32) :
    1 ≤ (upper n.toNat).toList.length ∧ (upper n.toNat).toList.length ≤ 8 := by
  constructor
  · exact List.length_pos_iff.2 (toList_upper_ne_nil _)
  · rw [upper, String.toList_ofList, List.length_map]
    exact Nat.toDigits_length 16 n.toNat 8 (by decide) n.toNat_lt

end OffsetService.Hex
