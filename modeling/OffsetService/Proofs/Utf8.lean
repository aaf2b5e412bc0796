import OffsetService.Text.Utf8

/-!
# Reading back an encoded text

The decoder is between characters again after the bytes of each character, and has emitted that
character (`scan_encodeChar`). So every text is read back as it was written (`lossy_encode`). A byte
below 0x80 is written for its own character only (`notMem_encode`).
-/

namespace OffsetService.Utf8

/-! ## One byte -/

/-- The first byte of two. Digits 0 and 1 have a shorter form. -/
theorem first_two : ∀ digit < 32, 2 ≤ digit →
    first (UInt8.ofNat (digit + 0xC0)) = ([], .inside 0 0x80 0xBF digit) := by
  decide

/-- The first byte of three. The second leaves out what has a shorter form or is a surrogate. -/
theorem first_three : ∀ digit < 16, first (UInt8.ofNat (digit + 0xE0))
    = ([], .inside 1 (if digit = 0 then 0xA0 else 0x80) (if digit = 13 then 0x9F else 0xBF)
        digit) := by
  decide

/-- The first byte of four. Its second byte leaves out what has a shorter form or is too large. -/
theorem first_four : ∀ digit < 5, first (UInt8.ofNat (digit + 0xF0))
    = ([], .inside 2 (if digit = 0 then 0x90 else 0x80) (if digit = 4 then 0x8F else 0xBF)
        digit) := by
  decide

theorem toNat_ofNat {n : Nat} (h : n < 256) : (UInt8.ofNat n).toNat = n := by
  rw [UInt8.toNat_ofNat', Nat.mod_eq_of_lt h]

theorem first_one {n : Nat} (h : n < 0x80) :
    first (UInt8.ofNat n) = ([some (Char.ofNat n)], .between) := by
  have hlt : UInt8.ofNat n < 0x80 := by
    rw [UInt8.lt_iff_toNat_lt, toNat_ofNat (by omega)]
    exact h
  rw [first, if_pos hlt, toNat_ofNat (by omega)]

section Inside

variable {low high : UInt8} {bits digit : Nat}

theorem mem_range (hdigit : digit < 64) (hlow : low.toNat ≤ digit + 0x80)
    (hhigh : digit + 0x80 ≤ high.toNat) :
    low ≤ UInt8.ofNat (digit + 0x80) ∧ UInt8.ofNat (digit + 0x80) ≤ high := by
  rw [UInt8.le_iff_toNat_le, UInt8.le_iff_toNat_le, toNat_ofNat (by omega)]
  exact ⟨hlow, hhigh⟩

theorem step_next (owed : Nat) (hdigit : digit < 64) (hlow : low.toNat ≤ digit + 0x80)
    (hhigh : digit + 0x80 ≤ high.toNat) :
    step (.inside (owed + 1) low high bits) (UInt8.ofNat (digit + 0x80))
      = ([], .inside owed 0x80 0xBF (64 * bits + digit)) := by
  simp only [step, if_pos (mem_range hdigit hlow hhigh), toNat_ofNat (n := digit + 0x80) (by omega),
    Nat.add_sub_cancel]

theorem step_last (hdigit : digit < 64) (hlow : low.toNat ≤ digit + 0x80)
    (hhigh : digit + 0x80 ≤ high.toNat) :
    step (.inside 0 low high bits) (UInt8.ofNat (digit + 0x80))
      = ([some (Char.ofNat (64 * bits + digit))], .between) := by
  simp only [step, if_pos (mem_range hdigit hlow hhigh), toNat_ofNat (n := digit + 0x80) (by omega),
    Nat.add_sub_cancel]

end Inside

/-! ## Texts -/

theorem scan_cons (state : State) (out : List (Option Char)) (b : UInt8) (rest : Bytes) :
    scan (state, out) (b :: rest) = scan ((step state b).2, (step state b).1.reverse ++ out) rest :=
  rfl

theorem scan_encodeChar (c : Char) (out : List (Option Char)) :
    scan (.between, out) (String.utf8EncodeChar c) = (.between, some c :: out) := by
  have hc : Char.ofNat c.val.toNat = c := Char.ofNat_toNat c
  have hvalid : c.val.toNat < 0xD800 ∨ 0xDFFF < c.val.toNat ∧ c.val.toNat < 0x110000 := c.valid
  unfold String.utf8EncodeChar
  generalize c.val.toNat = v at hc hvalid
  dsimp only
  split
  next h1 =>
    rw [scan_cons, step, first_one (by omega), hc]
    rfl
  next h1 =>
    split
    next h2 =>
      rw [scan_cons, step, first_two _ (by omega) (by omega), scan_cons,
        step_last (by omega) (Nat.le_add_left _ _) (by show _ ≤ 0xBF; omega)]
      have hv : 64 * (v / 64 % 32) + v % 64 = v := by omega
      rw [hv, hc]
      rfl
    next h2 =>
      split
      next h3 =>
        have hlow : (if v / 4096 % 16 = 0 then 0xA0 else 0x80 : UInt8).toNat
            ≤ v / 64 % 64 + 0x80 := by
          split <;> simp only [UInt8.reduceToNat] <;> omega
        have hhigh : v / 64 % 64 + 0x80
            ≤ (if v / 4096 % 16 = 13 then 0x9F else 0xBF : UInt8).toNat := by
          split <;> simp only [UInt8.reduceToNat] <;> omega
        rw [scan_cons, step, first_three _ (by omega), scan_cons,
          step_next 0 (by omega) hlow hhigh, scan_cons,
          step_last (by omega) (Nat.le_add_left _ _) (by show _ ≤ 0xBF; omega)]
        have hv : 64 * (64 * (v / 4096 % 16) + v / 64 % 64) + v % 64 = v := by omega
        rw [hv, hc]
        rfl
      next h3 =>
        have hlow : (if v / 262144 % 8 = 0 then 0x90 else 0x80 : UInt8).toNat
            ≤ v / 4096 % 64 + 0x80 := by
          split <;> simp only [UInt8.reduceToNat] <;> omega
        have hhigh : v / 4096 % 64 + 0x80
            ≤ (if v / 262144 % 8 = 4 then 0x8F else 0xBF : UInt8).toNat := by
          split <;> simp only [UInt8.reduceToNat] <;> omega
        rw [scan_cons, step, first_four _ (by omega), scan_cons,
          step_next 1 (by omega) hlow hhigh, scan_cons,
          step_next 0 (by omega) (Nat.le_add_left _ _) (by show _ ≤ 0xBF; omega), scan_cons,
          step_last (by omega) (Nat.le_add_left _ _) (by show _ ≤ 0xBF; omega)]
        have hv : 64 * (64 * (64 * (v / 262144 % 8) + v / 4096 % 64) + v / 64 % 64) + v % 64
            = v := by
          omega
        rw [hv, hc]
        rfl

theorem scan_encode (chars : List Char) (out : List (Option Char)) :
    scan (.between, out) (chars.flatMap String.utf8EncodeChar)
      = (.between, (chars.map some).reverse ++ out) := by
  induction chars generalizing out with
  | nil => rfl
  | cons c rest ih =>
    rw [List.flatMap_cons, scan_append, scan_encodeChar, ih]
    simp

theorem units_encode (text : String) : units (encode text) = text.toList.map some := by
  rw [units, encode, scan_encode]
  simp [close]

/-- Every text is read back as it was written. -/
theorem lossy_encode (text : String) : lossy (encode text) = text := by
  rw [lossy, units_encode, List.map_map]
  have hid : (fun unit : Option Char => unit.getD replacement) ∘ some = id := rfl
  rw [hid, List.map_id, String.ofList_toList]

/-- No piece of a text is broken. -/
theorem validHead_encode (text : String) : validHead (encode text) = (text.toList, true) := by
  have hall : ∀ unit ∈ text.toList.map some, Option.isSome unit = true := by simp
  have hhead : (text.toList.map some).takeWhile Option.isSome = text.toList.map some := by
    rw [← List.append_nil (text.toList.map some), List.takeWhile_append_of_pos hall]
    rfl
  simp only [validHead, units_encode, hhead, List.all_eq_true.2 hall, List.filterMap_map]
  simp

theorem eq_ofNat_iff {byte : UInt8} {n : Nat} : byte = UInt8.ofNat n ↔ n % 256 = byte.toNat := by
  rw [eq_comm, ← UInt8.toNat_inj, UInt8.toNat_ofNat']

/-- A byte below 0x80 comes from its own character only. -/
theorem notMem_encode {byte : UInt8} (hbyte : byte.toNat < 0x80) {text : String}
    (h : Char.ofNat byte.toNat ∉ text.toList) : byte ∉ encode text := by
  intro hmem
  obtain ⟨c, hc, hin⟩ := List.mem_flatMap.1 hmem
  have hcode : c.val.toNat = byte.toNat := by
    unfold String.utf8EncodeChar at hin
    generalize c.val.toNat = v at hin
    dsimp only at hin
    split at hin
    next =>
      simp only [List.mem_singleton, eq_ofNat_iff] at hin
      omega
    next =>
      exfalso
      split at hin
      next =>
        simp only [List.mem_cons, List.not_mem_nil, or_false, eq_ofNat_iff] at hin
        omega
      next =>
        split at hin
        all_goals
          simp only [List.mem_cons, List.not_mem_nil, or_false, eq_ofNat_iff] at hin
          omega
  have hchar : c = Char.ofNat byte.toNat := by
    rw [← Char.ofNat_toNat c]
    exact congrArg Char.ofNat hcode
  exact h (hchar ▸ hc)

/-- A character below 0x80 takes one byte. -/
theorem length_encode_of_ascii {text : String} (h : ∀ c ∈ text.toList, c.toNat < 0x80) :
    (encode text).length = text.toList.length := by
  have hone : ∀ c ∈ text.toList, (String.utf8EncodeChar c).length = 1 := by
    intro c hc
    have hc : c.val.toNat ≤ 0x7F := Nat.le_of_lt_succ (h c hc)
    simp only [String.utf8EncodeChar, if_pos hc]
    rfl
  rw [encode, List.length_flatMap, List.map_congr_left hone, List.map_const',
    List.sum_replicate_nat, Nat.mul_one]

end OffsetService.Utf8
