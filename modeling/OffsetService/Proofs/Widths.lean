import Mathlib.Data.Int.ModEq
import Mathlib.Tactic.Linarith
import OffsetService.Numeric
import OffsetService.Proofs.Database.Layouts

/-!
# Constants at the width of their type

A constant is stored in a leaf of some width and signedness, and the integer type it belongs to may
have another width and another signedness. Both conversions keep the constant modulo a power of two:
`widen` modulo 64 bits (`toInt_widen`), and `extend` modulo the bits that count in the layout
(`toInt_extend`). So what is read in the end is the `residue` of the stored number, the one integer in
the range of the layout that agrees with it in those bits (`residue_eq_iff`), and nothing else of the
leaf shows in it (`extend_widen_by_bits`).
-/

namespace OffsetService

/-! ## Representatives of residues -/

/-- The balanced residue of an even modulus is the congruent integer in the symmetric range. -/
theorem bmod_eq_iff {half : Nat} (hpos : 0 < half) {v r : Int} :
    v.bmod (2 * half) = r ↔ r ≡ v [ZMOD 2 * half] ∧ -half ≤ r ∧ r < half := by
  constructor
  · rintro rfl
    refine ⟨?_, ?_, ?_⟩
    · exact_mod_cast Int.bmod_emod (x := v) (m := 2 * half)
    · have := Int.le_bmod (x := v) (m := 2 * half) (by omega)
      omega
    · have := Int.bmod_lt (x := v) (m := 2 * half) (by omega)
      omega
  · rintro ⟨hmod, hle, hlt⟩
    have hself : r.bmod (2 * half) = r := Int.bmod_eq_of_le_mul_two (by omega) (by omega)
    rw [← hself, ← Int.emod_bmod v, ← Int.emod_bmod r]
    congr 1
    exact_mod_cast hmod.symm

/-- The residue is the congruent integer from zero on and below the modulus. -/
theorem emod_eq_iff {m : Int} (hpos : 0 < m) {v r : Int} :
    v % m = r ↔ r ≡ v [ZMOD m] ∧ 0 ≤ r ∧ r < m := by
  constructor
  · rintro rfl
    exact ⟨Int.mod_modEq v m, Int.emod_nonneg v (by omega), Int.emod_lt_of_pos v hpos⟩
  · rintro ⟨hmod, hle, hlt⟩
    rw [← hmod, Int.emod_eq_of_lt hle hlt]

/-- A factor common to a number and an even modulus goes through the balanced residue. -/
theorem bmod_mul_ediv (a : Int) {half c : Nat} (hhalf : 0 < half) (hc : 0 < c) :
    (a * c).bmod (2 * (half * c)) / c = a.bmod (2 * half) := by
  obtain ⟨hmod, hle, hlt⟩ := (bmod_eq_iff (Nat.mul_pos hhalf hc) (v := a * c)).1 rfl
  obtain ⟨q, hq⟩ := hmod.dvd
  generalize (a * c).bmod (2 * (half * c)) = y at hq hle hlt ⊢
  have hcpos : (0 : Int) < c := Int.natCast_pos.2 hc
  -- the residue is itself a multiple of the factor
  obtain rfl : y = (a - 2 * half * q) * c := by
    push_cast at hq
    linarith
  rw [Int.mul_ediv_cancel _ hcpos.ne', eq_comm, bmod_eq_iff hhalf]
  push_cast at hle hlt
  refine ⟨?_, ?_, ?_⟩
  · exact (Int.modEq_sub_modulus_mul_iff.2 rfl : a ≡ a - 2 * half * q [ZMOD 2 * half]).symm
  · exact le_of_mul_le_mul_right (by linarith) hcpos
  · exact lt_of_mul_lt_mul_right (by linarith) hcpos.le

/-! ## Leaves -/

namespace NumericLeaf

/-- The stored number. -/
def value : NumericLeaf → Int
  | .u8 v => v.toNat
  | .u16 v => v.toNat
  | .u32 v => v.toNat
  | .u64 v => v.toNat
  | .i8 v => v.toInt
  | .i16 v => v.toInt
  | .i32 v => v.toInt
  | .i64 v => v.toInt

/-- Widening keeps a number modulo 64 bits, whatever its own width and signedness. -/
theorem toInt_widen (leaf : NumericLeaf) : leaf.widen.toInt = leaf.value.bmod (2 ^ 64) := by
  cases leaf with
  | u8 v => exact BitVec.toInt_eq_toNat_bmod _
  | u16 v => exact BitVec.toInt_eq_toNat_bmod _
  | u32 v => exact BitVec.toInt_eq_toNat_bmod _
  | u64 v => exact BitVec.toInt_eq_toNat_bmod _
  | i8 v => exact (Int64.ofInt_eq_iff_bmod_eq_toInt _ _).1 rfl |>.symm
  | i16 v => exact (Int64.ofInt_eq_iff_bmod_eq_toInt _ _).1 rfl |>.symm
  | i32 v => exact (Int64.ofInt_eq_iff_bmod_eq_toInt _ _).1 rfl |>.symm
  | i64 v => exact (Int64.toInt_bmod v).symm

end NumericLeaf

/-! ## Layouts -/

namespace IntegerLayout

/-- How many bits of a constant count in a layout: those of its width, or all 64 where `extend`
changes nothing. -/
def bits (layout : IntegerLayout) : Nat :=
  if layout.size.toNat = 0 ∨ 8 ≤ layout.size.toNat then 64 else 8 * layout.size.toNat

/-- The integers that a layout has: those with a sign where it is signed or all 64 bits count. -/
def Ranges (layout : IntegerLayout) (r : Int) : Prop :=
  if layout.signed ∨ layout.bits = 64 then
    -2 ^ (layout.bits - 1) ≤ r ∧ r < 2 ^ (layout.bits - 1)
  else
    0 ≤ r ∧ r < 2 ^ layout.bits

/-- The integer of the range of a layout that agrees with a number in the bits that count. -/
def residue (layout : IntegerLayout) (v : Int) : Int :=
  if layout.signed ∨ layout.bits = 64 then v.bmod (2 ^ layout.bits) else v % 2 ^ layout.bits

/-! ### Shifts -/

section Shifts

variable {shift : Nat}

theorem two_pow_eq_mul_two_pow (h : shift < 64) : 2 ^ 64 = 2 ^ (64 - shift) * 2 ^ shift := by
  rw [← Nat.pow_add, Nat.sub_add_cancel h.le]

/-- A shift up and the signed shift down drop the upper bits and fill with the sign. -/
theorem toInt_shifts (raw : Int64) (h : shift < 64) :
    ((raw <<< Int64.ofNat shift) >>> Int64.ofNat shift).toInt
      = raw.toInt.bmod (2 ^ (64 - shift)) := by
  have hamount : (Int64.ofNat shift).toBitVec.smod 64 = BitVec.ofNat 64 shift := by
    have hall : ∀ s : Fin 64, (BitVec.ofNat 64 s.val).smod 64 = BitVec.ofNat 64 s.val := by decide
    exact hall ⟨shift, h⟩
  have hshift : (BitVec.ofNat 64 shift).toNat = shift := by
    rw [BitVec.toNat_ofNat, Nat.mod_eq_of_lt (by omega)]
  have hhalf : 2 ^ (64 - shift) = 2 * 2 ^ (63 - shift) := by
    rw [← Nat.pow_succ']
    congr 1
    omega
  rw [← Int64.toInt_toBitVec, Int64.toBitVec_shiftRight, Int64.toBitVec_shiftLeft, hamount,
    BitVec.sshiftRight', BitVec.toInt_sshiftRight, BitVec.shiftLeft_eq', BitVec.toInt_shiftLeft,
    hshift, Nat.shiftLeft_eq, Int.shiftRight_eq_div_pow, two_pow_eq_mul_two_pow h, hhalf,
    Nat.mul_assoc, Nat.cast_mul, bmod_mul_ediv _ (Nat.two_pow_pos _) (Nat.two_pow_pos _)]
  -- the word as an unsigned number has the same lower bits as the number with its sign
  rw [← Int64.toInt_toBitVec, BitVec.toInt_eq_toNat_bmod, ← hhalf]
  exact (Int.bmod_bmod_of_dvd (Nat.pow_dvd_pow 2 (Nat.sub_le 64 shift))).symm

/-- A shift up and the unsigned shift down drop the upper bits. -/
theorem toNat_shifts (raw : UInt64) (h : shift < 64) :
    ((raw <<< UInt64.ofNat shift) >>> UInt64.ofNat shift).toNat
      = raw.toNat % 2 ^ (64 - shift) := by
  have hamount : (UInt64.ofNat shift).toNat % 64 = shift := by
    rw [UInt64.toNat_ofNat']
    omega
  rw [UInt64.toNat_shiftRight, UInt64.toNat_shiftLeft, hamount, Nat.shiftLeft_eq,
    Nat.shiftRight_eq_div_pow, two_pow_eq_mul_two_pow h, Nat.mul_mod_mul_right,
    Nat.mul_div_cancel _ (Nat.two_pow_pos shift)]

end Shifts

/-! ### Constants -/

/-- The unsigned word of a number has the same lower bits. -/
theorem natCast_toNat_toUInt64_emod (raw : Int64) {width : Nat} (h : width ≤ 64) :
    (raw.toUInt64.toNat : Int) % 2 ^ width = raw.toInt % 2 ^ width := by
  have hdvd : (2 ^ width : Int) ∣ 2 ^ 64 := pow_dvd_pow 2 h
  have hword : raw.toInt = (raw.toUInt64.toNat : Int).bmod (2 ^ 64) :=
    BitVec.toInt_eq_toNat_bmod raw.toBitVec
  rw [hword, ← Int.emod_emod_of_dvd _ hdvd, ← Int.emod_emod_of_dvd (Int.bmod _ _) hdvd]
  exact congrArg (· % 2 ^ width) Int.bmod_emod.symm

/-- A word whose upper bits are zero is the same number with a sign. -/
theorem toInt_toInt64_of_lt {word : UInt64} (h : word.toNat < 2 ^ 63) :
    word.toInt64.toInt = word.toNat := by
  have hword : word.toInt64.toInt = (word.toNat : Int).bmod (2 ^ 64) :=
    BitVec.toInt_eq_toNat_bmod word.toBitVec
  rw [hword]
  exact Int.bmod_eq_of_le_mul_two (by omega) (by omega)

/-- A constant read at the width of a layout is its residue there. -/
theorem toInt_extend (layout : IntegerLayout) (raw : Int64) :
    (layout.extend raw).toInt = layout.residue raw.toInt := by
  obtain ⟨size, signed⟩ := layout
  unfold extend residue bits
  dsimp only
  by_cases hwide : size.toNat = 0 ∨ 8 ≤ size.toNat
  · rw [if_pos (by omega), if_pos hwide, if_pos (.inr rfl)]
    exact (Int64.toInt_bmod raw).symm
  · obtain ⟨shift, hshift⟩ : ∃ shift, shift = 64 - size.toNat * 8 := ⟨_, rfl⟩
    have hbits : 8 * size.toNat = 64 - shift := by omega
    rw [if_neg hwide, if_neg (by omega), hbits, ← hshift]
    cases signed with
    | true => exact toInt_shifts raw (by omega)
    | false =>
      rw [if_neg (by simp), if_neg (by simp; omega)]
      have hlow := toNat_shifts raw.toUInt64 (show shift < 64 by omega)
      have hlt : raw.toUInt64.toNat % 2 ^ (64 - shift) < 2 ^ 63 :=
        (Nat.mod_lt _ (Nat.two_pow_pos _)).trans_le
          (Nat.pow_le_pow_right (by decide) (by omega))
      rw [toInt_toInt64_of_lt (hlow ▸ hlt), hlow, Int.natCast_emod, Nat.cast_pow, Nat.cast_ofNat,
        natCast_toNat_toUInt64_emod raw (Nat.sub_le 64 shift)]

example : extend ⟨1, true⟩ 0xFF = -1 := by decide
example : extend ⟨1, false⟩ 0x1FF = 0xFF := by decide

theorem bits_pos (layout : IntegerLayout) : 0 < layout.bits := by
  unfold bits
  split <;> omega

theorem bits_le (layout : IntegerLayout) : layout.bits ≤ 64 := by
  unfold bits
  split <;> omega

/-- The residue is the one integer of the range that agrees in the bits that count. -/
theorem residue_eq_iff {layout : IntegerLayout} {v r : Int} :
    layout.residue v = r ↔ r ≡ v [ZMOD 2 ^ layout.bits] ∧ layout.Ranges r := by
  unfold residue Ranges
  split
  · have hhalf : 2 ^ layout.bits = 2 * 2 ^ (layout.bits - 1) := by
      rw [← Nat.pow_succ', Nat.succ_eq_add_one, Nat.sub_add_cancel layout.bits_pos]
    have h := bmod_eq_iff (Nat.two_pow_pos (layout.bits - 1)) (v := v) (r := r)
    rw [← hhalf, ← Nat.cast_ofNat (R := Int), ← Nat.cast_mul, ← hhalf] at h
    exact_mod_cast h
  · exact emod_eq_iff (by positivity)

theorem residue_congr {layout : IntegerLayout} {v w : Int} (h : v ≡ w [ZMOD 2 ^ layout.bits]) :
    layout.residue v = layout.residue w := by
  obtain ⟨hmod, hrange⟩ := residue_eq_iff.1 (rfl : layout.residue w = _)
  exact residue_eq_iff.2 ⟨hmod.trans h.symm, hrange⟩

theorem residue_residue (layout : IntegerLayout) (v : Int) :
    layout.residue (layout.residue v) = layout.residue v :=
  residue_congr (residue_eq_iff.1 rfl).1

/-- Widening a leaf loses nothing that a layout could see. -/
theorem toInt_extend_widen (layout : IntegerLayout) (leaf : NumericLeaf) :
    (layout.extend leaf.widen).toInt = layout.residue leaf.value := by
  rw [toInt_extend, leaf.toInt_widen]
  have hwide : leaf.value.bmod (2 ^ 64) ≡ leaf.value [ZMOD 2 ^ 64] := Int.bmod_emod
  exact residue_congr (hwide.of_dvd (pow_dvd_pow 2 layout.bits_le))

theorem bits_of_mem_ofEnumerations :
    ∀ layout ∈ ofEnumerations, layout.bits = 8 * layout.size.toNat := by decide

/-- **Constants are read by the bits that count.** What a layout makes of a leaf of any kind is the
one integer of its range that agrees with the stored number in these bits; so two leaves are read
alike exactly when their numbers agree in them, and to read what was read again changes nothing. In
the layout of an enumeration of any type stream all bits of the width count, and no others. -/
theorem extend_widen_by_bits (layout : IntegerLayout) :
    (∀ (leaf : NumericLeaf) (r : Int), (layout.extend leaf.widen).toInt = r ↔
      r ≡ leaf.value [ZMOD 2 ^ layout.bits] ∧ layout.Ranges r) ∧
    (∀ leaf other : NumericLeaf, layout.extend leaf.widen = layout.extend other.widen ↔
      leaf.value ≡ other.value [ZMOD 2 ^ layout.bits]) ∧
    (∀ raw, layout.extend (layout.extend raw) = layout.extend raw) ∧
    (∀ (types : TypeStream) underlying,
      (Resolve.enumLayout types.lookup underlying).outcome = .ok layout →
        layout.bits = 8 * layout.size.toNat) := by
  refine ⟨fun leaf r => ?_, fun leaf other => ⟨fun h => ?_, fun h => ?_⟩, fun raw => ?_,
    fun types underlying h => ?_⟩
  · rw [toInt_extend_widen]
    exact residue_eq_iff
  · have hleaf := (residue_eq_iff.1 (layout.toInt_extend_widen leaf).symm).1
    have hother := (residue_eq_iff.1 (layout.toInt_extend_widen other).symm).1
    rw [h] at hleaf
    exact hleaf.symm.trans hother
  · apply Int64.toInt_inj.1
    rw [toInt_extend_widen, toInt_extend_widen]
    exact residue_congr h
  · apply Int64.toInt_inj.1
    rw [toInt_extend, toInt_extend, residue_residue]
  · exact bits_of_mem_ofEnumerations layout (Resolve.mem_ofEnumerations_of_enumLayout h)

/-- An enumeration of unsigned 16-bit constants, and the same 16 bits in a leaf of 16 bits with a sign
and in one of 32 bits without. -/
theorem extend_widen_by_bits_short :
    (Resolve.enumLayout (TypeStream.lookup ⟨0x1000, 0x1000, #[]⟩) 0x21).outcome = .ok ⟨2, false⟩ ∧
      bits ⟨2, false⟩ = 8 * 2 ∧
        extend ⟨2, false⟩ (NumericLeaf.i16 (-1)).widen
          = extend ⟨2, false⟩ (NumericLeaf.u32 0x1FFFF).widen := by
  have hlayout : (Resolve.enumLayout (TypeStream.lookup ⟨0x1000, 0x1000, #[]⟩) 0x21).outcome
      = .ok ⟨2, false⟩ := rfl
  obtain ⟨-, halike, -, hbits⟩ := extend_widen_by_bits ⟨2, false⟩
  refine ⟨hlayout, hbits _ _ hlayout, (halike _ _).2 ?_⟩
  decide

end IntegerLayout

end OffsetService
