import Mathlib.Algebra.Order.Field.Power
import Mathlib.Algebra.Order.Field.Rat
import Mathlib.Tactic.FieldSimp
import Mathlib.Tactic.Linarith
import Mathlib.Tactic.Positivity
import Mathlib.Tactic.Ring
import OffsetService.Decimal.Binary64

/-!
# Rounding goes to the nearest magnitude

Every magnitude has one canonical form (`Canonical`). The quotients that are rounded to a magnitude
lie around it, up to half way to the next ones (`Attracts`), and `nearest` gives the magnitude that
attracts a quotient and nothing else (`nearest_eq_some_iff`), so products and quotients of
magnitudes are rounded once (`mul?_eq_some_iff`, `div?_eq_some_iff`). No other magnitude is nearer
to what a magnitude attracts (`Attracts.nearest`).
-/

namespace OffsetService.Binary64

theorem bound_eq : bound = 2 ^ 53 := rfl

theorem half_bound_eq : bound / 2 = 2 ^ 52 := rfl

/-! ## Quotients -/

/-- The number `significand * 2 ^ exponent`. -/
def value (x : Binary64) : ℚ := x.significand * 2 ^ x.exponent

theorem pos_two_zpow (e : ℤ) : (0 : ℚ) < 2 ^ e := zpow_pos (by norm_num) e

theorem two_zpow_succ (e : ℤ) : (2 : ℚ) ^ (e + 1) = 2 * 2 ^ e := by
  rw [zpow_add_one₀ (by norm_num), mul_comm]

theorem zpow_toNat (b : ℕ) {e : ℤ} (h : 0 ≤ e) : (b : ℚ) ^ e = ((b ^ e.toNat : ℕ) : ℚ) := by
  obtain ⟨n, rfl⟩ := Int.eq_ofNat_of_zero_le h
  simp

/-- A quotient is divided by a power when its denominator is multiplied by it, or its numerator by
the inverse one. -/
theorem divided_spec {b num den : ℕ} (hb : 0 < b) (hden : 0 < den) (e : ℤ) {divided : ℕ × ℕ}
    (h : divided = if 0 ≤ e then (num, den * b ^ e.toNat) else (num * b ^ (-e).toNat, den)) :
    0 < divided.2 ∧ (divided.1 : ℚ) * b ^ e / divided.2 = (num : ℚ) / den := by
  have hbase : (0 : ℚ) < b := by exact_mod_cast hb
  have hpow : (0 : ℚ) < b ^ e := zpow_pos hbase e
  have hq : (0 : ℚ) < den := by exact_mod_cast hden
  subst h
  split
  next h =>
    refine ⟨Nat.mul_pos hden (Nat.pow_pos hb), ?_⟩
    rw [Nat.cast_mul, ← zpow_toNat b h]
    field_simp
  next h =>
    refine ⟨hden, ?_⟩
    rw [Nat.cast_mul, ← zpow_toNat b (by omega), zpow_neg]
    field_simp

theorem scale_spec {den : ℕ} (hden : 0 < den) (num : ℕ) (e : ℤ) :
    0 < (scale num den e).2 ∧
      ((scale num den e).1 : ℚ) * 2 ^ e / (scale num den e).2 = (num : ℚ) / den := by
  refine divided_spec (by decide) hden e ?_
  rw [scale, Nat.shiftLeft_eq, Nat.shiftLeft_eq]

theorem quotient_spec (x : Binary64) : 0 < x.quotient.2 ∧
    (x.quotient.1 : ℚ) / x.quotient.2 = x.value := by
  unfold quotient value
  split
  next h =>
    rw [Nat.shiftLeft_eq]
    refine ⟨Nat.one_pos, ?_⟩
    rw [Nat.cast_mul, ← zpow_toNat 2 h, Nat.cast_one, div_one]
    rfl
  next h =>
    rw [Nat.one_shiftLeft]
    refine ⟨Nat.pow_pos (by decide), ?_⟩
    rw [← zpow_toNat 2 (by omega), zpow_neg, div_inv_eq_mul]
    rfl

/-! ## Rounding to a natural number -/

/-- A quotient is at most half away from a number, and nearer than that if the number is odd. -/
structure RoundsTo (num den n : ℕ) : Prop where
  above : 2 * (den * n) ≤ 2 * num + den
  below : 2 * num ≤ 2 * (den * n) + den
  odd : n % 2 = 1 → 2 * (den * n) < 2 * num + den ∧ 2 * num < 2 * (den * n) + den

theorem RoundsTo.le {num den n m : ℕ} (hden : 0 < den) (hn : RoundsTo num den n)
    (hm : RoundsTo num den m) : n ≤ m := by
  by_contra hlt
  obtain ⟨k, rfl⟩ : ∃ k, n = m + 1 + k := ⟨n - (m + 1), by omega⟩
  have hstep : den * (m + 1 + k) = den * m + den + den * k := by ring
  obtain ⟨habove, -, hodd⟩ := hn
  obtain ⟨-, hbelow, hodd'⟩ := hm
  rw [hstep] at habove hodd
  -- the numbers are next to each other, so one of them is odd
  have hzero : den * k = 0 := by omega
  obtain rfl : k = 0 := (Nat.mul_eq_zero.1 hzero).resolve_left (by omega)
  omega

theorem roundsTo_roundEven {num den : ℕ} (hden : 0 < den) :
    RoundsTo num den (roundEven num den) := by
  have hdivision := Nat.div_add_mod num den
  have hrest := Nat.mod_lt num hden
  have hnext : den * (num / den + 1) = den * (num / den) + den := Nat.mul_succ _ _
  unfold roundEven
  dsimp only
  split
  · constructor <;> omega
  · split
    · constructor <;> omega
    · rcases Nat.mod_two_eq_zero_or_one (num / den) with heven | hodd
      · rw [heven, Nat.add_zero]
        constructor <;> omega
      · rw [hodd]
        constructor <;> omega

theorem roundEven_eq_iff {num den n : ℕ} (hden : 0 < den) :
    roundEven num den = n ↔ RoundsTo num den n := by
  constructor
  · rintro rfl
    exact roundsTo_roundEven hden
  · intro h
    exact Nat.le_antisymm ((roundsTo_roundEven hden).le hden h)
      (h.le hden (roundsTo_roundEven hden))

/-! ## The exponent -/

/-- A quotient takes all bits of the significand at this exponent, or as many as there are at the
least exponent. -/
structure Scales (q : ℚ) (e : ℤ) : Prop where
  least_le : leastExponent ≤ e
  lt_bound : q < 2 ^ 53 * 2 ^ e
  full : e = leastExponent ∨ 2 ^ 52 * 2 ^ e ≤ q

theorem Scales.le {q : ℚ} {e e' : ℤ} (h : Scales q e) (h' : Scales q e') : e ≤ e' := by
  by_contra hlt
  have hpow : (2 : ℚ) ^ (e' + 1) ≤ 2 ^ e := zpow_le_zpow_right₀ (by norm_num) (by omega)
  rw [two_zpow_succ] at hpow
  have hfull := h.full.resolve_left (by have := h'.least_le; omega)
  have hbound := h'.lt_bound
  linarith

/-- The first digits of a quotient of two numbers with so many bits each. -/
theorem quotient_log2 {num den : ℕ} (hnum : 0 < num) (hden : 0 < den) :
    2 ^ 51 * 2 ^ ((Nat.log2 num : ℤ) - Nat.log2 den - 52) ≤ (num : ℚ) / den ∧
      (num : ℚ) / den < 2 ^ 53 * 2 ^ ((Nat.log2 num : ℤ) - Nat.log2 den - 52) := by
  have hq : (0 : ℚ) < den := by exact_mod_cast hden
  have hpow := pos_two_zpow ((Nat.log2 num : ℤ) - Nat.log2 den - 52)
  have hunit : (2 : ℚ) ^ ((Nat.log2 num : ℤ) - Nat.log2 den - 52) * 2 ^ 52 * 2 ^ Nat.log2 den
      = 2 ^ Nat.log2 num := by
    rw [← zpow_natCast, ← zpow_natCast, ← zpow_natCast, ← zpow_add₀ (by norm_num),
      ← zpow_add₀ (by norm_num)]
    congr 1
    push_cast
    ring
  have hnum_le : (2 : ℚ) ^ Nat.log2 num ≤ num := by exact_mod_cast Nat.log2_self_le (by omega)
  have hnum_lt : (num : ℚ) < 2 * 2 ^ Nat.log2 num := by
    rw [← pow_succ']
    exact_mod_cast Nat.lt_log2_self
  have hden_le : (2 : ℚ) ^ Nat.log2 den ≤ den := by exact_mod_cast Nat.log2_self_le (by omega)
  have hden_lt : (den : ℚ) < 2 * 2 ^ Nat.log2 den := by
    rw [← pow_succ']
    exact_mod_cast Nat.lt_log2_self
  generalize (2 : ℚ) ^ ((Nat.log2 num : ℤ) - Nat.log2 den - 52) = unit at *
  constructor
  · rw [le_div_iff₀ hq]
    have := mul_lt_mul_of_pos_left hden_lt hpow
    linarith
  · rw [div_lt_iff₀ hq]
    have := mul_le_mul_of_nonneg_left hden_le hpow.le
    linarith

/-- A floor is below a number as the quotient is. -/
theorem scale_div_lt_iff {den : ℕ} (hden : 0 < den) (num : ℕ) (e : ℤ) (n : ℕ) :
    (scale num den e).1 / (scale num den e).2 < n ↔ (num : ℚ) / den < n * 2 ^ e := by
  obtain ⟨hpos, hvalue⟩ := scale_spec hden num e
  have hq : (0 : ℚ) < (scale num den e).2 := by exact_mod_cast hpos
  have hpow := pos_two_zpow e
  rw [Nat.div_lt_iff_lt_mul hpos, ← hvalue, div_lt_iff₀ hq]
  constructor
  · intro h
    have hcast : ((scale num den e).1 : ℚ) < n * (scale num den e).2 := by exact_mod_cast h
    nlinarith
  · intro h
    have hcast : ((scale num den e).1 : ℚ) < n * (scale num den e).2 := by nlinarith
    exact_mod_cast hcast

theorem scales_exponentOf {num den : ℕ} (hnum : 0 < num) (hden : 0 < den) :
    Scales ((num : ℚ) / den) (exponentOf num den) := by
  obtain ⟨hlow, hhigh⟩ := quotient_log2 hnum hden
  unfold exponentOf
  dsimp only
  generalize (Nat.log2 num : ℤ) - Nat.log2 den - 52 = guess at hlow hhigh ⊢
  -- the exponent before the least one is taken into account
  obtain ⟨e, he, hfull, hbound⟩ : ∃ e, (if (scale num den guess).1 / (scale num den guess).2
      < bound / 2 then guess - 1 else guess) = e ∧ 2 ^ 52 * 2 ^ e ≤ (num : ℚ) / den ∧
        (num : ℚ) / den < 2 ^ 53 * 2 ^ e := by
    have hbelow := scale_div_lt_iff hden num guess (bound / 2)
    rw [half_bound_eq] at hbelow ⊢
    push_cast at hbelow
    have hguess : (2 : ℚ) ^ guess = 2 * 2 ^ (guess - 1) := by
      rw [← two_zpow_succ, sub_add_cancel]
    split
    next h =>
      refine ⟨guess - 1, rfl, ?_, ?_⟩
      · linarith
      · have := hbelow.1 h
        linarith
    next h => exact ⟨guess, rfl, not_lt.1 fun hlt => h (hbelow.2 hlt), hhigh⟩
  rw [he]
  rcases le_total leastExponent e with hle | hle
  · rw [max_eq_left hle]
    exact ⟨hle, hbound, .inr hfull⟩
  · rw [max_eq_right hle]
    have hpow : (2 : ℚ) ^ e ≤ 2 ^ leastExponent := zpow_le_zpow_right₀ (by norm_num) hle
    exact ⟨le_rfl, by linarith, .inl rfl⟩

theorem exponentOf_eq_iff {num den : ℕ} (hnum : 0 < num) (hden : 0 < den) {e : ℤ} :
    exponentOf num den = e ↔ Scales ((num : ℚ) / den) e := by
  constructor
  · rintro rfl
    exact scales_exponentOf hnum hden
  · intro h
    exact Int.le_antisymm ((scales_exponentOf hnum hden).le h) (h.le (scales_exponentOf hnum hden))

/-! ## What a magnitude attracts -/

/-- Between two ends, which may belong to what is between them. -/
structure Within (isClosed : Prop) (low q high : ℚ) : Prop where
  low_le : low ≤ q
  le_high : q ≤ high
  inside : isClosed ∨ low < q ∧ q < high

/-- The one form of a magnitude: its significand takes all bits unless its exponent is the least. -/
structure Canonical (x : Binary64) : Prop where
  lt_bound : x.significand < bound
  least_le : leastExponent ≤ x.exponent
  le_greatest : x.exponent ≤ greatestExponent
  full : x.exponent = leastExponent ∨ bound / 2 ≤ x.significand

/-- The magnitude below is nearer than the one above. -/
def IsNarrow (x : Binary64) : Prop := x.significand = bound / 2 ∧ leastExponent < x.exponent

instance (x : Binary64) : Decidable x.IsNarrow := inferInstanceAs (Decidable (_ ∧ _))

/-- Half way down to the magnitude below. -/
def lowEnd (x : Binary64) : ℚ :=
  (x.significand - if x.IsNarrow then 1 / 4 else 1 / 2) * 2 ^ x.exponent

/-- Half way up to the magnitude above. -/
def highEnd (x : Binary64) : ℚ := (x.significand + 1 / 2) * 2 ^ x.exponent

/-- Half way to the next magnitudes and nearer, or only nearer if the significand is odd. -/
def Attracts (x : Binary64) (q : ℚ) : Prop :=
  Within (x.significand % 2 = 0) x.lowEnd q x.highEnd

theorem roundsTo_iff {num den n : ℕ} (hden : 0 < den) {unit : ℚ} (hunit : 0 < unit) :
    RoundsTo num den n
      ↔ Within (n % 2 = 0) ((n - 1 / 2) * unit) (num * unit / den) ((n + 1 / 2) * unit) := by
  have hq : (0 : ℚ) < den := by exact_mod_cast hden
  have hfactor : 0 < unit / (2 * den) := by positivity
  have hlow : num * unit / den - (n - 1 / 2) * unit
      = unit / (2 * den) * ((2 * num + den : ℕ) - (2 * (den * n) : ℕ)) := by
    push_cast
    field_simp
    ring
  have hhigh : (n + 1 / 2) * unit - num * unit / den
      = unit / (2 * den) * ((2 * (den * n) + den : ℕ) - (2 * num : ℕ)) := by
    push_cast
    field_simp
  have hlow_le : (n - 1 / 2) * unit ≤ num * unit / den ↔ 2 * (den * n) ≤ 2 * num + den := by
    rw [← sub_nonneg, hlow, mul_nonneg_iff_of_pos_left hfactor, sub_nonneg, Nat.cast_le]
  have hlow_lt : (n - 1 / 2) * unit < num * unit / den ↔ 2 * (den * n) < 2 * num + den := by
    rw [← sub_pos, hlow, mul_pos_iff_of_pos_left hfactor, sub_pos, Nat.cast_lt]
  have hle_high : num * unit / den ≤ (n + 1 / 2) * unit ↔ 2 * num ≤ 2 * (den * n) + den := by
    rw [← sub_nonneg, hhigh, mul_nonneg_iff_of_pos_left hfactor, sub_nonneg, Nat.cast_le]
  have hlt_high : num * unit / den < (n + 1 / 2) * unit ↔ 2 * num < 2 * (den * n) + den := by
    rw [← sub_pos, hhigh, mul_pos_iff_of_pos_left hfactor, sub_pos, Nat.cast_lt]
  constructor
  · rintro ⟨habove, hbelow, hodd⟩
    refine ⟨hlow_le.2 habove, hle_high.2 hbelow, ?_⟩
    rcases Nat.mod_two_eq_zero_or_one n with heven | hodd'
    · exact .inl heven
    · obtain ⟨hlt, hgt⟩ := hodd hodd'
      exact .inr ⟨hlow_lt.2 hlt, hlt_high.2 hgt⟩
  · rintro ⟨habove, hbelow, hinside⟩
    refine ⟨hlow_le.1 habove, hle_high.1 hbelow, fun hodd => ?_⟩
    obtain ⟨hlt, hgt⟩ := hinside.resolve_left (by omega)
    exact ⟨hlow_lt.1 hlt, hlt_high.1 hgt⟩

/-- Rounding at an exponent. -/
theorem roundEven_scale_eq_iff {num den n : ℕ} (hden : 0 < den) (e : ℤ) :
    roundEven (scale num den e).1 (scale num den e).2 = n
      ↔ Within (n % 2 = 0) ((n - 1 / 2) * 2 ^ e) ((num : ℚ) / den) ((n + 1 / 2) * 2 ^ e) := by
  obtain ⟨hpos, hvalue⟩ := scale_spec hden num e
  rw [roundEven_eq_iff hpos, roundsTo_iff hpos (pos_two_zpow e), hvalue]

/-! ## Rounding -/

theorem nearest_zero (den : ℕ) : nearest 0 den = some zero := rfl

/-- Rounding, with the quotient at its exponent. -/
theorem nearest_of_pos {num : ℕ} (hnum : 0 < num) (den : ℕ) :
    nearest num den
      = let exponent := exponentOf num den
        let significand := roundEven (scale num den exponent).1 (scale num den exponent).2
        let carried := if significand = bound then (⟨bound / 2, exponent + 1⟩ : Binary64)
          else ⟨significand, exponent⟩
        if greatestExponent < carried.exponent then none else some carried := by
  rw [nearest, if_neg (by omega)]
  dsimp only
  split <;> rfl

theorem canonical_zero : zero.Canonical :=
  ⟨by decide, by decide, by decide, .inl rfl⟩

theorem lowEnd_of_narrow {x : Binary64} (h : x.IsNarrow) :
    x.lowEnd = (2 ^ 52 - 1 / 4) * 2 ^ x.exponent := by
  rw [lowEnd, if_pos h, h.1, half_bound_eq]
  norm_num

theorem lowEnd_of_not_narrow {x : Binary64} (h : ¬x.IsNarrow) :
    x.lowEnd = (x.significand - 1 / 2) * 2 ^ x.exponent := by
  rw [lowEnd, if_neg h]

theorem attracts_zero : zero.Attracts 0 := by
  have hnarrow : ¬zero.IsNarrow := by decide
  have hpow := pos_two_zpow zero.exponent
  have hzero : ((zero.significand : ℕ) : ℚ) = 0 := rfl
  refine ⟨?_, ?_, .inl rfl⟩
  · rw [lowEnd_of_not_narrow hnarrow, hzero]
    linarith
  · rw [highEnd, hzero]
    linarith

/-- What is rounded up to one bit more is next to the magnitude that it is carried to. -/
theorem attracts_carried {q : ℚ} {e : ℤ} (hleast : leastExponent ≤ e)
    (hlow : (2 ^ 53 - 1 / 2) * 2 ^ e ≤ q) (hbound : q < 2 ^ 53 * 2 ^ e) :
    Attracts ⟨bound / 2, e + 1⟩ q := by
  have hpow := pos_two_zpow e
  have hnarrow : IsNarrow ⟨bound / 2, e + 1⟩ := ⟨rfl, by dsimp only; omega⟩
  refine ⟨?_, ?_, .inl (by decide : bound / 2 % 2 = 0)⟩
  · rw [lowEnd_of_narrow hnarrow]
    dsimp only
    rw [two_zpow_succ]
    linarith
  · rw [highEnd, half_bound_eq]
    dsimp only
    rw [two_zpow_succ]
    push_cast
    linarith

/-- What is rounded at its own exponent, and not up to one bit more, fills its significand. -/
theorem Scales.significand {q : ℚ} {e : ℤ} {n : ℕ} (h : Scales q e)
    (hnear : Within (n % 2 = 0) ((n - 1 / 2) * 2 ^ e) q ((n + 1 / 2) * 2 ^ e)) (hne : n ≠ bound) :
    n < bound ∧ (e = leastExponent ∨ bound / 2 ≤ n) := by
  have hpow := pos_two_zpow e
  constructor
  · have hunits : (n : ℚ) - 1 / 2 < 2 ^ 53 :=
      lt_of_mul_lt_mul_right (lt_of_le_of_lt hnear.low_le h.lt_bound) hpow.le
    have hcast : (n : ℚ) < (bound + 1 : ℕ) := by
      rw [bound_eq]
      push_cast
      linarith
    have hsucc : n < bound + 1 := by exact_mod_cast hcast
    omega
  · refine h.full.imp_right fun hge => ?_
    have hunits : (2 : ℚ) ^ 52 ≤ n + 1 / 2 :=
      le_of_mul_le_mul_right (le_trans hge hnear.le_high) hpow
    have hcast : ((bound / 2 : ℕ) : ℚ) < (n + 1 : ℕ) := by
      rw [half_bound_eq]
      push_cast
      linarith
    exact Nat.le_of_lt_succ (by exact_mod_cast hcast)

/-- What is rounded at its own exponent is attracted. If the magnitude is narrow, the number is not
below it: it would have a smaller exponent. -/
theorem Scales.attracts {q : ℚ} {e : ℤ} {n : ℕ} (h : Scales q e)
    (hnear : Within (n % 2 = 0) ((n - 1 / 2) * 2 ^ e) q ((n + 1 / 2) * 2 ^ e)) :
    Attracts ⟨n, e⟩ q := by
  by_cases hnarrow : IsNarrow ⟨n, e⟩
  · have hpow := pos_two_zpow e
    have hge := h.full.resolve_left (ne_of_gt hnarrow.2)
    obtain rfl : n = bound / 2 := hnarrow.1
    refine ⟨?_, hnear.le_high, .inl (by decide : bound / 2 % 2 = 0)⟩
    rw [lowEnd_of_narrow hnarrow]
    dsimp only
    linarith
  · rw [Attracts, lowEnd_of_not_narrow hnarrow]
    exact hnear

theorem attracts_of_nearest {num den : ℕ} {x : Binary64} (hden : 0 < den)
    (h : nearest num den = some x) : x.Canonical ∧ x.Attracts ((num : ℚ) / den) := by
  rcases Nat.eq_zero_or_pos num with rfl | hnum
  · obtain rfl := Option.some.inj ((nearest_zero den).symm.trans h)
    rw [Nat.cast_zero, zero_div]
    exact ⟨canonical_zero, attracts_zero⟩
  rw [nearest_of_pos hnum] at h
  dsimp only at h
  have hscales := scales_exponentOf hnum hden
  generalize exponentOf num den = e at *
  obtain ⟨n, hn⟩ : ∃ n, roundEven (scale num den e).1 (scale num den e).2 = n := ⟨_, rfl⟩
  have hnear := (roundEven_scale_eq_iff hden e).1 hn
  rw [hn] at h
  by_cases hcarry : n = bound
  · rw [if_pos hcarry, Option.ite_none_left_eq_some] at h
    obtain ⟨hgreatest, hx⟩ := h
    obtain rfl := Option.some.inj hx
    have hlow := hnear.low_le
    rw [hcarry, bound_eq] at hlow
    push_cast at hlow
    exact ⟨⟨(by decide : bound / 2 < bound), Int.le_add_one hscales.least_le, not_lt.1 hgreatest,
      .inr le_rfl⟩, attracts_carried hscales.least_le hlow hscales.lt_bound⟩
  · rw [if_neg hcarry, Option.ite_none_left_eq_some] at h
    obtain ⟨hgreatest, hx⟩ := h
    obtain rfl := Option.some.inj hx
    obtain ⟨hlt, hfull⟩ := hscales.significand hnear hcarry
    exact ⟨⟨hlt, hscales.least_le, not_lt.1 hgreatest, hfull⟩, hscales.attracts hnear⟩

/-- Half way down is at most half a unit down. -/
theorem Attracts.within {x : Binary64} {q : ℚ} (h : x.Attracts q) :
    Within (x.significand % 2 = 0) ((x.significand - 1 / 2) * 2 ^ x.exponent) q
      ((x.significand + 1 / 2) * 2 ^ x.exponent) := by
  have hpow := pos_two_zpow x.exponent
  have hle : (x.significand - 1 / 2) * 2 ^ x.exponent ≤ x.lowEnd := by
    refine mul_le_mul_of_nonneg_right ?_ hpow.le
    split <;> linarith
  exact ⟨le_trans hle h.low_le, h.le_high,
    h.inside.imp_right fun hinside => ⟨lt_of_le_of_lt hle hinside.1, hinside.2⟩⟩

theorem Canonical.lt_of_attracts {x : Binary64} {q : ℚ} (hx : x.Canonical) (h : x.Attracts q) :
    q < 2 ^ 53 * 2 ^ x.exponent := by
  have hpow := pos_two_zpow x.exponent
  have hsignificand : (x.significand : ℚ) + 1 ≤ 2 ^ 53 := by exact_mod_cast hx.lt_bound
  refine lt_of_le_of_lt h.le_high (mul_lt_mul_of_pos_right ?_ hpow)
  linarith

/-- What is attracted and takes fewer bits was attracted from the next exponent below. -/
theorem Canonical.carried_of_attracts {x : Binary64} {q : ℚ} (hx : x.Canonical)
    (h : x.Attracts q) (hleast : leastExponent < x.exponent) (hlt : q < 2 ^ 52 * 2 ^ x.exponent) :
    x.significand = bound / 2 ∧ (2 ^ 53 - 1 / 2) * 2 ^ (x.exponent - 1) ≤ q ∧
      q < 2 ^ 53 * 2 ^ (x.exponent - 1) := by
  have hpow := pos_two_zpow x.exponent
  have hunit : (2 : ℚ) ^ x.exponent = 2 * 2 ^ (x.exponent - 1) := by
    rw [← two_zpow_succ, sub_add_cancel]
  have hfull : bound / 2 ≤ x.significand := hx.full.resolve_left (ne_of_gt hleast)
  have hnarrow : x.IsNarrow := by
    by_contra hwide
    have hlow := h.low_le
    rw [lowEnd_of_not_narrow hwide] at hlow
    have hunits : (x.significand : ℚ) - 1 / 2 < 2 ^ 52 :=
      lt_of_mul_lt_mul_right (lt_of_le_of_lt hlow hlt) hpow.le
    have hcast : (x.significand : ℚ) < (bound / 2 + 1 : ℕ) := by
      rw [half_bound_eq]
      push_cast
      linarith
    have hsucc : x.significand < bound / 2 + 1 := by exact_mod_cast hcast
    exact hwide ⟨by omega, hleast⟩
  have hlow := h.low_le
  rw [lowEnd_of_narrow hnarrow] at hlow
  exact ⟨hnarrow.1, by linarith, by linarith⟩

theorem Canonical.eq_zero {x : Binary64} (hx : x.Canonical) (h : x.significand = 0) :
    x = zero := by
  have hexponent : x.exponent = leastExponent := by
    refine hx.full.resolve_right fun hfull => ?_
    rw [h] at hfull
    exact absurd hfull (by decide)
  obtain ⟨m, e⟩ := x
  obtain rfl : m = 0 := h
  obtain rfl : e = leastExponent := hexponent
  rfl

theorem Canonical.eq_zero_of_attracts {x : Binary64} (hx : x.Canonical) (h : x.Attracts 0) :
    x = zero := by
  have hpow := pos_two_zpow x.exponent
  have hunits : (x.significand : ℚ) - 1 / 2 ≤ 0 := by
    by_contra hpos
    have := mul_pos (not_le.1 hpos) hpow
    have hlow := h.within.low_le
    linarith
  have hcast : (x.significand : ℚ) < (1 : ℕ) := by
    push_cast
    linarith
  have hlt : x.significand < 1 := by exact_mod_cast hcast
  exact hx.eq_zero (by omega)

theorem nearest_of_attracts {num den : ℕ} {x : Binary64} (hden : 0 < den) (hx : x.Canonical)
    (h : x.Attracts ((num : ℚ) / den)) : nearest num den = some x := by
  have hbound := hx.lt_of_attracts h
  have hpow := pos_two_zpow x.exponent
  rcases Nat.eq_zero_or_pos num with rfl | hnum
  · rw [Nat.cast_zero, zero_div] at h
    rw [hx.eq_zero_of_attracts h, nearest_zero]
  rw [nearest_of_pos hnum]
  by_cases hscales : x.exponent = leastExponent ∨ 2 ^ 52 * 2 ^ x.exponent ≤ (num : ℚ) / den
  · have hexponent := (exponentOf_eq_iff hnum hden).2 ⟨hx.least_le, hbound, hscales⟩
    have hround := (roundEven_scale_eq_iff hden x.exponent).2 h.within
    dsimp only
    rw [hexponent, hround, if_neg (ne_of_lt hx.lt_bound), if_neg (not_lt.2 hx.le_greatest)]
  · obtain ⟨hleast, hlt⟩ := not_or.1 hscales
    have hleast : leastExponent < x.exponent := lt_of_le_of_ne hx.least_le (Ne.symm hleast)
    obtain ⟨hsignificand, hlow, hhigh⟩ := hx.carried_of_attracts h hleast (not_le.1 hlt)
    have hpow := pos_two_zpow (x.exponent - 1)
    have hexponent : exponentOf num den = x.exponent - 1 :=
      (exponentOf_eq_iff hnum hden).2 ⟨by omega, hhigh, .inr (by linarith)⟩
    have hround : roundEven (scale num den (x.exponent - 1)).1 (scale num den (x.exponent - 1)).2
        = bound := by
      rw [roundEven_scale_eq_iff hden, bound_eq]
      push_cast
      exact ⟨hlow, by linarith, .inl (by decide)⟩
    dsimp only
    rw [hexponent, hround, if_pos rfl, sub_add_cancel, ← hsignificand,
      if_neg (not_lt.2 hx.le_greatest)]

/-- A quotient is rounded to the magnitude that attracts it. -/
theorem nearest_eq_some_iff {num den : ℕ} {x : Binary64} (hden : 0 < den) :
    nearest num den = some x ↔ x.Canonical ∧ x.Attracts ((num : ℚ) / den) :=
  ⟨attracts_of_nearest hden, fun h => nearest_of_attracts hden h.1 h.2⟩

/-- One tenth is between two magnitudes, and this one is nearer. -/
example : nearest 1 10 = some ⟨7205759403792794, -56⟩ := by decide +kernel

/-- A product is rounded once, from the exact product. -/
theorem mul?_eq_some_iff {x y z : Binary64} :
    x.mul? y = some z ↔ z.Canonical ∧ z.Attracts (x.value * y.value) := by
  obtain ⟨hx, hxvalue⟩ := x.quotient_spec
  obtain ⟨hy, hyvalue⟩ := y.quotient_spec
  rw [mul?, nearest_eq_some_iff (Nat.mul_pos hx hy), ← hxvalue, ← hyvalue, div_mul_div_comm,
    Nat.cast_mul, Nat.cast_mul]

/-- A quotient is rounded once, from the exact quotient. -/
theorem div?_eq_some_iff {x y z : Binary64} (h : y.significand ≠ 0) :
    x.div? y = some z ↔ z.Canonical ∧ z.Attracts (x.value / y.value) := by
  obtain ⟨hx, hxvalue⟩ := x.quotient_spec
  obtain ⟨hy, hyvalue⟩ := y.quotient_spec
  have hpos : 0 < y.quotient.1 := by
    refine Nat.pos_of_ne_zero fun hzero => h ?_
    rw [hzero, Nat.cast_zero, zero_div, value] at hyvalue
    exact_mod_cast (mul_eq_zero.1 hyvalue.symm).resolve_right (pos_two_zpow y.exponent).ne'
  rw [div?, nearest_eq_some_iff (Nat.mul_pos hx hpos), ← hxvalue, ← hyvalue, div_div_div_eq,
    Nat.cast_mul, Nat.cast_mul]

/-! ## No other magnitude is nearer -/

theorem value_eq_mul {x : Binary64} {e : ℤ} (h : e ≤ x.exponent) :
    ∃ k : ℕ, x.value = k * 2 ^ e := by
  refine ⟨x.significand * 2 ^ (x.exponent - e).toNat, ?_⟩
  rw [Nat.cast_mul, ← zpow_toNat 2 (by omega), value, mul_assoc, Nat.cast_ofNat,
    ← zpow_add₀ (by norm_num), sub_add_cancel]

/-- At a smaller exponent there are smaller magnitudes only. -/
theorem Canonical.value_le {x y : Binary64} (hy : y.Canonical) (h : y.exponent < x.exponent) :
    y.value ≤ (2 ^ 52 - 1 / 2) * 2 ^ x.exponent := by
  have hpow := pos_two_zpow y.exponent
  have hsignificand : (y.significand : ℚ) + 1 ≤ 2 ^ 53 := by exact_mod_cast hy.lt_bound
  have hunit : (2 : ℚ) ^ (y.exponent + 1) ≤ 2 ^ x.exponent :=
    zpow_le_zpow_right₀ (by norm_num) h
  rw [two_zpow_succ] at hunit
  have hvalue : y.value ≤ (2 ^ 53 - 1) * 2 ^ y.exponent :=
    mul_le_mul_of_nonneg_right (by linarith) hpow.le
  linarith

/-- A magnitude above another one is a unit above it. -/
theorem Canonical.add_unit_le {x y : Binary64} (hx : x.Canonical) (hy : y.Canonical)
    (h : x.value < y.value) : x.value + 2 ^ x.exponent ≤ y.value := by
  have hpow := pos_two_zpow x.exponent
  by_cases hexponent : x.exponent ≤ y.exponent
  · obtain ⟨k, hk⟩ := value_eq_mul hexponent
    rw [hk, value] at h ⊢
    have hlt : (x.significand : ℚ) < k := lt_of_mul_lt_mul_right h hpow.le
    have hsucc : (x.significand : ℚ) + 1 ≤ k := by exact_mod_cast hlt
    have := mul_le_mul_of_nonneg_right hsucc hpow.le
    linarith
  · have hbelow := hy.value_le (not_le.1 hexponent)
    have hleast := hy.least_le
    have hfull : bound / 2 ≤ x.significand := hx.full.resolve_left (by omega)
    have hsignificand : (2 : ℚ) ^ 52 ≤ x.significand := by exact_mod_cast hfull
    have hvalue : 2 ^ 52 * 2 ^ x.exponent ≤ x.value :=
      mul_le_mul_of_nonneg_right hsignificand hpow.le
    linarith

/-- A magnitude below another one is at most as near as the half way down says. -/
theorem Canonical.le_lowEnd {x y : Binary64} (hx : x.Canonical) (hy : y.Canonical)
    (h : y.value < x.value) : y.value + x.value ≤ 2 * x.lowEnd := by
  have hpow := pos_two_zpow x.exponent
  have hends : 2 * x.lowEnd = x.value + x.value - (if x.IsNarrow then 1 / 2 else 1)
      * 2 ^ x.exponent := by
    rw [lowEnd, value]
    split <;> ring
  rw [hends]
  by_cases hexponent : x.exponent ≤ y.exponent
  · obtain ⟨k, hk⟩ := value_eq_mul hexponent
    rw [hk] at h ⊢
    have hlt : (k : ℚ) < x.significand := lt_of_mul_lt_mul_right h hpow.le
    have hsucc : (k : ℚ) + 1 ≤ x.significand := by exact_mod_cast hlt
    have hunit : k * 2 ^ x.exponent + 2 ^ x.exponent ≤ x.value := by
      have := mul_le_mul_of_nonneg_right hsucc hpow.le
      rw [value]
      linarith
    split <;> linarith
  · have hbelow := hy.value_le (not_le.1 hexponent)
    have hleast := hy.least_le
    have hfull : bound / 2 ≤ x.significand := hx.full.resolve_left (by omega)
    split
    next hnarrow =>
      have hvalue : x.value = 2 ^ 52 * 2 ^ x.exponent := by
        rw [value, hnarrow.1, half_bound_eq]
        norm_num
      linarith
    next hwide =>
      have hne : x.significand ≠ bound / 2 := fun heq => hwide ⟨heq, by omega⟩
      have hsucc : bound / 2 + 1 ≤ x.significand := by omega
      have hsignificand : (2 : ℚ) ^ 52 + 1 ≤ x.significand := by exact_mod_cast hsucc
      have hvalue : (2 ^ 52 + 1) * 2 ^ x.exponent ≤ x.value :=
        mul_le_mul_of_nonneg_right hsignificand hpow.le
      linarith

/-- No magnitude is nearer to a number than the one that attracts it. -/
theorem Attracts.nearest {x y : Binary64} {q : ℚ} (h : x.Attracts q) (hx : x.Canonical)
    (hy : y.Canonical) : |x.value - q| ≤ |y.value - q| := by
  have hpow := pos_two_zpow x.exponent
  have hlow := h.low_le
  have hhigh := h.le_high
  have hends : x.highEnd = x.value + 1 / 2 * 2 ^ x.exponent := by
    rw [highEnd, value]
    ring
  have hhalf : x.value - 1 / 2 * 2 ^ x.exponent ≤ q := by
    have := h.within.low_le
    rw [value]
    linarith
  rw [hends] at hhigh
  rcases lt_trichotomy x.value y.value with hlt | heq | hgt
  · have hunit := hx.add_unit_le hy hlt
    rw [abs_of_nonneg (a := y.value - q) (by linarith), abs_le]
    constructor <;> linarith
  · rw [heq]
  · have hdown := hx.le_lowEnd hy hgt
    rw [abs_of_nonpos (a := y.value - q) (by linarith), abs_le]
    constructor <;> linarith

end OffsetService.Binary64
