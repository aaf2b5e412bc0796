import OffsetService.Decimal.Shortest
import OffsetService.Proofs.Decimal.Nearest
import OffsetService.Proofs.Digits

/-!
# Shortest decimals are read back

A decimal spells a magnitude when it is rounded to it (`Spells`). The decimal that is found for a
magnitude spells it (`spells_ofBinary64`), none of fewer digits does (`digits_le_of_spells`), and
none with the same last place is nearer to it (`nearest_of_spells`).

Seventeen digits are always enough: neighbours on that grid are nearer to each other than the ends
of what the magnitude attracts (`step_lt_ends`), so one of them is inside (`exists_onGrid`). On a
grid where neither neighbour of the magnitude is inside nothing else is (`not_inside_of_onGrid`),
and what spells the magnitude in fewer digits lies on the grid of so many digits, or the power of
ten below the magnitude is attracted too (`exists_attracted`).
-/

namespace OffsetService.Decimal

open Binary64 (Within)

/-- The number `digits * 10 ^ exponent`. -/
def value (x : Decimal) : ℚ := x.digits * 10 ^ x.exponent

/-- Every quotient that is this number is rounded to the magnitude. -/
def Spells (d : Decimal) (x : Binary64) : Prop :=
  ∀ num den : ℕ, 0 < den → (num : ℚ) / den = d.value → Binary64.nearest num den = some x

theorem pos_ten_zpow (e : ℤ) : (0 : ℚ) < 10 ^ e := zpow_pos (by norm_num) e

theorem ten_zpow_succ (e : ℤ) : (10 : ℚ) ^ (e + 1) = 10 * 10 ^ e := by
  rw [zpow_add_one₀ (by norm_num), mul_comm]

theorem exists_quotient (d : Decimal) : ∃ num den : ℕ, 0 < den ∧ (num : ℚ) / den = d.value := by
  rcases le_or_gt 0 d.exponent with h | h
  · refine ⟨d.digits * 10 ^ d.exponent.toNat, 1, Nat.one_pos, ?_⟩
    rw [Nat.cast_mul, ← Binary64.zpow_toNat 10 h, Nat.cast_one, div_one]
    rfl
  · refine ⟨d.digits, 10 ^ (-d.exponent).toNat, Nat.pow_pos (by decide), ?_⟩
    rw [← Binary64.zpow_toNat 10 (by omega), zpow_neg, div_inv_eq_mul]
    rfl

theorem spells_iff {d : Decimal} {x : Binary64} :
    d.Spells x ↔ x.Canonical ∧ x.Attracts d.value := by
  constructor
  · intro h
    obtain ⟨num, den, hden, hvalue⟩ := exists_quotient d
    rw [← hvalue]
    exact (Binary64.nearest_eq_some_iff hden).1 (h num den hden hvalue)
  · rintro ⟨hx, h⟩ num den hden hvalue
    rw [← hvalue] at h
    exact (Binary64.nearest_eq_some_iff hden).2 ⟨hx, h⟩

theorem shift_spec {den : ℕ} (hden : 0 < den) (num : ℕ) (e : ℤ) :
    0 < (shift num den e).2 ∧
      ((shift num den e).1 : ℚ) * 10 ^ e / (shift num den e).2 = (num : ℚ) / den :=
  Binary64.divided_spec (by decide) hden e rfl

/-- The denominator does not depend on the numerator. -/
theorem shift_snd (num other den : ℕ) (e : ℤ) : (shift num den e).2 = (shift other den e).2 := by
  unfold shift
  split <;> rfl

/-! ## The first place -/

theorem le_quotient_iff {num den n : ℕ} (hden : 0 < den) :
    (10 : ℚ) ^ (-(n : ℤ)) ≤ (num : ℚ) / den ↔ den ≤ num * 10 ^ n := by
  have hq : (0 : ℚ) < den := by exact_mod_cast hden
  have hpow : (0 : ℚ) < 10 ^ n := by positivity
  rw [zpow_neg, zpow_natCast, le_div_iff₀ hq, inv_mul_le_iff₀ hpow, mul_comm]
  exact_mod_cast Iff.rfl

theorem quotient_lt_iff {num den n : ℕ} (hden : 0 < den) :
    (num : ℚ) / den < 10 ^ n ↔ num < 10 ^ n * den := by
  have hq : (0 : ℚ) < den := by exact_mod_cast hden
  rw [div_lt_iff₀ hq]
  exact_mod_cast Iff.rfl

theorem firstPlace_spec {num den : ℕ} (hnum : 0 < num) (hden : 0 < den) :
    10 ^ firstPlace num den ≤ (num : ℚ) / den ∧
      (num : ℚ) / den < 10 ^ (firstPlace num den + 1) := by
  have hq : (0 : ℚ) < den := by exact_mod_cast hden
  unfold firstPlace
  split
  next hle =>
    obtain ⟨k, hlength, hlow, hhigh⟩ := Digits.exists_length_toDigits (by decide : 1 < 10)
      (Nat.div_pos hle hden)
    have hplace : ((k + 1 : ℕ) : ℤ) - 1 = (k : ℤ) := by omega
    rw [Nat.le_div_iff_mul_le hden] at hlow
    rw [Nat.div_lt_iff_lt_mul hden] at hhigh
    rw [hlength, hplace, ← Nat.cast_succ, zpow_natCast, zpow_natCast, quotient_lt_iff hden, le_div_iff₀ hq]
    exact ⟨by exact_mod_cast hlow, hhigh⟩
  next hlt =>
    obtain ⟨k, hlength, hlow, hhigh⟩ := Digits.exists_length_toDigits (by decide : 1 < 10)
      (Nat.div_pos (le_of_lt (not_le.1 hlt)) hnum)
    dsimp only
    rw [hlength, Nat.add_sub_cancel]
    rw [Nat.le_div_iff_mul_le hnum, mul_comm] at hlow
    rw [Nat.div_lt_iff_lt_mul hnum, mul_comm] at hhigh
    have hpow : (0 : ℚ) < 10 ^ k := by positivity
    split
    next hreached =>
      refine ⟨(le_quotient_iff hden).2 hreached, ?_⟩
      have hupper : (num : ℚ) / den ≤ 10 ^ (-(k : ℤ)) := by
        rw [zpow_neg, zpow_natCast, div_le_iff₀ hq, inv_mul_eq_div, le_div_iff₀ hpow]
        exact_mod_cast hlow
      have := pos_ten_zpow (-(k : ℤ))
      rw [ten_zpow_succ]
      linarith
    next hmissed =>
      have hplace : -(k : ℤ) - 1 = -((k + 1 : ℕ) : ℤ) := by omega
      refine ⟨?_, ?_⟩
      · rw [hplace]
        exact (le_quotient_iff hden).2 (le_of_lt hhigh)
      · rw [sub_add_cancel]
        exact not_le.1 fun hle => hmissed ((le_quotient_iff hden).1 hle)

/-! ## Grids -/

theorem within_up {isClosed : Prop} {low q r high : ℚ} (h : Within isClosed low q high)
    (hle : q ≤ r) (hlt : r < high) : Within isClosed low r high :=
  ⟨le_trans h.low_le hle, hlt.le, h.inside.imp_right fun hinside =>
    ⟨lt_of_lt_of_le hinside.1 hle, hlt⟩⟩

theorem within_down {isClosed : Prop} {low q r high : ℚ} (h : Within isClosed low q high)
    (hle : r ≤ q) (hlt : low < r) : Within isClosed low r high :=
  ⟨hlt.le, le_trans hle h.le_high, h.inside.imp_right fun hinside =>
    ⟨hlt, lt_of_le_of_lt hle hinside.2⟩⟩

/-- A number on the grid is between the ends. -/
def Inside (low high den : ℕ) (isClosed : Bool) (e : ℤ) (n : ℕ) : Prop :=
  Within (isClosed = true) ((low : ℚ) / den) (n * 10 ^ e) ((high : ℚ) / den)

/-- The two numbers on the grid that are next to a value. -/
structure Neighbours (q : ℚ) (e : ℤ) (nearer farther : ℕ) : Prop where
  around : farther = nearer + 1 ∧ nearer * 10 ^ e ≤ q ∧ q < farther * 10 ^ e ∨
    nearer = farther + 1 ∧ farther * 10 ^ e ≤ q ∧ q < nearer * 10 ^ e
  nearer_le : |nearer * 10 ^ e - q| ≤ |farther * 10 ^ e - q|

theorem neighbours_of_le {q : ℚ} {e : ℤ} {n : ℕ} (hlow : n * 10 ^ e ≤ q)
    (hhigh : q < (n + 1 : ℕ) * 10 ^ e) :
    (2 * q ≤ (2 * n + 1) * 10 ^ e → Neighbours q e n (n + 1)) ∧
      ((2 * n + 1) * 10 ^ e ≤ 2 * q → Neighbours q e (n + 1) n) := by
  have hlow' := abs_of_nonpos (sub_nonpos.2 hlow)
  have hhigh' := abs_of_pos (sub_pos.2 hhigh)
  constructor
  · intro h
    refine ⟨.inl ⟨rfl, hlow, hhigh⟩, ?_⟩
    rw [hlow', hhigh']
    push_cast
    linarith
  · intro h
    refine ⟨.inr ⟨rfl, hlow, hhigh⟩, ?_⟩
    rw [hlow', hhigh']
    push_cast
    linarith

/-- A number on the grid is between another one and a value. -/
def Between (q : ℚ) (e : ℤ) (far near : ℕ) : Prop :=
  far ≤ near ∧ near * 10 ^ e ≤ q ∨ near ≤ far ∧ q ≤ near * 10 ^ e

theorem Between.abs_le {q : ℚ} {e : ℤ} {far near : ℕ} (h : Between q e far near) :
    |near * 10 ^ e - q| ≤ |far * 10 ^ e - q| := by
  have hpow := pos_ten_zpow e
  rcases h with ⟨hle, hq⟩ | ⟨hle, hq⟩
  · have hcast : (far : ℚ) ≤ near := by exact_mod_cast hle
    have hunits := mul_le_mul_of_nonneg_right hcast hpow.le
    rw [abs_of_nonpos (by linarith), abs_of_nonpos (by linarith)]
    linarith
  · have hcast : (near : ℚ) ≤ far := by exact_mod_cast hle
    have hunits := mul_le_mul_of_nonneg_right hcast hpow.le
    rw [abs_of_nonneg (by linarith), abs_of_nonneg (by linarith)]
    linarith

/-- One of the neighbours is between a number on the grid and the value. -/
theorem Neighbours.between {q : ℚ} {e : ℤ} {nearer farther : ℕ} (h : Neighbours q e nearer farther)
    (n : ℕ) : Between q e n nearer ∨ Between q e n farther := by
  rcases h.around with ⟨rfl, hbelow, habove⟩ | ⟨rfl, hbelow, habove⟩
  · rcases Nat.lt_or_ge nearer n with hlt | hge
    · exact .inr (.inr ⟨hlt, habove.le⟩)
    · exact .inl (.inl ⟨hge, hbelow⟩)
  · rcases Nat.lt_or_ge farther n with hlt | hge
    · exact .inl (.inr ⟨hlt, habove.le⟩)
    · exact .inr (.inl ⟨hge, hbelow⟩)

section Grid

variable {low value high den : ℕ} {isClosed : Bool} {e : ℤ} (hden : 0 < den)

include hden

theorem shift_le_iff (num other n : ℕ) :
    (shift num den e).1 ≤ n * (shift other den e).2 ↔ (num : ℚ) / den ≤ n * 10 ^ e := by
  obtain ⟨hpos, hvalue⟩ := shift_spec hden num e
  have hq : (0 : ℚ) < (shift num den e).2 := by exact_mod_cast hpos
  have hcomm : (n : ℚ) * 10 ^ e * (shift num den e).2 = n * (shift num den e).2 * 10 ^ e := by ring
  rw [shift_snd other num, ← hvalue, div_le_iff₀ hq, hcomm, mul_le_mul_iff_left₀ (pos_ten_zpow e)]
  exact_mod_cast Iff.rfl

theorem le_shift_iff (num other n : ℕ) :
    n * (shift other den e).2 ≤ (shift num den e).1 ↔ n * 10 ^ e ≤ (num : ℚ) / den := by
  obtain ⟨hpos, hvalue⟩ := shift_spec hden num e
  have hq : (0 : ℚ) < (shift num den e).2 := by exact_mod_cast hpos
  have hcomm : (n : ℚ) * 10 ^ e * (shift num den e).2 = n * (shift num den e).2 * 10 ^ e := by ring
  rw [shift_snd other num, ← hvalue, le_div_iff₀ hq, hcomm, mul_le_mul_iff_left₀ (pos_ten_zpow e)]
  exact_mod_cast Iff.rfl

variable (low value high isClosed e) in
/-- The test for a number on the grid. -/
theorem inside_iff (n : ℕ) :
    (if isClosed then
        (shift low den e).1 ≤ n * (shift value den e).2
          && n * (shift value den e).2 ≤ (shift high den e).1
      else (shift low den e).1 < n * (shift value den e).2
          && n * (shift value den e).2 < (shift high den e).1) = true
      ↔ Within (isClosed = true) ((low : ℚ) / den) (n * 10 ^ e) ((high : ℚ) / den) := by
  have hlow := shift_le_iff (e := e) hden low value n
  have hhigh := le_shift_iff (e := e) hden high value n
  have hlow_lt := not_congr (le_shift_iff (e := e) hden low value n)
  have hhigh_lt := not_congr (shift_le_iff (e := e) hden high value n)
  rw [not_le, not_le] at hlow_lt hhigh_lt
  cases isClosed with
  | true =>
    simp only [if_true, Bool.and_eq_true, decide_eq_true_eq, hlow, hhigh]
    exact ⟨fun h => ⟨h.1, h.2, .inl trivial⟩, fun h => ⟨h.low_le, h.le_high⟩⟩
  | false =>
    simp only [Bool.false_eq_true, if_false, Bool.and_eq_true, decide_eq_true_eq, hlow_lt, hhigh_lt]
    exact ⟨fun h => ⟨h.1.le, h.2.le, .inr h⟩, fun h => h.inside.resolve_left id⟩

variable (value e) in
/-- The floor of a value on the grid, and how far the value is above it. -/
theorem neighbours_of_floor :
    let below := (shift value den e).1 / (shift value den e).2
    let twice := 2 * ((shift value den e).1 % (shift value den e).2)
    (twice ≤ (shift value den e).2 → Neighbours ((value : ℚ) / den) e below (below + 1)) ∧
      ((shift value den e).2 ≤ twice → Neighbours ((value : ℚ) / den) e (below + 1) below) := by
  obtain ⟨hpos, hvalue⟩ := shift_spec hden value e
  have hlow_iff := le_shift_iff (e := e) hden value value
  generalize (shift value den e).1 = v at *
  generalize (shift value den e).2 = d at *
  dsimp only
  have hq : (0 : ℚ) < d := by exact_mod_cast hpos
  have hpow := pos_ten_zpow e
  have hdivision := Nat.div_add_mod v d
  have hrest := Nat.mod_lt v hpos
  generalize v / d = below at *
  generalize v % d = rest at *
  have hproduct : (below + 1) * d = d * below + d := by ring
  have hlow : below * 10 ^ e ≤ (value : ℚ) / den := (hlow_iff below).1 (by rw [mul_comm]; omega)
  have hhigh : (value : ℚ) / den < (below + 1 : ℕ) * 10 ^ e :=
    not_le.1 fun hle => absurd ((hlow_iff (below + 1)).2 hle) (by omega)
  have hhalf : (2 * below + 1) * 10 ^ e - 2 * ((value : ℚ) / den)
      = 10 ^ e / d * ((d : ℚ) - 2 * rest) := by
    have hv : (v : ℚ) = d * below + rest := by exact_mod_cast hdivision.symm
    rw [← hvalue, hv]
    field_simp
    ring
  have hfactor : (0 : ℚ) < 10 ^ e / d := by positivity
  obtain ⟨hdown, hup⟩ := neighbours_of_le hlow hhigh
  constructor
  · intro h
    have hcast : (2 : ℚ) * rest ≤ d := by exact_mod_cast h
    refine hdown (sub_nonneg.1 ?_)
    rw [hhalf]
    exact mul_nonneg hfactor.le (by linarith)
  · intro h
    have hcast : (d : ℚ) ≤ 2 * rest := by exact_mod_cast h
    refine hup (sub_nonpos.1 ?_)
    rw [hhalf]
    exact mul_nonpos_of_nonneg_of_nonpos hfactor.le (by linarith)

variable (low value high isClosed e) in
/-- What is found on a grid is a neighbour of the value: the nearer one if that is inside. -/
theorem onGrid_cases : ∃ nearer farther, Neighbours ((value : ℚ) / den) e nearer farther ∧
    (onGrid low value high den isClosed e = some nearer ∧ Inside low high den isClosed e nearer ∨
      onGrid low value high den isClosed e = some farther ∧
        ¬Inside low high den isClosed e nearer ∧ Inside low high den isClosed e farther ∨
      onGrid low value high den isClosed e = none ∧
        ¬Inside low high den isClosed e nearer ∧ ¬Inside low high den isClosed e farther) := by
  have htest := inside_iff low value high isClosed e hden
  obtain ⟨hdown, hup⟩ := neighbours_of_floor value e hden
  unfold onGrid
  dsimp only at hdown hup ⊢
  generalize (shift value den e).1 / (shift value den e).2 = below at *
  generalize 2 * ((shift value den e).1 % (shift value den e).2) = twice at *
  obtain ⟨nearer, farther, hchoice, hneighbours⟩ : ∃ nearer farther,
      ((if (decide (twice < (shift value den e).2)
          || twice == (shift value den e).2 && below % 2 == 0) = true then below
        else below + 1) = nearer ∧ (if nearer = below then below + 1 else below) = farther) ∧
      Neighbours ((value : ℚ) / den) e nearer farther := by
    split
    next h =>
      refine ⟨below, below + 1, ⟨rfl, if_pos rfl⟩, hdown ?_⟩
      simp only [Bool.or_eq_true, Bool.and_eq_true, decide_eq_true_eq, beq_iff_eq] at h
      omega
    next h =>
      refine ⟨below + 1, below, ⟨rfl, if_neg (by omega)⟩, hup ?_⟩
      simp only [Bool.or_eq_true, decide_eq_true_eq] at h
      omega
  refine ⟨nearer, farther, hneighbours, ?_⟩
  rw [hchoice.1, hchoice.2]
  by_cases hnearer : Inside low high den isClosed e nearer
  · rw [if_pos ((htest nearer).2 hnearer)]
    exact .inl ⟨rfl, hnearer⟩
  · rw [if_neg fun h => hnearer ((htest nearer).1 h)]
    by_cases hfarther : Inside low high den isClosed e farther
    · rw [if_pos ((htest farther).2 hfarther)]
      exact .inr (.inl ⟨rfl, hnearer, hfarther⟩)
    · rw [if_neg fun h => hfarther ((htest farther).1 h)]
      exact .inr (.inr ⟨rfl, hnearer, hfarther⟩)

theorem inside_of_onGrid {n : ℕ} (h : onGrid low value high den isClosed e = some n) :
    Inside low high den isClosed e n ∧ n * 10 ^ e ≤ (value : ℚ) / den + 10 ^ e := by
  have hpow := pos_ten_zpow e
  obtain ⟨nearer, farther, hneighbours, hfound⟩ := onGrid_cases low value high isClosed e hden
  have hle : ∀ k, k = nearer ∨ k = farther → (k : ℚ) * 10 ^ e ≤ (value : ℚ) / den + 10 ^ e := by
    rcases hneighbours.around with ⟨rfl, hlow, hhigh⟩ | ⟨rfl, hlow, hhigh⟩
    all_goals
      rintro k (rfl | rfl)
      all_goals
        push_cast
        linarith
  rcases hfound with ⟨heq, hinside⟩ | ⟨heq, -, hinside⟩ | ⟨heq, -⟩
  · obtain rfl := Option.some.inj (h.symm.trans heq)
    exact ⟨hinside, hle _ (.inl rfl)⟩
  · obtain rfl := Option.some.inj (h.symm.trans heq)
    exact ⟨hinside, hle _ (.inr rfl)⟩
  · rw [h] at heq
    cases heq

variable (hlow : low < value) (hhigh : value < high)

include hlow hhigh

/-- What is between a number inside and the value is inside. -/
theorem inside_of_between {n k : ℕ} (h : Inside low high den isClosed e n)
    (hbetween : Between ((value : ℚ) / den) e n k) : Inside low high den isClosed e k := by
  have hq : (0 : ℚ) < den := by exact_mod_cast hden
  have hlow' : (low : ℚ) / den < (value : ℚ) / den :=
    div_lt_div_of_pos_right (by exact_mod_cast hlow) hq
  have hhigh' : (value : ℚ) / den < (high : ℚ) / den :=
    div_lt_div_of_pos_right (by exact_mod_cast hhigh) hq
  have hpow := pos_ten_zpow e
  rcases hbetween with ⟨hle, hbelow⟩ | ⟨hle, habove⟩
  · have hcast : (n : ℚ) ≤ k := by exact_mod_cast hle
    exact within_up h (mul_le_mul_of_nonneg_right hcast hpow.le) (lt_of_le_of_lt hbelow hhigh')
  · have hcast : (k : ℚ) ≤ n := by exact_mod_cast hle
    exact within_down h (mul_le_mul_of_nonneg_right hcast hpow.le) (lt_of_lt_of_le hlow' habove)

/-- Where neither neighbour is inside nothing on the grid is. -/
theorem not_inside_of_onGrid (h : onGrid low value high den isClosed e = none) (n : ℕ) :
    ¬Inside low high den isClosed e n := by
  intro hinside
  obtain ⟨nearer, farther, hneighbours, hfound⟩ := onGrid_cases low value high isClosed e hden
  rw [h] at hfound
  rcases hfound with ⟨heq, -⟩ | ⟨heq, -⟩ | ⟨-, hnearer, hfarther⟩
  · cases heq
  · cases heq
  · rcases hneighbours.between n with hbetween | hbetween
    · exact hnearer (inside_of_between hden hlow hhigh hinside hbetween)
    · exact hfarther (inside_of_between hden hlow hhigh hinside hbetween)

/-- What is found is as near to the value as anything inside that is on the grid. -/
theorem nearest_of_onGrid {n k : ℕ} (h : onGrid low value high den isClosed e = some n)
    (hk : Inside low high den isClosed e k) :
    |n * 10 ^ e - (value : ℚ) / den| ≤ |k * 10 ^ e - (value : ℚ) / den| := by
  obtain ⟨nearer, farther, hneighbours, hfound⟩ := onGrid_cases low value high isClosed e hden
  rw [h] at hfound
  rcases hfound with ⟨heq, -⟩ | ⟨heq, hnearer, -⟩ | ⟨heq, -⟩
  · obtain rfl := Option.some.inj heq
    rcases hneighbours.between k with hbetween | hbetween
    · exact hbetween.abs_le
    · exact le_trans hneighbours.nearer_le hbetween.abs_le
  · obtain rfl := Option.some.inj heq
    rcases hneighbours.between k with hbetween | hbetween
    · exact absurd (inside_of_between hden hlow hhigh hk hbetween) hnearer
    · exact hbetween.abs_le
  · cases heq

/-- On a grid that is finer than the ends are apart something is found. -/
theorem exists_onGrid (hfine : 10 ^ e < (high : ℚ) / den - (low : ℚ) / den) :
    ∃ n, onGrid low value high den isClosed e = some n := by
  have hq : (0 : ℚ) < den := by exact_mod_cast hden
  have hlow' : (low : ℚ) / den < (value : ℚ) / den :=
    div_lt_div_of_pos_right (by exact_mod_cast hlow) hq
  have hhigh' : (value : ℚ) / den < (high : ℚ) / den :=
    div_lt_div_of_pos_right (by exact_mod_cast hhigh) hq
  have hstrict : ∀ n : ℕ, ¬Inside low high den isClosed e n →
      ¬((low : ℚ) / den < n * 10 ^ e ∧ n * 10 ^ e < (high : ℚ) / den) :=
    fun n hout hin => hout ⟨hin.1.le, hin.2.le, .inr hin⟩
  obtain ⟨nearer, farther, hneighbours, hfound⟩ := onGrid_cases low value high isClosed e hden
  rcases hfound with ⟨heq, -⟩ | ⟨heq, -⟩ | ⟨-, hnearer, hfarther⟩
  · exact ⟨_, heq⟩
  · exact ⟨_, heq⟩
  · -- both neighbours are outside, so the ends are at most one step of the grid apart
    exfalso
    have hnearer := hstrict nearer hnearer
    have hfarther := hstrict farther hfarther
    rcases hneighbours.around with ⟨rfl, hbelow, habove⟩ | ⟨rfl, hbelow, habove⟩
    · have hdown := not_lt.1 fun hlt => hnearer ⟨hlt, lt_of_le_of_lt hbelow hhigh'⟩
      have hup := not_lt.1 fun hlt => hfarther ⟨hlow'.trans habove, hlt⟩
      push_cast at hup
      linarith
    · have hdown := not_lt.1 fun hlt => hfarther ⟨hlt, lt_of_le_of_lt hbelow hhigh'⟩
      have hup := not_lt.1 fun hlt => hnearer ⟨hlow'.trans habove, hlt⟩
      push_cast at hup
      linarith

end Grid

/-! ## The search -/

theorem searchGrids_eq {low value high den : ℕ} {isClosed : Bool} {place : ℤ}
    {fuel used k n : ℕ} (hused : used ≤ k) (hfuel : k < used + fuel)
    (hnone : ∀ j, used ≤ j → j < k → onGrid low value high den isClosed (place - j + 1) = none)
    (hsome : onGrid low value high den isClosed (place - k + 1) = some n) :
    searchGrids low value high den isClosed place fuel used = ⟨n, place - k + 1⟩ := by
  induction fuel generalizing used with
  | zero => omega
  | succ fuel ih =>
    rw [searchGrids]
    rcases Nat.eq_or_lt_of_le hused with rfl | hlt
    · rw [hsome]
    · rw [hnone used (Nat.le_refl _) hlt]
      exact ih hlt (by omega) fun j hj => hnone j (by omega)

/-- A quarter of the unit at an exponent, as a quotient. -/
theorem exists_quarter (e : ℤ) : ∃ unit den : ℕ,
    (if 2 ≤ e then (1 <<< (e - 2).toNat, 1) else (1, 1 <<< (2 - e).toNat)) = (unit, den) ∧
      0 < unit ∧ 0 < den ∧ (unit : ℚ) / den * 4 = 2 ^ e := by
  have hexponent : e - 2 + 1 + 1 = e := by omega
  have hquarter : (2 : ℚ) ^ e = 2 ^ (e - 2) * 4 := by
    conv_lhs => rw [← hexponent, Binary64.two_zpow_succ, Binary64.two_zpow_succ]
    ring
  split
  next h =>
    refine ⟨_, _, rfl, ?_, Nat.one_pos, ?_⟩
    · rw [Nat.one_shiftLeft]
      exact Nat.pow_pos (by decide)
    · rw [Nat.one_shiftLeft, ← Binary64.zpow_toNat 2 (by omega), Nat.cast_one, div_one]
      exact hquarter.symm
  next h =>
    refine ⟨_, _, rfl, Nat.one_pos, ?_, ?_⟩
    · rw [Nat.one_shiftLeft]
      exact Nat.pow_pos (by decide)
    · have hinverse : (2 : ℚ) ^ (2 - e) = (2 ^ (e - 2))⁻¹ := by
        rw [← zpow_neg, neg_sub]
      have hpow : ((2 : ℕ) : ℚ) ^ (2 - e) = 2 ^ (2 - e) := rfl
      rw [Nat.one_shiftLeft, ← Binary64.zpow_toNat 2 (by omega), hpow, hinverse, Nat.cast_one,
        one_div, inv_inv]
      exact hquarter.symm

/-- The ends of what a magnitude attracts, over one denominator. -/
theorem exists_ends {x : Binary64} (hx : x.significand ≠ 0) : ∃ low value high den : ℕ, 0 < den ∧
    low < value ∧ value < high ∧ (low : ℚ) / den = x.lowEnd ∧ (value : ℚ) / den = x.value ∧
    (high : ℚ) / den = x.highEnd ∧ ofBinary64 x
      = searchGrids low value high den (x.significand % 2 = 0) (firstPlace value den) 17 1 := by
  obtain ⟨unit, den, hparts, hunit, hden, hquarter⟩ := exists_quarter x.exponent
  have hq : (0 : ℚ) < den := by exact_mod_cast hden
  refine ⟨(if x.IsNarrow then 4 * x.significand - 1 else 4 * x.significand - 2) * unit,
    4 * x.significand * unit, (4 * x.significand + 2) * unit, den, hden, ?_, ?_, ?_, ?_, ?_, ?_⟩
  · refine Nat.mul_lt_mul_of_pos_right ?_ hunit
    split <;> omega
  · exact Nat.mul_lt_mul_of_pos_right (by omega) hunit
  · rw [Binary64.lowEnd, ← hquarter]
    split
    · rw [Nat.cast_mul, Nat.cast_sub (by omega)]
      push_cast
      ring
    · rw [Nat.cast_mul, Nat.cast_sub (by omega)]
      push_cast
      ring
  · rw [Binary64.value, ← hquarter]
    push_cast
    ring
  · rw [Binary64.highEnd, ← hquarter]
    push_cast
    ring
  · rw [ofBinary64, if_neg hx]
    dsimp only
    rw [hparts]
    rfl

/-- The grid of seventeen digits is finer than the ends of what a magnitude attracts. -/
theorem step_lt_ends {x : Binary64} (hx : x.Canonical) {place : ℤ} (h : 10 ^ place ≤ x.value) :
    10 ^ (place - (17 : ℕ) + 1) < x.highEnd - x.lowEnd := by
  have hpow := Binary64.pos_two_zpow x.exponent
  have hstep : (10 : ℚ) ^ (place - (17 : ℕ) + 1) * 10 ^ 16 = 10 ^ place := by
    rw [← zpow_natCast, ← zpow_add₀ (by norm_num)]
    congr 1
    push_cast
    ring
  have hsignificand : (x.significand : ℚ) < 2 ^ 53 := by exact_mod_cast hx.lt_bound
  rw [← hstep, Binary64.value] at h
  rw [Binary64.highEnd, Binary64.lowEnd]
  generalize (10 : ℚ) ^ (place - (17 : ℕ) + 1) = step at h ⊢
  split
  next hnarrow =>
    have hhalf : (x.significand : ℚ) = 2 ^ 52 := by
      rw [hnarrow.1, Binary64.half_bound_eq]
      norm_num
    rw [hhalf] at h ⊢
    linarith
  next =>
    have hunits := mul_lt_mul_of_pos_right hsignificand hpow
    linarith

/-- What is found for a magnitude: something that it attracts, on the first grid that has such. -/
structure Found (x : Binary64) (place : ℤ) (k : ℕ) (d : Decimal) : Prop where
  place_le : 10 ^ place ≤ x.value
  lt_place : x.value < 10 ^ (place + 1)
  exponent : d.exponent = place - k + 1
  attracts : x.Attracts d.value
  le_step : d.value ≤ x.value + 10 ^ d.exponent
  fewer : ∀ j, 1 ≤ j → j < k → ∀ n : ℕ, ¬x.Attracts (n * 10 ^ (place - j + 1))
  nearest : ∀ n : ℕ, x.Attracts (n * 10 ^ d.exponent) →
    |d.value - x.value| ≤ |n * 10 ^ d.exponent - x.value|

theorem found_ofBinary64 {x : Binary64} (hx : x.Canonical) (hm : x.significand ≠ 0) :
    ∃ place k, Found x place k (ofBinary64 x) := by
  obtain ⟨low, value, high, den, hden, hlow, hhigh, hlowEnd, hvalue, hhighEnd, heq⟩ :=
    exists_ends hm
  obtain ⟨hplace, hnext⟩ := firstPlace_spec (Nat.zero_lt_of_lt hlow) hden
  rw [hvalue] at hplace hnext
  rw [heq]
  generalize firstPlace value den = place at hplace hnext ⊢
  have hinside : ∀ e (n : ℕ), Inside low high den (x.significand % 2 = 0) e n
      ↔ x.Attracts (n * 10 ^ e) := by
    intro e n
    rw [Inside, hlowEnd, hhighEnd, decide_eq_true_eq]
    rfl
  have henough : ∃ k : ℕ, 1 ≤ k ∧ k ≤ 17 ∧ ∃ n,
      onGrid low value high den (x.significand % 2 = 0) (place - k + 1) = some n := by
    have hfine := step_lt_ends hx hplace
    rw [← hlowEnd, ← hhighEnd] at hfine
    exact ⟨17, by decide, by decide, exists_onGrid hden hlow hhigh hfine⟩
  classical
  obtain ⟨hone, hlast, n, hn⟩ := Nat.find_spec henough
  have hfirst : ∀ j, 1 ≤ j → j < Nat.find henough →
      onGrid low value high den (x.significand % 2 = 0) (place - j + 1) = none := by
    intro j hj hlt
    refine Option.eq_none_iff_forall_ne_some.2 fun i hi => ?_
    exact Nat.find_min henough hlt ⟨hj, by omega, i, hi⟩
  have hfound : searchGrids low value high den (x.significand % 2 = 0) place 17 1
      = ⟨n, place - Nat.find henough + 1⟩ := searchGrids_eq hone (by omega) hfirst hn
  obtain ⟨hin, hstep⟩ := inside_of_onGrid hden hn
  rw [hfound]
  refine ⟨place, Nat.find henough, hplace, hnext, rfl, (hinside _ _).1 hin, ?_, ?_, ?_⟩
  · rw [← hvalue]
    exact hstep
  · intro j hj hlt i hi
    exact not_inside_of_onGrid hden hlow hhigh (hfirst j hj hlt) i ((hinside _ _).2 hi)
  · intro i hi
    rw [← hvalue]
    exact nearest_of_onGrid hden hlow hhigh hn ((hinside _ _).2 hi)

/-! ## Shortest decimals -/

theorem ofBinary64_zero : ofBinary64 .zero = ⟨0, 0⟩ := rfl

theorem value_zero : value ⟨0, 0⟩ = 0 := by
  rw [value]
  simp

/-- The decimal of a magnitude is rounded to that magnitude. -/
theorem spells_ofBinary64 {x : Binary64} (hx : x.Canonical) : (ofBinary64 x).Spells x := by
  rw [spells_iff]
  by_cases hm : x.significand = 0
  · rw [hx.eq_zero hm, ofBinary64_zero, value_zero]
    exact ⟨Binary64.canonical_zero, Binary64.attracts_zero⟩
  · obtain ⟨place, k, hfound⟩ := found_ofBinary64 hx hm
    exact ⟨hx, hfound.attracts⟩

/-- What is attracted and has few digits is on the grid of so many digits, or the power of ten below
the magnitude is attracted too. -/
theorem exists_attracted {x : Binary64} {place : ℤ} {d : Decimal} {k : ℕ} (hk : 1 ≤ k)
    (hplace : 10 ^ place ≤ x.value) (h : x.Attracts d.value) (hdigits : d.digits < 10 ^ k) :
    ∃ n : ℕ, x.Attracts (n * 10 ^ (place - k + 1)) := by
  rcases le_or_gt (place - k + 1) d.exponent with hle | hlt
  · refine ⟨d.digits * 10 ^ (d.exponent - (place - k + 1)).toNat, ?_⟩
    have hvalue : ((d.digits * 10 ^ (d.exponent - (place - k + 1)).toNat : ℕ) : ℚ)
        * 10 ^ (place - k + 1) = d.value := by
      rw [Nat.cast_mul, ← Binary64.zpow_toNat 10 (by omega), value, mul_assoc, Nat.cast_ofNat,
        ← zpow_add₀ (by norm_num), sub_add_cancel]
    rw [hvalue]
    exact h
  · refine ⟨10 ^ (k - 1), ?_⟩
    have hpower : ((10 ^ (k - 1) : ℕ) : ℚ) * 10 ^ (place - k + 1) = 10 ^ place := by
      rw [Nat.cast_pow, Nat.cast_ofNat, ← zpow_natCast, ← zpow_add₀ (by norm_num)]
      congr 1
      omega
    have hbelow : d.value ≤ 10 ^ place := by
      have hcast : (d.digits : ℚ) ≤ 10 ^ k := by exact_mod_cast hdigits.le
      have hexponent : (10 : ℚ) ^ d.exponent ≤ 10 ^ (place - k) :=
        zpow_le_zpow_right₀ (by norm_num) (by omega)
      calc d.value ≤ 10 ^ k * 10 ^ (place - k) :=
            mul_le_mul hcast hexponent (pos_ten_zpow _).le (by positivity)
        _ = 10 ^ place := by
          rw [← zpow_natCast, ← zpow_add₀ (by norm_num)]
          congr 1
          omega
    have habove : x.value < x.highEnd := by
      have := Binary64.pos_two_zpow x.exponent
      rw [Binary64.highEnd, Binary64.value]
      linarith
    rw [hpower]
    exact within_up h hbelow (lt_of_le_of_lt hplace habove)

/-- On a grid of so many digits nothing has more. -/
theorem Found.digits_le {x : Binary64} {place : ℤ} {k : ℕ} {d : Decimal} (h : Found x place k d) :
    d.digits ≤ 10 ^ k := by
  have hpow := pos_ten_zpow d.exponent
  have hstep : (10 : ℚ) ^ (place + 1) = 10 ^ k * 10 ^ d.exponent := by
    rw [h.exponent, ← zpow_natCast, ← zpow_add₀ (by norm_num)]
    congr 1
    omega
  have hlt := h.lt_place
  have hle := h.le_step
  rw [hstep] at hlt
  rw [value] at hle
  have hcast : (d.digits : ℚ) < (10 ^ k + 1 : ℕ) := by
    refine lt_of_mul_lt_mul_right ?_ hpow.le
    push_cast
    linarith
  exact Nat.le_of_lt_succ (by exact_mod_cast hcast)

/-- No decimal of fewer digits is rounded to the magnitude. -/
theorem digits_le_of_spells {x : Binary64} {d : Decimal} (h : d.Spells x) {k : ℕ}
    (hk : d.digits < 10 ^ k) : (ofBinary64 x).digits ≤ 10 ^ k := by
  obtain ⟨hx, hattracts⟩ := spells_iff.1 h
  by_cases hm : x.significand = 0
  · rw [hx.eq_zero hm, ofBinary64_zero]
    exact Nat.zero_le _
  obtain ⟨place, count, hfound⟩ := found_ofBinary64 hx hm
  rcases Nat.lt_or_ge k count with hlt | hge
  · exfalso
    rcases Nat.eq_zero_or_pos k with rfl | hone
    · -- a decimal without digits is zero
      have hdigits : d.digits = 0 := by simpa using hk
      have hzero : d.value = 0 := by
        rw [value, hdigits]
        simp
      rw [hzero] at hattracts
      exact hm (congrArg Binary64.significand (hx.eq_zero_of_attracts hattracts))
    · obtain ⟨n, hn⟩ := exists_attracted hone hfound.place_le hattracts hk
      exact hfound.fewer k hone hlt n hn
  · exact le_trans hfound.digits_le (Nat.pow_le_pow_right (by decide) hge)

/-- Of the decimals with the same last place none that is rounded to the magnitude is nearer to
it. -/
theorem nearest_of_spells {x : Binary64} {d : Decimal} (h : d.Spells x)
    (hexponent : d.exponent = (ofBinary64 x).exponent) :
    |(ofBinary64 x).value - x.value| ≤ |d.value - x.value| := by
  obtain ⟨hx, hattracts⟩ := spells_iff.1 h
  by_cases hm : x.significand = 0
  · have hzero : Binary64.zero.value = 0 := by
      rw [Binary64.value, Binary64.zero]
      simp
    rw [hx.eq_zero hm, ofBinary64_zero, value_zero, hzero, sub_zero, abs_zero]
    exact abs_nonneg _
  · obtain ⟨place, k, hfound⟩ := found_ofBinary64 hx hm
    have hnearest := hfound.nearest d.digits
    rw [← hexponent] at hnearest
    exact hnearest hattracts

/-- The magnitude that one tenth is rounded to. -/
example : ofBinary64 ⟨7205759403792794, -56⟩ = ⟨1, -1⟩ := by decide +kernel

end OffsetService.Decimal
