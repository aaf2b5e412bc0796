import Mathlib.Data.List.TakeWhile
import Mathlib.Data.Nat.Digits.Defs
import OffsetService.Json.Reader
import OffsetService.Json.Render

/-!
# Whole numbers, written and read

A whole number is written in decimal digits without leading zeros, behind a minus sign when it is
below zero. The reader takes exactly these characters off the front of a text, unless what follows
could go on with the number (`Ends` rules this out), collects the digits without dropping one, and has
the number again (`number_natural`, `number_negative`).
-/

namespace OffsetService.Json

/-! ## What may follow -/

/-- What may stand behind a value: nothing, a comma or a closing mark. -/
def Delimits (rest : List Char) : Prop :=
  ∀ c, rest.head? = some c → c = ',' ∨ c = ']' ∨ c = '}'

theorem delimits_nil : Delimits [] := fun c h => by cases h

theorem delimits_cons {c : Char} {rest : List Char} (h : c = ',' ∨ c = ']' ∨ c = '}') :
    Delimits (c :: rest) := fun _ hc => Option.some.inj hc ▸ h

/-- What cannot go on with a number that ends before it. -/
def Ends (rest : List Char) : Prop :=
  ∀ c, rest.head? = some c → isDigit c = false ∧ c ≠ '.' ∧ c ≠ 'e' ∧ c ≠ 'E'

theorem Delimits.ends {rest : List Char} (h : Delimits rest) : Ends rest := by
  intro c hc
  rcases h c hc with rfl | rfl | rfl <;> decide

/-! ## Runs of characters -/

/-- A text is its longest front of such characters and what follows. -/
theorem exists_longest (p : Char → Bool) (text : List Char) :
    ∃ front rest, text = front ++ rest ∧ (∀ c ∈ front, p c = true) ∧
      ∀ c, rest.head? = some c → p c = false := by
  refine ⟨text.takeWhile p, text.dropWhile p, List.takeWhile_append_dropWhile.symm,
    fun c => List.mem_takeWhile_imp, fun c hc => ?_⟩
  have hhead := List.head?_dropWhile_not p text
  rwa [hc] at hhead

section Longest

variable {p : Char → Bool} {front rest : List Char}

theorem takeWhile_eq_longest (hfront : ∀ c ∈ front, p c = true)
    (hrest : ∀ c, rest.head? = some c → p c = false) : (front ++ rest).takeWhile p = front := by
  have hend : rest.takeWhile p = [] := by
    cases rest with
    | nil => rfl
    | cons c more => exact List.takeWhile_cons_of_neg (by simp [hrest c rfl])
  rw [List.takeWhile_append_of_pos hfront, hend, List.append_nil]

theorem dropWhile_eq_longest (hfront : ∀ c ∈ front, p c = true)
    (hrest : ∀ c, rest.head? = some c → p c = false) : (front ++ rest).dropWhile p = rest := by
  rw [List.dropWhile_append_of_pos hfront]
  cases rest with
  | nil => rfl
  | cons c more => exact List.dropWhile_cons_of_neg (by simp [hrest c rfl])

end Longest

/-! ## Digits -/

theorem digitValue_digitChar : ∀ d < 10, digitValue (Nat.digitChar d) = d := by decide

theorem isDigit_of_mem_toDigits {n : Nat} {c : Char} (h : c ∈ Nat.toDigits 10 n) :
    isDigit c = true := by
  have hdigit := Nat.isDigit_of_mem_toDigits (by decide) (by decide) h
  simpa [isDigit, Char.isDigit, Char.le_def] using hdigit

theorem head?_toDigits_ne {n : Nat} (h : 0 < n) : (Nat.toDigits 10 n).head? ≠ some '0' := by
  induction n using Nat.strongRecOn with
  | _ n ih =>
    rw [Nat.toDigits_eq_if (by decide)]
    split
    next hlt =>
      have hall : ∀ d < 10, 0 < d → [Nat.digitChar d].head? ≠ some '0' := by decide
      exact hall n hlt h
    next hge =>
      rw [List.head?_append, List.head?_eq_some_head Nat.toDigits_ne_nil, Option.some_or,
        ← List.head?_eq_some_head]
      exact ih (n / 10) (by omega) (by omega)

/-- The digits of a number of 64 bits are collected to this number, and none is dropped. -/
theorem collect_toDigits {n : Nat} (h : n < 1 <<< 64) :
    collect 0 (Nat.toDigits 10 n) = ⟨n, (Nat.toDigits 10 n).length, 0⟩ := by
  have hpush : ∀ (m d taken : Nat), d < 10 → 10 * m + d < 1 <<< 64 →
      Collected.push ⟨m, taken, 0⟩ (Nat.digitChar d) = ⟨10 * m + d, taken + 1, 0⟩ := by
    intro m d taken hd hbound
    rw [Collected.push, digitValue_digitChar d hd]
    exact if_pos ⟨rfl, hbound⟩
  induction n using Nat.strongRecOn with
  | _ n ih =>
    rw [Nat.toDigits_eq_if (by decide)]
    split
    next hlt => simpa [collect] using hpush 0 n 0 hlt (by simpa using h)
    next hge =>
      have hfront := ih (n / 10) (by omega) (by omega)
      have hsplit : 10 * (n / 10) + n % 10 = n := by omega
      rw [collect] at hfront ⊢
      rw [List.foldl_append, hfront, List.foldl_cons, List.foldl_nil,
        hpush _ _ _ (by omega) (hsplit.symm ▸ h), hsplit, List.length_append]
      rfl

/-! ## Texts of numbers -/

/-- The longest run of digits is taken, and it must not be empty. -/
theorem takeDigits_eq_ok_iff {text digits rest : List Char} :
    takeDigits text = .ok (digits, rest) ↔ text = digits ++ rest ∧ digits ≠ [] ∧
      (∀ c ∈ digits, isDigit c = true) ∧ ∀ c, rest.head? = some c → isDigit c = false := by
  have hlongest : ∀ {front rest : List Char}, (∀ c ∈ front, isDigit c = true) →
      (∀ c, rest.head? = some c → isDigit c = false) →
        takeDigits (front ++ rest)
          = if front = [] then .error .malformed else .ok (front, rest) := by
    intro front rest hfront hrest
    rw [takeDigits, takeWhile_eq_longest hfront hrest, List.drop_left]
    simp [List.isEmpty_iff]
  constructor
  · intro h
    obtain ⟨front, rest, rfl, hfront, hrest⟩ := exists_longest isDigit text
    rw [hlongest hfront hrest] at h
    split at h
    next => cases h
    next hne =>
      cases h
      exact ⟨rfl, hne, hfront, hrest⟩
  · rintro ⟨rfl, hne, hdigits, hrest⟩
    rw [hlongest hdigits hrest, if_neg hne]

theorem takeDigits_toDigits (n : Nat) {rest : List Char} (h : Ends rest) :
    takeDigits (Nat.toDigits 10 n ++ rest) = .ok (Nat.toDigits 10 n, rest) :=
  takeDigits_eq_ok_iff.2 ⟨rfl, Nat.toDigits_ne_nil, fun _ hc => isDigit_of_mem_toDigits hc,
    fun c hc => (h c hc).1⟩

theorem takeFraction_of_ne {rest : List Char} (h : ∀ c, rest.head? = some c → c ≠ '.') :
    takeFraction rest = .ok (none, rest) := by
  rw [takeFraction]
  rintro more rfl
  exact h '.' rfl rfl

theorem takeExponent_of_ends {rest : List Char} (h : Ends rest) :
    takeExponent rest = .ok (none, rest) := by
  cases rest with
  | nil => rfl
  | cons c more =>
    obtain ⟨-, -, hlower, hupper⟩ := h c rfl
    exact if_neg (not_or.2 ⟨hlower, hupper⟩)

/-- Only the digits of zero begin with a zero. -/
theorem not_leadingZero_toDigits (n : Nat) :
    ¬((Nat.toDigits 10 n).head? = some '0' ∧ 1 < (Nat.toDigits 10 n).length) := by
  rcases Nat.eq_zero_or_pos n with rfl | hpos
  · decide
  · exact fun h => head?_toDigits_ne hpos h.1

theorem takeSign_toDigits (n : Nat) (rest : List Char) :
    takeSign (Nat.toDigits 10 n ++ rest) = (false, Nat.toDigits 10 n ++ rest) := by
  obtain ⟨c, digits, hdigits⟩ := List.exists_cons_of_ne_nil (Nat.toDigits_ne_nil (n := n) (b := 10))
  rw [takeSign]
  intro more heq
  rw [hdigits, List.cons_append, List.cons.injEq] at heq
  have hc : isDigit c = true := isDigit_of_mem_toDigits (hdigits ▸ List.mem_cons_self)
  rw [heq.1] at hc
  exact absurd hc (by decide)

/-- The digits of a whole number are taken off behind a sign. -/
theorem takeNumber_of_takeSign {text : List Char} {isNegative : Bool} {n : Nat} {rest : List Char}
    (hsign : takeSign text = (isNegative, Nat.toDigits 10 n ++ rest)) (h : Ends rest) :
    takeNumber text = .ok (⟨isNegative, Nat.toDigits 10 n, none, none⟩, rest) := by
  unfold takeNumber
  rw [hsign]
  simp only [takeDigits_toDigits n h, bind, Except.bind, if_neg (not_leadingZero_toDigits n),
    takeFraction_of_ne fun c hc => (h c hc).2.1, takeExponent_of_ends h]
  rfl

/-! ## Reading -/

theorem renderNumber_natural (n : UInt64) :
    renderNumber (.natural n) = Nat.toDigits 10 n.toNat := by
  rw [renderNumber, Nat.toString_eq_ofList_toDigits, String.toList_ofList]

theorem renderNumber_negative {n : Int64} (h : n < 0) :
    renderNumber (.negative n) = '-' :: Nat.toDigits 10 n.toInt.natAbs := by
  obtain ⟨k, hk⟩ := Int.eq_negSucc_of_lt_zero (Int64.lt_iff_toInt_lt.1 h)
  rw [renderNumber, hk]
  show ("-" ++ Nat.repr (k + 1)).toList = _
  simp [Nat.repr_eq_ofList_toDigits]

theorem value_natural (n : UInt64) :
    NumberText.value ⟨false, Nat.toDigits 10 n.toNat, none, none⟩ = .ok (.natural n) := by
  simp [NumberText.value, collect_toDigits n.toNat_lt]

theorem value_negative {n : Int64} (h : n < 0) :
    NumberText.value ⟨true, Nat.toDigits 10 n.toInt.natAbs, none, none⟩ = .ok (.negative n) := by
  have hlt : n.toInt < 0 := Int64.lt_iff_toInt_lt.1 h
  have hle : -2 ^ 63 ≤ n.toInt := Int64.le_toInt n
  have hbound : ¬(n.toInt.natAbs = 0 ∨ 1 <<< 63 < n.toInt.natAbs) := by omega
  have habs : -(n.toInt.natAbs : Int) = n.toInt := by omega
  simp only [NumberText.value, collect_toDigits (n := n.toInt.natAbs) (by omega), Nat.lt_irrefl,
    if_false, Bool.not_true, Bool.false_eq_true, if_neg hbound, habs, Int64.ofInt_toInt]

namespace Reader

theorem number_natural (n : UInt64) {rest : List Char} (h : Delimits rest) :
    number (renderNumber (.natural n) ++ rest) = .ok (.natural n, rest) := by
  rw [renderNumber_natural, number, takeNumber_of_takeSign (takeSign_toDigits n.toNat rest) h.ends]
  dsimp only
  rw [value_natural]

theorem number_negative {n : Int64} (hn : n < 0) {rest : List Char} (h : Delimits rest) :
    number (renderNumber (.negative n) ++ rest) = .ok (.negative n, rest) := by
  have hsign : takeSign ('-' :: Nat.toDigits 10 n.toInt.natAbs ++ rest)
      = (true, Nat.toDigits 10 n.toInt.natAbs ++ rest) := rfl
  rw [renderNumber_negative hn, number, takeNumber_of_takeSign hsign h.ends]
  dsimp only
  rw [value_negative hn]

end Reader

end OffsetService.Json
