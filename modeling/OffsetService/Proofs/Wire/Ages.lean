import OffsetService.Proofs.Digits
import OffsetService.Proofs.Json.Numbers
import OffsetService.Wire.Age

/-!
# How an age may be written

An age is a whole number below `ageBound`, as a number or as a text of its digits. In a text, `0x` or
`0X` announces digits of base sixteen, one plus sign may stand before the digits, zeros may lead, and
white space may stand at both ends (`SpellsAge`). Each of these spellings is read as the number
(`ageOf_of_spellsAge`).
-/

namespace OffsetService.Wire

open Json

/-- What stands before the digits of a base. -/
inductive MarksBase : List Char → Nat → Prop where
  | decimal : MarksBase [] 10
  | lower : MarksBase ['0', 'x'] 16
  | upper : MarksBase ['0', 'X'] 16

/-- The spellings of an age. -/
inductive SpellsAge : Value → Nat → Prop where
  | number {n : UInt64} (hbound : n.toNat < ageBound) : SpellsAge (.number (.natural n)) n.toNat
  | text {s : String} {front mark sign digits behind : List Char} {base n : Nat}
    (htext : s.toList = front ++ (mark ++ (sign ++ digits)) ++ behind)
    (hfront : ∀ c ∈ front, Blank.isBlank c = true) (hbehind : ∀ c ∈ behind, Blank.isBlank c = true)
    (hmark : MarksBase mark base) (hsign : sign = [] ∨ sign = ['+'])
    (hdigits : Digits.read? base digits = some n) (hbound : n < ageBound) : SpellsAge (.text s) n

/-! ## Digits -/

section Digits

variable {base n : Nat} {digits : List Char}

theorem isBlank_of_value? {c : Char} (h : (Digits.value? base c).isSome = true) :
    Blank.isBlank c = false := by
  have h : (Hex.value? c).isSome = true := by
    unfold Digits.value? at h
    cases hvalue : Hex.value? c with
    | none => simp [hvalue] at h
    | some d => rfl
  have hle : ∀ a b : Char, a ≤ b ↔ a.toNat ≤ b.toNat := fun a b => UInt32.le_iff_toNat_le
  have hrange : 48 ≤ c.toNat ∧ c.toNat ≤ 57 ∨ 97 ≤ c.toNat ∧ c.toNat ≤ 102 ∨
      65 ≤ c.toNat ∧ c.toNat ≤ 70 := by
    unfold Hex.value? at h
    simp only [hle] at h
    split at h
    next hc => exact .inl hc
    next =>
      split at h
      next hc => exact .inr (.inl hc)
      next =>
        split at h
        next hc => exact .inr (.inr hc)
        next => cases h
  simp only [Blank.isBlank, Bool.or_eq_false_iff, Bool.and_eq_false_iff, decide_eq_false_iff_not,
    beq_eq_false_iff_ne]
  omega

/-- More digits make no smaller number. -/
theorem le_of_readFrom (hbase : 0 < base) {before : Nat}
    (h : Digits.readFrom base before digits = some n) : before ≤ n := by
  induction digits generalizing before with
  | nil =>
    cases h
    exact Nat.le_refl _
  | cons c rest ih =>
    rw [Digits.readFrom] at h
    split at h
    next digit _ =>
      have hle : before ≤ base * before := Nat.le_mul_of_pos_left before hbase
      have hnext := ih h
      omega
    next => cases h

theorem digitsFrom_of_readFrom (hbase : 0 < base) {before : Nat}
    (h : Digits.readFrom base before digits = some n) (hn : n < ageBound) :
    digitsFrom base before digits = .ok n := by
  induction digits generalizing before with
  | nil =>
    cases h
    rfl
  | cons c rest ih =>
    rw [Digits.readFrom] at h
    split at h
    next digit hdigit =>
      rw [digitsFrom, hdigit]
      have hbound : base * before + digit < ageBound :=
        Nat.lt_of_le_of_lt (le_of_readFrom hbase h) hn
      exact (if_pos hbound).trans (ih h)
    next => cases h

theorem ne_plus_of_value? {c : Char} (h : (Digits.value? base c).isSome = true) : c ≠ '+' := by
  rintro rfl
  simp [Digits.value?, Hex.value?] at h

/-- Digits are read as their number, behind a plus sign or not. -/
theorem unsigned_of_read? (hbase : 0 < base) {sign : List Char} (hsign : sign = [] ∨ sign = ['+'])
    (h : Digits.read? base digits = some n) (hn : n < ageBound) :
    unsigned base (sign ++ digits) = .ok n := by
  obtain ⟨hne, hread⟩ := Digits.readFrom_of_read? h
  have hdigits := digitsFrom_of_readFrom hbase hread hn
  obtain ⟨c, rest, rfl⟩ := List.exists_cons_of_ne_nil hne
  rcases hsign with rfl | rfl
  · have hplus := ne_plus_of_value? (Digits.isSome_value?_of_readFrom hread c List.mem_cons_self)
    rw [List.nil_append, unsigned]
    · exact hdigits
    · simp
    · simp [hplus]
    · simp [hplus]
  · exact hdigits

end Digits

/-! ## Texts -/

/-- White space at both ends is taken off. -/
theorem trim_of_ends {front core behind : List Char} (hne : core ≠ [])
    (hfront : ∀ c ∈ front, Blank.isBlank c = true) (hbehind : ∀ c ∈ behind, Blank.isBlank c = true)
    (hfirst : ∀ c, core.head? = some c → Blank.isBlank c = false)
    (hlast : ∀ c, core.getLast? = some c → Blank.isBlank c = false) :
    Blank.trim (front ++ core ++ behind) = core := by
  have hhead : ∀ c, (core ++ behind).head? = some c → Blank.isBlank c = false := by
    obtain ⟨first, more, rfl⟩ := List.exists_cons_of_ne_nil hne
    exact hfirst
  have hrest : ∀ c ∈ behind.reverse, Blank.isBlank c = true := by simpa using hbehind
  rw [Blank.trim, List.append_assoc, dropWhile_eq_longest hfront hhead, List.reverse_append,
    dropWhile_eq_longest hrest (by simpa [List.head?_reverse] using hlast), List.reverse_reverse]

/-- A text of spelled digits is read as their number. -/
theorem ageOfText_of_read? {text front mark sign digits behind : List Char} {base n : Nat}
    (htext : text = front ++ (mark ++ (sign ++ digits)) ++ behind)
    (hfront : ∀ c ∈ front, Blank.isBlank c = true) (hbehind : ∀ c ∈ behind, Blank.isBlank c = true)
    (hmark : MarksBase mark base) (hsign : sign = [] ∨ sign = ['+'])
    (hdigits : Digits.read? base digits = some n) (hbound : n < ageBound) :
    ageOfText text = .ok n := by
  obtain ⟨hne, hread⟩ := Digits.readFrom_of_read? hdigits
  have hdigit := Digits.isSome_value?_of_readFrom hread
  have htrim : Blank.trim text = mark ++ (sign ++ digits) := by
    rw [htext]
    refine trim_of_ends (by simp [hne]) hfront hbehind ?_ ?_
    · obtain ⟨c, rest, rfl⟩ := List.exists_cons_of_ne_nil hne
      have hc : Blank.isBlank c = false := isBlank_of_value? (hdigit c List.mem_cons_self)
      intro d hd
      cases hmark <;> rcases hsign with rfl | rfl <;> cases hd <;> first | exact hc | decide
    · intro c hc
      rw [List.getLast?_append, List.getLast?_append, List.getLast?_eq_some_getLast hne,
        Option.some_or, Option.some_or] at hc
      cases hc
      exact isBlank_of_value? (hdigit _ (List.getLast_mem hne))
  have hbase : 0 < base := by cases hmark <;> decide
  have hunsigned : unsigned base (sign ++ digits) = .ok n :=
    unsigned_of_read? hbase hsign hdigits hbound
  unfold ageOfText
  rw [htrim]
  cases hmark with
  | lower => exact hunsigned
  | upper => exact hunsigned
  | decimal =>
    -- A second character that marks base sixteen would be no decimal digit.
    have hsecond : ∀ x rest, x = 'x' ∨ x = 'X' → [] ++ (sign ++ digits) ≠ '0' :: x :: rest := by
      rintro x rest hx heq
      rcases hsign with rfl | rfl
      · have hmem : x ∈ digits := by
          rw [List.nil_append, List.nil_append] at heq
          simp [heq]
        have hdecimal := hdigit x hmem
        rcases hx with rfl | rfl <;> exact absurd hdecimal (by decide)
      · cases heq
    split
    next heq => exact absurd heq (hsecond _ _ (.inl rfl))
    next heq => exact absurd heq (hsecond _ _ (.inr rfl))
    next => exact hunsigned

/-- Every spelling of an age is read as the age. -/
theorem ageOf_of_spellsAge {v : Value} {n : Nat} (h : SpellsAge v n) :
    ageOf v = .ok n.toUInt32 := by
  cases h with
  | number hbound => exact if_pos hbound
  | text htext hfront hbehind hmark hsign hdigits hbound =>
    rw [ageOf, ageOfText_of_read? htext hfront hbehind hmark hsign hdigits hbound]
    rfl

end OffsetService.Wire
