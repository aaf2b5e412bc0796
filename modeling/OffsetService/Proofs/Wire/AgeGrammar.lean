import OffsetService.Proofs.Digits
import OffsetService.Proofs.Json.NumberEnds
import OffsetService.Proofs.Wire.Ages

/-!
# Ages are read from their spellings only

`ageOf` reads an age from exactly the spellings of `SpellsAge` (`ageOf_eq_ok_iff`): what it reads can
be taken apart into white space, a mark of the base, a sign and digits (`exists_parts_of_ageOfText`).
The number and the usual texts of an age are among its spellings, with digits in either case
(`ageOf_marked`), and of the numbers in a JSON text those are read that have digits only, neither a
sign nor a fraction nor an exponent (`ageOf_value_eq_ok_iff`).
-/

namespace OffsetService

namespace Wire

open Json

/-! ## Taking a text apart -/

/-- A text is what is left of it without the blanks at its ends, between blanks. -/
theorem exists_blanks_of_trim (text : List Char) :
    ∃ front behind, text = front ++ Blank.trim text ++ behind ∧
      (∀ c ∈ front, Blank.isBlank c = true) ∧ ∀ c ∈ behind, Blank.isBlank c = true := by
  obtain ⟨front, rest, rfl, hfront, hrest⟩ := exists_longest Blank.isBlank text
  obtain ⟨behind, core, hcore, hbehind, hlast⟩ := exists_longest Blank.isBlank rest.reverse
  refine ⟨front, behind.reverse, ?_, hfront, by simpa using hbehind⟩
  rw [Blank.trim, dropWhile_eq_longest hfront hrest, hcore, dropWhile_eq_longest hbehind hlast,
    List.append_assoc, ← List.reverse_append, ← hcore, List.reverse_reverse]

section Digits

variable {base n : Nat}

theorem readFrom_of_digitsFrom {before : Nat} {digits : List Char} (hbefore : before < ageBound)
    (h : digitsFrom base before digits = .ok n) :
    Digits.readFrom base before digits = some n ∧ n < ageBound := by
  induction digits generalizing before with
  | nil =>
    cases h
    exact ⟨rfl, hbefore⟩
  | cons c rest ih =>
    rw [digitsFrom] at h
    cases hvalue : Digits.value? base c with
    | none => simp [hvalue] at h
    | some digit =>
      simp only [hvalue] at h
      split at h
      next hlt =>
        rw [Digits.readFrom, hvalue]
        exact ih hlt h
      next => cases h

theorem read?_of_digitsFrom {c : Char} {rest : List Char}
    (h : digitsFrom base 0 (c :: rest) = .ok n) :
    Digits.read? base (c :: rest) = some n ∧ n < ageBound := by
  rw [Digits.read?, if_neg (List.cons_ne_nil c rest)]
  exact readFrom_of_digitsFrom (by decide) h

/-- What is read as an unsigned number is its digits, perhaps behind a plus sign. -/
theorem exists_digits_of_unsigned {text : List Char} (h : unsigned base text = .ok n) :
    ∃ sign digits, text = sign ++ digits ∧ (sign = [] ∨ sign = ['+']) ∧
      Digits.read? base digits = some n ∧ n < ageBound := by
  unfold unsigned at h
  split at h
  next => cases h
  next => cases h
  next digits hne =>
    obtain ⟨c, rest, rfl⟩ := List.exists_cons_of_ne_nil (l := digits) (by rintro rfl; exact hne rfl)
    exact ⟨['+'], c :: rest, rfl, .inr rfl, read?_of_digitsFrom h⟩
  next hne _ _ =>
    obtain ⟨c, rest, rfl⟩ := List.exists_cons_of_ne_nil (l := text) (by rintro rfl; exact hne rfl)
    exact ⟨[], c :: rest, rfl, .inl rfl, read?_of_digitsFrom h⟩

/-- What is read as an age has the parts of a spelling. -/
theorem exists_parts_of_ageOfText {text : List Char} (h : ageOfText text = .ok n) :
    ∃ front mark sign digits behind base, text = front ++ (mark ++ (sign ++ digits)) ++ behind ∧
      (∀ c ∈ front, Blank.isBlank c = true) ∧ (∀ c ∈ behind, Blank.isBlank c = true) ∧
      MarksBase mark base ∧ (sign = [] ∨ sign = ['+']) ∧
      Digits.read? base digits = some n ∧ n < ageBound := by
  obtain ⟨front, behind, hsplit, hfront, hbehind⟩ := exists_blanks_of_trim text
  have hmarked : ∃ mark base rest, Blank.trim text = mark ++ rest ∧ MarksBase mark base ∧
      unsigned base rest = .ok n := by
    unfold ageOfText at h
    split at h
    next rest htrim => exact ⟨_, _, rest, htrim, .lower, h⟩
    next rest htrim => exact ⟨_, _, rest, htrim, .upper, h⟩
    next => exact ⟨_, _, _, rfl, .decimal, h⟩
  obtain ⟨mark, base, rest, htrim, hmark, hunsigned⟩ := hmarked
  obtain ⟨sign, digits, rfl, hsign, hread, hbound⟩ := exists_digits_of_unsigned hunsigned
  rw [htrim] at hsplit
  exact ⟨front, mark, sign, digits, behind, base, hsplit, hfront, hbehind, hmark, hsign, hread,
    hbound⟩

end Digits

theorem toNat_toUInt32_of_lt {n : Nat} (h : n < ageBound) : n.toUInt32.toNat = n :=
  Nat.mod_eq_of_lt h

/-- Only spellings of an age are read. -/
theorem spellsAge_of_ageOf {v : Value} {n : UInt32} (h : ageOf v = .ok n) :
    SpellsAge v n.toNat := by
  unfold ageOf at h
  split at h
  next k =>
    split at h
    next hbound =>
      cases h
      have hspells : SpellsAge (.number (.natural k)) k.toNat := .number hbound
      rwa [← toNat_toUInt32_of_lt hbound] at hspells
    next => cases h
  next => cases h
  next s =>
    cases hread : ageOfText s.toList with
    | error misfit => rw [hread] at h; cases h
    | ok m =>
      rw [hread] at h
      cases h
      obtain ⟨front, mark, sign, digits, behind, base, htext, hfront, hbehind, hmark, hsign,
        hdigits, hbound⟩ := exists_parts_of_ageOfText hread
      rw [toNat_toUInt32_of_lt hbound]
      exact .text htext hfront hbehind hmark hsign hdigits hbound
  next => cases h

theorem ageOf_eq_ok_iff {v : Value} {n : UInt32} : ageOf v = .ok n ↔ SpellsAge v n.toNat := by
  constructor
  · exact spellsAge_of_ageOf
  · intro h
    rw [ageOf_of_spellsAge h, Nat.toUInt32_eq, UInt32.ofNat_toNat]

/-! ## Usual texts -/

/-- Digits behind a mark, with nothing else, spell an age. -/
theorem ageOf_marked {mark : List Char} {base : Nat} (hmark : MarksBase mark base)
    {spell : Char → Char} (hspell : ∀ d < base, Digits.value? base (spell (Nat.digitChar d)) = some d)
    (n : UInt32) :
    ageOf (.text (String.ofList (mark ++ (Nat.toDigits base n.toNat).map spell))) = .ok n := by
  have hbase : 1 < base := by cases hmark <;> decide
  have htext : (String.ofList (mark ++ (Nat.toDigits base n.toNat).map spell)).toList
      = [] ++ (mark ++ ([] ++ (Nat.toDigits base n.toNat).map spell)) ++ [] := by simp
  exact ageOf_eq_ok_iff.2 (.text htext (by simp) (by simp) hmark (.inl rfl)
    (Digits.read?_toDigits hbase _ hspell n.toNat) n.toNat_lt)

/-! ## Numbers in a text -/

section Collect

variable {digits : List Char}

/-- A digit that was dropped stays dropped. -/
theorem dropped_le_foldl_push (c : Collected) :
    c.dropped ≤ (digits.foldl Collected.push c).dropped := by
  induction digits generalizing c with
  | nil => exact Nat.le_refl _
  | cons d rest ih =>
    refine Nat.le_trans ?_ (ih _)
    unfold Collected.push
    dsimp only
    split
    · exact Nat.le_refl _
    · exact Nat.le_succ _

theorem value?_of_isDigit {c : Char} (h : isDigit c = true) :
    Digits.value? 10 c = some (digitValue c) := by
  unfold isDigit at h
  simp only [Bool.and_eq_true, decide_eq_true_eq] at h
  have hlt : digitValue c < 10 := by
    have hle : c.toNat ≤ '9'.toNat := UInt32.le_iff_toNat_le.1 h.2
    have hnine : '9'.toNat = 57 := rfl
    have hzero : '0'.toNat = 48 := rfl
    unfold digitValue
    omega
  unfold Digits.value? Hex.value?
  rw [if_pos h]
  exact Option.filter_some_pos (decide_eq_true hlt)

theorem exists_readFrom_of_isDigit (m : Nat) (hdigits : ∀ c ∈ digits, isDigit c = true) :
    ∃ n, Digits.readFrom 10 m digits = some n := by
  induction digits generalizing m with
  | nil => exact ⟨m, rfl⟩
  | cons c rest ih =>
    obtain ⟨hc, hrest⟩ := List.forall_mem_cons.1 hdigits
    rw [Digits.readFrom, value?_of_isDigit hc]
    exact ih _ hrest

/-- Digits are collected to the number that they spell while it fits, and dropped otherwise. -/
theorem exists_collected {m : Nat} (hm : m < 1 <<< 64) (taken : Nat)
    (hdigits : ∀ c ∈ digits, isDigit c = true) :
    ∃ n, Digits.readFrom 10 m digits = some n ∧
      if n < 1 <<< 64 then ∃ taken', digits.foldl Collected.push ⟨m, taken, 0⟩ = ⟨n, taken', 0⟩
      else 0 < (digits.foldl Collected.push ⟨m, taken, 0⟩).dropped := by
  induction digits generalizing m taken with
  | nil => exact ⟨m, rfl, by rw [if_pos hm]; exact ⟨taken, rfl⟩⟩
  | cons c rest ih =>
    obtain ⟨hc, hrest⟩ := List.forall_mem_cons.1 hdigits
    rw [List.foldl_cons, Digits.readFrom, value?_of_isDigit hc]
    by_cases hnext : 10 * m + digitValue c < 1 <<< 64
    · have hpush : Collected.push ⟨m, taken, 0⟩ c = ⟨10 * m + digitValue c, taken + 1, 0⟩ :=
        if_pos ⟨rfl, hnext⟩
      rw [hpush]
      exact ih hnext (taken + 1) hrest
    · have hpush : Collected.push ⟨m, taken, 0⟩ c = ⟨m, taken, 1⟩ := if_neg fun h => hnext h.2
      obtain ⟨n, hn⟩ := exists_readFrom_of_isDigit (10 * m + digitValue c) hrest
      have hlarge : ¬n < 1 <<< 64 := by
        have hle := le_of_readFrom (by decide) hn
        omega
      rw [hpush]
      refine ⟨n, hn, ?_⟩
      rw [if_neg hlarge]
      exact dropped_le_foldl_push ⟨m, taken, 1⟩

end Collect

theorem decimalNumber_ne_natural {isNegative : Bool} {significand : Nat} {exponent : Int}
    {k : UInt64} : decimalNumber isNegative significand exponent ≠ .ok (.natural k) := by
  unfold decimalNumber
  split
  next => exact fun h => by cases h
  next => exact fun h => by cases h

/-- A number stands for a natural one exactly when it has digits only, and these spell it. -/
theorem value_eq_natural_iff {t : NumberText} {k : UInt64} (hne : t.whole ≠ [])
    (hdigits : ∀ c ∈ t.whole, isDigit c = true) :
    t.value = .ok (.natural k) ↔ t.isNegative = false ∧ t.fraction = none ∧ t.exponent = none ∧
      Digits.read? 10 t.whole = some k.toNat := by
  obtain ⟨isNegative, whole, fraction, exponent⟩ := t
  obtain ⟨n, hn, hcollected⟩ := exists_collected (m := 0) (by decide) 0 hdigits
  rw [Digits.read?, if_neg hne]
  dsimp only at hn hcollected ⊢
  rw [hn]
  cases fraction with
  | some digits => exact iff_of_false decimalNumber_ne_natural (by simp)
  | none =>
    cases exponent with
    | some power => exact iff_of_false decimalNumber_ne_natural (by simp)
    | none =>
      unfold NumberText.value collect
      dsimp only
      split at hcollected
      next hfits =>
        obtain ⟨taken, hcollected⟩ := hcollected
        rw [hcollected, if_neg (Nat.lt_irrefl 0)]
        cases isNegative with
        | false =>
          have hnat : n.toUInt64.toNat = n := Nat.mod_eq_of_lt hfits
          rw [if_pos (show (!false) = true from rfl)]
          constructor
          · intro h
            cases h
            exact ⟨rfl, rfl, rfl, congrArg some hnat.symm⟩
          · rintro ⟨-, -, -, h⟩
            rw [Option.some.inj h, Nat.toUInt64_eq, UInt64.ofNat_toNat]
        | true =>
          refine iff_of_false ?_ (by simp)
          rw [if_neg (show ¬(!true) = true from Bool.false_ne_true)]
          split
          · exact decimalNumber_ne_natural
          · exact fun h => by cases h
      next hlarge =>
        rw [if_pos hcollected]
        refine iff_of_false decimalNumber_ne_natural ?_
        rintro ⟨-, -, -, h⟩
        rw [Option.some.inj h] at hlarge
        exact hlarge k.toNat_lt

theorem exists_natural_of_spellsAge {number : Number} {n : Nat}
    (h : SpellsAge (.number number) n) : ∃ k, number = .natural k ∧ k.toNat = n := by
  cases h with
  | number hbound => exact ⟨_, rfl, rfl⟩

/-- Of the numbers in a JSON text an age is read from those that have digits only. -/
theorem ageOf_value_eq_ok_iff {text rest : List Char} {t : NumberText}
    (h : takeNumber text = .ok (t, rest)) {n : UInt32} :
    (∃ number, t.value = .ok number ∧ ageOf (.number number) = .ok n) ↔
      t.isNegative = false ∧ t.fraction = none ∧ t.exponent = none ∧
        Digits.read? 10 t.whole = some n.toNat := by
  obtain ⟨-, -, behind, behind', hwhole, -, -⟩ := takeNumber_eq_ok_iff.1 h
  obtain ⟨-, hne, hdigits, -⟩ := takeDigits_eq_ok_iff.1 hwhole
  have hnatural : (n.toUInt64).toNat = n.toNat := rfl
  constructor
  · rintro ⟨number, hvalue, hage⟩
    obtain ⟨k, rfl, hk⟩ := exists_natural_of_spellsAge (spellsAge_of_ageOf hage)
    rw [← hk]
    exact (value_eq_natural_iff hne hdigits).1 hvalue
  · intro hparts
    refine ⟨.natural n.toUInt64, (value_eq_natural_iff hne hdigits).2 (hnatural ▸ hparts), ?_⟩
    exact ageOf_eq_ok_iff.2 (hnatural ▸ .number n.toNat_lt)

/-- **Ages are read from their spellings only.** A value is read as an age exactly when it spells the
age; a number in a JSON text, exactly when it has digits only and these spell the age. In particular
an age is read from its number, from its decimal digits, and from its hexadecimal digits in either
case behind either mark. -/
theorem ageOf_reads_spellings :
    (∀ (v : Value) (n : UInt32), ageOf v = .ok n ↔ SpellsAge v n.toNat) ∧
    (∀ (text rest : List Char) (t : NumberText) (n : UInt32), takeNumber text = .ok (t, rest) →
      ((∃ number, t.value = .ok number ∧ ageOf (.number number) = .ok n) ↔
        t.isNegative = false ∧ t.fraction = none ∧ t.exponent = none ∧
          Digits.read? 10 t.whole = some n.toNat)) ∧
    ∀ n : UInt32, ageOf (.number (.natural n.toUInt64)) = .ok n ∧
      ageOf (.text (toString n.toNat)) = .ok n ∧
      ageOf (.text (Hex.marked n.toNat)) = .ok n ∧
      ageOf (.text ("0X" ++ Hex.upper n.toNat)) = .ok n := by
  refine ⟨fun v n => ageOf_eq_ok_iff, fun text rest t n h => ageOf_value_eq_ok_iff h,
    fun n => ⟨?_, ?_, ?_, ?_⟩⟩
  · exact ageOf_eq_ok_iff.2 (.number n.toNat_lt)
  · have h := @ageOf_marked _ _ .decimal id Digits.value?_decimalDigit n
    rw [List.map_id, List.nil_append] at h
    rwa [Nat.toString_eq_ofList_toDigits]
  · have h := @ageOf_marked _ _ .lower id Digits.value?_hexDigit n
    rw [List.map_id, String.ofList_append] at h
    exact h
  · have h := ageOf_marked .upper Digits.value?_upperHexDigit n
    rw [String.ofList_append] at h
    exact h

/-- Two digits in a text are read as an age. -/
theorem ageOf_reads_spellings_twoDigits :
    takeNumber ['2', '6', ','] = .ok (⟨false, ['2', '6'], none, none⟩, [',']) ∧
      ∃ number, NumberText.value ⟨false, ['2', '6'], none, none⟩ = .ok number ∧
        ageOf (.number number) = .ok 26 := by
  have htaken : takeNumber ['2', '6', ','] = .ok (⟨false, ['2', '6'], none, none⟩, [',']) := rfl
  exact ⟨htaken, (ageOf_reads_spellings.2.1 _ _ _ 26 htaken).2 ⟨rfl, rfl, rfl, by decide⟩⟩

end Wire

end OffsetService
