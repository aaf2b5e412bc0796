import OffsetService.Proofs.Json.Numbers

/-!
# Where a number ends

A number goes on for as long as it can: its digits, its fraction and its exponent each take what
belongs to them. Its reader therefore takes the same characters, and finds the same number, in front
of every text that cannot go on with a number (`takeNumber_split`). Each part is split off by itself,
together with the mark it begins with, since the part before it has to end there.
-/

namespace OffsetService.Json

/-- A sign is the same before any digits. -/
theorem takeSign_split (text : List Char) :
    ∃ sign, text = sign ++ (takeSign text).2 ∧
      ∀ c more, isDigit c = true →
        takeSign (sign ++ c :: more) = ((takeSign text).1, c :: more) := by
  unfold takeSign
  split
  next => exact ⟨['-'], rfl, fun _ _ _ => rfl⟩
  next =>
    refine ⟨[], rfl, fun c more hc => ?_⟩
    split
    next heq => cases heq; cases hc
    next => rfl

theorem takeFraction_split {text rest : List Char} {fraction : Option (List Char)}
    (h : takeFraction text = .ok (fraction, rest)) :
    ∃ used, text = used ++ rest ∧ (∀ c, used.head? = some c → c = '.') ∧
      ∀ more, (∀ c, more.head? = some c → isDigit c = false ∧ c ≠ '.') →
        takeFraction (used ++ more) = .ok (fraction, more) := by
  unfold takeFraction at h
  split at h
  next behind =>
    split at h
    next digits rest' hdigits =>
      cases h
      obtain ⟨rfl, hne, hall, -⟩ := takeDigits_eq_ok_iff.1 hdigits
      refine ⟨'.' :: digits, rfl, by simp, fun more hmore => ?_⟩
      have hagain := takeDigits_eq_ok_iff.2 ⟨rfl, hne, hall, fun c hc => (hmore c hc).1⟩
      rw [List.cons_append, takeFraction, hagain]
    next => cases h
  next =>
    cases h
    exact ⟨[], rfl, by simp, fun more hmore => takeFraction_of_ne fun c hc => (hmore c hc).2⟩

/-- The sign of an exponent, and what follows. -/
def exponentSign : List Char → Bool × List Char
  | '+' :: rest => (false, rest)
  | '-' :: rest => (true, rest)
  | text => (false, text)

theorem exponentSign_split (text : List Char) :
    ∃ sign, text = sign ++ (exponentSign text).2 ∧ ∀ c more, isDigit c = true →
      exponentSign (sign ++ c :: more) = ((exponentSign text).1, c :: more) := by
  unfold exponentSign
  split
  next => exact ⟨['+'], rfl, fun _ _ _ => rfl⟩
  next => exact ⟨['-'], rfl, fun _ _ _ => rfl⟩
  next =>
    refine ⟨[], rfl, fun c more hc => ?_⟩
    split
    next heq => cases heq; cases hc
    next heq => cases heq; cases hc
    next => rfl

theorem takeExponent_mark {c : Char} (hc : c = 'e' ∨ c = 'E') (text : List Char) :
    takeExponent (c :: text) = match takeDigits (exponentSign text).2 with
      | .ok (digits, rest) => .ok (some ((exponentSign text).1, digits), rest)
      | .error e => .error e :=
  if_pos hc

theorem takeExponent_split {text rest : List Char} {exponent : Option (Bool × List Char)}
    (h : takeExponent text = .ok (exponent, rest)) :
    ∃ used, text = used ++ rest ∧ (∀ c, used.head? = some c → c = 'e' ∨ c = 'E') ∧
      ∀ more, Ends more → takeExponent (used ++ more) = .ok (exponent, more) := by
  cases text with
  | nil =>
    cases h
    exact ⟨[], rfl, by simp, fun _ => takeExponent_of_ends⟩
  | cons c behind =>
    by_cases hc : c = 'e' ∨ c = 'E'
    · rw [takeExponent_mark hc] at h
      obtain ⟨sign, hsign, hagain⟩ := exponentSign_split behind
      cases hdigits : takeDigits (exponentSign behind).2 with
      | error e => rw [hdigits] at h; cases h
      | ok taken =>
        rw [hdigits] at h
        cases h
        obtain ⟨hsplit, hne, hall, -⟩ := takeDigits_eq_ok_iff.1 hdigits
        obtain ⟨d, digits, hcons⟩ := List.exists_cons_of_ne_nil hne
        refine ⟨c :: sign ++ taken.1, by rw [hsign, hsplit]; simp, ?_, fun more hmore => ?_⟩
        · intro first hfirst
          cases hfirst
          exact hc
        · have hd : isDigit d = true := hall d (hcons ▸ List.mem_cons_self)
          have htaken := takeDigits_eq_ok_iff.2 ⟨rfl, hne, hall, fun c hc => (hmore c hc).1⟩
          have hmark := hagain d (digits ++ more) hd
          rw [← List.cons_append, ← hcons] at hmark
          rw [List.append_assoc, List.cons_append, takeExponent_mark hc, hmark, htaken]
    · obtain ⟨rfl, rfl⟩ : none = exponent ∧ c :: behind = rest := by
        unfold takeExponent at h
        exact Prod.mk.inj (Except.ok.inj ((if_neg hc).symm.trans h))
      exact ⟨[], rfl, by simp, fun _ => takeExponent_of_ends⟩

theorem takeNumber_eq_ok_iff {text rest : List Char} {shown : NumberText} :
    takeNumber text = .ok (shown, rest) ↔ (takeSign text).1 = shown.isNegative ∧
      ¬(shown.whole.head? = some '0' ∧ 1 < shown.whole.length) ∧
      ∃ behind behind', takeDigits (takeSign text).2 = .ok (shown.whole, behind) ∧
        takeFraction behind = .ok (shown.fraction, behind') ∧
        takeExponent behind' = .ok (shown.exponent, rest) := by
  unfold takeNumber
  rcases takeSign text with ⟨isNegative, digits⟩
  constructor
  · intro h
    cases hdigits : takeDigits digits with
    | error e => simp only [hdigits, bind, Except.bind] at h; cases h
    | ok taken =>
      obtain ⟨whole, behind⟩ := taken
      by_cases hzero : whole.head? = some '0' ∧ 1 < whole.length
      · simp only [hdigits, bind, Except.bind, if_pos hzero] at h
        cases h
      · simp only [hdigits, bind, Except.bind, if_neg hzero] at h
        cases hfraction : takeFraction behind with
        | error e => simp only [hfraction] at h; cases h
        | ok taken =>
          obtain ⟨fraction, behind'⟩ := taken
          cases hexponent : takeExponent behind' with
          | error e => simp only [hfraction, hexponent] at h; cases h
          | ok taken =>
            simp only [hfraction, hexponent] at h
            cases h
            exact ⟨rfl, hzero, behind, behind', rfl, hfraction, hexponent⟩
  · rintro ⟨rfl, hzero, behind, behind', hdigits, hfraction, hexponent⟩
    dsimp only at hdigits
    simp only [hdigits, bind, Except.bind, if_neg hzero, hfraction, hexponent]
    rfl

/-- A number is taken off in front of whatever does not go on with it. -/
theorem takeNumber_split {text rest : List Char} {shown : NumberText}
    (h : takeNumber text = .ok (shown, rest)) :
    ∃ used, text = used ++ rest ∧
      ∀ more, Ends more → takeNumber (used ++ more) = .ok (shown, more) := by
  obtain ⟨hnegative, hzero, behind, behind', hwhole, hfraction, hexponent⟩ :=
    takeNumber_eq_ok_iff.1 h
  obtain ⟨sign, htext, hsign⟩ := takeSign_split text
  obtain ⟨hdigits, hne, hall, -⟩ := takeDigits_eq_ok_iff.1 hwhole
  obtain ⟨point, hpoint, hpointHead, hfraction⟩ := takeFraction_split hfraction
  obtain ⟨power, hpower, hpowerHead, hexponent⟩ := takeExponent_split hexponent
  obtain ⟨d, digits, hcons⟩ := List.exists_cons_of_ne_nil hne
  refine ⟨sign ++ (shown.whole ++ (point ++ power)), ?_, fun more hmore => ?_⟩
  · rw [htext, hdigits, hpoint, hpower]
    simp
  -- Each part is followed by the mark of a later part, or by what does not go on with the number.
  have hbehindPoint : ∀ c, (power ++ more).head? = some c → isDigit c = false ∧ c ≠ '.' := by
    intro c hc
    cases power with
    | nil =>
      obtain ⟨hdigit, hdot, -⟩ := hmore c hc
      exact ⟨hdigit, hdot⟩
    | cons mark _ =>
      cases hc
      rcases hpowerHead c rfl with rfl | rfl <;> decide
  have hbehindWhole : ∀ c, (point ++ (power ++ more)).head? = some c → isDigit c = false := by
    intro c hc
    cases point with
    | nil => exact (hbehindPoint c hc).1
    | cons mark _ =>
      cases hc
      rw [hpointHead c rfl]
      decide
  have hstart := hsign d (digits ++ (point ++ (power ++ more)))
    (hall d (hcons ▸ List.mem_cons_self))
  rw [← List.cons_append, ← hcons] at hstart
  simp only [List.append_assoc]
  refine takeNumber_eq_ok_iff.2 ⟨?_, hzero, point ++ (power ++ more), power ++ more, ?_,
    hfraction _ hbehindPoint, hexponent more hmore⟩
  · rw [hstart, hnegative]
  · rw [hstart]
    exact takeDigits_eq_ok_iff.2 ⟨rfl, hne, hall, hbehindWhole⟩

end OffsetService.Json
