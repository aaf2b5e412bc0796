import Mathlib.Data.List.Forall2
import OffsetService.Proofs.Json.Parts

/-!
# Texts that are read back

`Reads reader text a` says that a reader takes the characters of a text, and no others, off the front
of whatever a value may stand before, and has `a` then. It holds of a writer and its reader part by
part: of a text once each of its characters is read back (`textFrom_escape`), of a sequence once its
items are (`items_commas`), and of an object once its members are, one after the other
(`ReadsMembers`, `members_commas`).
-/

namespace OffsetService.Json

variable {α β σ : Type}

namespace Reader

/-- A reader reads a text as a value, and leaves what stands behind it. -/
structure Reads (reader : Reader α) (text : List Char) (a : α) : Prop where
  /-- The text begins with a mark of its own: no blank, and no end of a sequence. -/
  opens : ∃ c more, text = c :: more ∧ Reader.isBlank c = false ∧ c ≠ ']'
  run : ∀ rest, Delimits rest → reader (text ++ rest) = .ok (a, rest)

/-! ## Characters -/

theorem textFrom_cons {kept : Bool} {state next : Inside} {c : Char} {shown : Option Char}
    (hstep : stepText kept state c = .ok (next, shown)) (hquote : ¬(c = '"' ∧ state = .plain))
    (found rest : List Char) :
    textFrom kept state found (c :: rest) = textFrom kept next (shown.toList ++ found) rest := by
  rw [textFrom, if_neg hquote, hstep]
  cases shown <;> rfl

theorem value?_digit : ∀ d < 16, Hex.value? (Hex.digit .lower d) = some d := by decide

/-- The character of a control is read back from the four digits of its code. -/
theorem textFrom_code {n : Nat} (h : n < 0x20) (found rest : List Char) :
    textFrom true .plain found (['\\', 'u'] ++ Hex.fixed .lower 4 n ++ rest)
      = textFrom true .plain (Char.ofNat n :: found) rest := by
  have hhigh : n / 16 / 16 = 0 := by omega
  have hdigits : Hex.fixed .lower 4 n
      = [Hex.digit .lower 0, Hex.digit .lower 0, Hex.digit .lower (n / 16 % 16),
        Hex.digit .lower (n % 16)] := by
    simp [Hex.fixed, hhigh]
  have hcode : ∀ (left value d : Nat), d < 16 → 1 < left →
      stepText true (.code left value none) (Hex.digit .lower d)
        = .ok (.code (left - 1) (16 * value + d) none, none) := by
    intro left value d hd hleft
    simp [stepText, value?_digit d hd, Nat.not_le.2 hleft]
  have hlast : stepText true (.code 1 (n / 16 % 16) none) (Hex.digit .lower (n % 16))
      = .ok (.plain, some (Char.ofNat n)) := by
    have hvalue : 16 * (n / 16 % 16) + n % 16 = n := by omega
    have hplain : ¬(0xD800 ≤ n ∧ n < 0xDC00) ∧ ¬(0xDC00 ≤ n ∧ n < 0xE000) := by omega
    simp [stepText, value?_digit (n % 16) (by omega), closeCode, hvalue, hplain]
  have hopen : stepText true .plain '\\' = .ok (.escape, none) := rfl
  have hmark : stepText true .escape 'u' = .ok (.code 4 0 none, none) := rfl
  have hinside : ∀ {left value : Nat} {c : Char},
      ¬(c = '"' ∧ Inside.code left value none = .plain) := by simp
  rw [hdigits]
  simp only [List.cons_append, List.nil_append]
  rw [textFrom_cons hopen (by decide), textFrom_cons hmark (by decide),
    textFrom_cons (hcode 4 0 0 (by omega) (by omega)) hinside,
    textFrom_cons (hcode 3 0 0 (by omega) (by omega)) hinside,
    textFrom_cons (hcode 2 0 (n / 16 % 16) (by omega) (by omega)) hinside]
  simp only [Nat.mul_zero, Nat.zero_add, Option.toList_none, List.nil_append]
  rw [textFrom_cons hlast hinside]
  rfl

/-- A character is read back from what stands for it between quotes. -/
theorem textFrom_escape (c : Char) (found rest : List Char) :
    textFrom true .plain found (escape c ++ rest) = textFrom true .plain (c :: found) rest := by
  have hescaped : ∀ {mark shown : Char}, escaped? mark = some shown → mark ≠ 'u' →
      textFrom true .plain found (['\\', mark] ++ rest)
        = textFrom true .plain (shown :: found) rest := by
    intro mark shown hshown hmark
    have hopen : stepText true .plain '\\' = .ok (.escape, none) := rfl
    have hstep : stepText true .escape mark = .ok (.plain, some shown) := by
      simp [stepText, hmark, hshown]
    simp only [List.cons_append, List.nil_append]
    rw [textFrom_cons hopen (by decide), textFrom_cons hstep (by simp)]
    rfl
  unfold escape
  split_ifs with hquote hslash hline hreturn htab hback hfeed hcontrol
  · subst hquote
    exact hescaped rfl (by decide)
  · subst hslash
    exact hescaped rfl (by decide)
  · subst hline
    exact hescaped rfl (by decide)
  · subst hreturn
    exact hescaped rfl (by decide)
  · subst htab
    exact hescaped rfl (by decide)
  · subst hback
    exact hescaped rfl (by decide)
  · subst hfeed
    exact hescaped rfl (by decide)
  · have hcode := textFrom_code hcontrol found rest
    rw [Char.ofNat_toNat] at hcode
    exact hcode
  · have hstep : stepText true .plain c = .ok (.plain, some c) := by
      simp [stepText, hslash, hcontrol]
    exact textFrom_cons hstep (fun h => hquote h.1) found rest

theorem textFrom_escapes (chars found rest : List Char) :
    textFrom true .plain found (chars.flatMap escape ++ '"' :: rest)
      = .ok (String.ofList (found.reverse ++ chars), rest) := by
  induction chars generalizing found with
  | nil =>
    rw [List.flatMap_nil, List.nil_append, textFrom, if_pos ⟨rfl, rfl⟩, List.append_nil]
  | cons c more ih =>
    rw [List.flatMap_cons, List.append_assoc, textFrom_escape, ih]
    simp

/-- The characters between the quotes, and the closing quote, are read as the text. -/
theorem textBody_renderText (s : String) (rest : List Char) :
    textBody true (s.toList.flatMap escape ++ '"' :: rest) = .ok (s, rest) := by
  rw [textBody, textFrom_escapes]
  simp

theorem renderText_append (s : String) (rest : List Char) :
    renderText s ++ rest = '"' :: (s.toList.flatMap escape ++ '"' :: rest) := by
  simp [renderText]

theorem opens_renderText (s : String) :
    ∃ c more, renderText s = c :: more ∧ isBlank c = false ∧ c ≠ ']' :=
  ⟨'"', _, rfl, rfl, by decide⟩

theorem reads_text (s : String) : Reads text (renderText s) s where
  opens := opens_renderText s
  run rest _ := by
    rw [renderText_append]
    unfold text
    rw [bind_eq (peek?_cons rfl _), if_pos rfl, bind_eq (drop_cons ..)]
    exact textBody_renderText s rest

/-- The name of a member is a text. -/
theorem memberName_renderText (s : String) (rest : List Char) :
    memberName (renderText s ++ rest) = .ok (s, rest) := by
  rw [renderText_append]
  unfold memberName
  rw [bind_eq (peek?_cons rfl _), if_pos rfl, bind_eq (drop_cons ..)]
  exact textBody_renderText s rest

/-! ## Sequences -/

section Items

variable {item : Reader α} {parts : List (List Char)} {as : List α}

theorem runsParts_items (h : List.Forall₂ (Reads item) parts as) (found : List α) :
    RunsParts (fun found => do return (← item) :: found) found parts (as.reverse ++ found) := by
  induction h generalizing found with
  | nil => exact .nil found
  | @cons part a parts as hpart _ ih =>
    rw [List.reverse_cons, List.append_assoc]
    refine .cons (fun rest hrest => ?_) (ih (a :: found))
    exact ⟨[], by simp [Spacing], bind_eq (hpart.run rest hrest)⟩

theorem items_commas (h : List.Forall₂ (Reads item) parts as) {budget : Nat}
    (hbudget : (commas parts).length ≤ budget) (rest : List Char) :
    items item budget (commas parts ++ ']' :: rest) = .ok (as, rest) := by
  have hopens : ∀ part ∈ parts, ∃ c more, part = c :: more ∧ isBlank c = false ∧ c ≠ ']' := by
    clear hbudget
    induction h with
    | nil => exact fun part hpart => by cases hpart
    | cons hpart _ ih => exact List.forall_mem_cons.2 ⟨hpart.opens, ih⟩
  have hturns := Nat.le_trans (length_le_length_commas (ne_nil_of_opens hopens)) hbudget
  refine opening_commas rfl hopens ?_ ?_
  · rintro rfl
    cases h
    rfl
  · intro hne
    rw [itemsFrom_eq_partsFrom,
      bind_eq (partsFrom_commas (.inl rfl) (runsParts_items h []) hne hturns rest),
      List.append_nil, List.reverse_reverse]
    rfl

end Items

/-! ## Objects -/

/-- The members of an object, each taken in behind the one before it, lead from one state to
another. -/
inductive ReadsMembers (step : σ → String → Reader σ) : σ → List (List Char) → σ → Prop where
  | nil (s : σ) : ReadsMembers step s [] s
  | cons {s next last : σ} {name : String} {text : List Char} {parts : List (List Char)} :
    Reads (step s name) (':' :: text) next → ReadsMembers step next parts last →
      ReadsMembers step s ((renderText name ++ ':' :: text) :: parts) last

section Members

variable {step : σ → String → Reader σ} {s last : σ} {parts : List (List Char)}

theorem ReadsMembers.opens (h : ReadsMembers step s parts last) :
    ∀ part ∈ parts, ∃ c more, part = c :: more ∧ isBlank c = false ∧ c ≠ '}' := by
  induction h with
  | nil => exact fun part hpart => by cases hpart
  | cons _ _ ih => exact List.forall_mem_cons.2 ⟨⟨'"', _, rfl, rfl, by decide⟩, ih⟩

theorem ReadsMembers.runsParts (h : ReadsMembers step s parts last) :
    RunsParts (fun s => memberName >>= step s) s parts last := by
  induction h with
  | nil s => exact .nil s
  | cons hmember _ ih =>
    refine .cons (fun rest hrest => ⟨[], by simp [Spacing], ?_⟩) ih
    rw [List.append_assoc, bind_eq (memberName_renderText _ _)]
    exact hmember.run rest hrest

theorem members_commas (h : ReadsMembers step s parts last) {budget : Nat}
    (hbudget : (commas parts).length ≤ budget) (rest : List Char) :
    members step budget s (commas parts ++ '}' :: rest) = .ok (last, rest) := by
  have hturns := Nat.le_trans (length_le_length_commas (ne_nil_of_opens h.opens)) hbudget
  refine opening_commas rfl h.opens ?_ ?_
  · rintro rfl
    cases h
    rfl
  · intro hne
    rw [membersFrom_eq_partsFrom]
    exact partsFrom_commas (.inr rfl) h.runsParts hne hturns rest

end Members

/-- An object with these members, and what stands behind it. -/
theorem object_append (parts : List (List Char)) (rest : List Char) :
    '{' :: commas parts ++ ['}'] ++ rest = '{' :: (commas parts ++ '}' :: rest) := by
  simp

theorem opens_object (parts : List (List Char)) :
    ∃ c more, '{' :: commas parts ++ ['}'] = c :: more ∧ isBlank c = false ∧ c ≠ ']' :=
  ⟨'{', _, rfl, rfl, by decide⟩

theorem length_commas_le_of_object {parts : List (List Char)} {budget : Nat}
    (h : ('{' :: commas parts ++ ['}']).length ≤ budget) : (commas parts).length ≤ budget := by
  rw [List.length_append, List.length_cons] at h
  omega

theorem reads_colon {value : Reader α} {text : List Char} {a : α} (h : Reads value text a) :
    Reads (colon value) (':' :: text) a where
  opens := ⟨':', text, rfl, rfl, by decide⟩
  run rest hrest := by
    have htoken : token ':' (':' :: text ++ rest) = .ok ((), text ++ rest) := by
      unfold token
      rw [List.cons_append, bind_eq (peek?_cons rfl _), if_pos rfl]
      exact drop_cons ..
    unfold colon
    rw [bind_eq htoken]
    exact h.run rest hrest

/-- A reader that changes what another one has read. -/
theorem Reads.bind_pure {value : Reader α} {text : List Char} {a : α} (h : Reads value text a)
    (f : α → β) : Reads (value >>= fun a => pure (f a)) text (f a) where
  opens := h.opens
  run rest hrest := by
    rw [bind_eq (h.run rest hrest)]
    rfl

theorem readsMembers_collect {value : Reader α} (write : α → List Char)
    {entries : List (String × α)} (h : ∀ entry ∈ entries, Reads value (write entry.2) entry.2)
    (found : List (String × α)) :
    ReadsMembers (collectMember value) found
      (entries.map fun entry => renderText entry.1 ++ ':' :: write entry.2)
      (entries.reverse ++ found) := by
  induction entries generalizing found with
  | nil => exact .nil found
  | cons entry entries ih =>
    obtain ⟨hentry, hentries⟩ := List.forall_mem_cons.1 h
    have hlast := ih hentries (entry :: found)
    rw [List.reverse_cons, List.append_assoc]
    exact .cons ((reads_colon hentry).bind_pure fun a => (entry.1, a) :: found) hlast

/-! ## Kept values -/

theorem scalar_of_scalar? {c : Char} {text rest : List Char} {v : Value}
    (h : scalar? c text = .ok (some v, rest)) : scalar c text = .ok (v, rest) := by
  unfold scalar
  rw [bind_eq h]
  rfl

theorem reads_value_text (budget depth : Nat) (s : String) :
    Reads (value budget (depth + 1)) (renderText s) (.text s) where
  opens := opens_renderText s
  run rest _ := by
    rw [renderText_append]
    unfold value
    rw [bind_eq (peek?_cons rfl _)]
    refine scalar_of_scalar? ?_
    show (drop >>= fun _ => textBody true >>= fun s => pure (some (Value.text s))) ('"' :: _) = _
    rw [bind_eq (drop_cons ..), bind_eq (textBody_renderText s rest)]
    rfl

/-- A character that begins a number begins nothing else. -/
theorem ne_of_beginsNumber {c other : Char} (h : c = '-' ∨ isDigit c = true)
    (hother : ¬(other = '-' ∨ isDigit other = true)) : c ≠ other :=
  fun heq => hother (heq ▸ h)

theorem isBlank_of_beginsNumber {c : Char} (h : c = '-' ∨ isDigit c = true) : isBlank c = false := by
  cases hblank : isBlank c with
  | false => rfl
  | true =>
    simp only [isBlank, Bool.or_eq_true, decide_eq_true_eq] at hblank
    rcases hblank with ((rfl | rfl) | rfl) | rfl <;> exact absurd h (by decide)

theorem exists_cons_natural (n : UInt64) :
    ∃ c more, renderNumber (.natural n) = c :: more ∧ isDigit c = true := by
  obtain ⟨c, more, hdigits⟩ :=
    List.exists_cons_of_ne_nil (Nat.toDigits_ne_nil (n := n.toNat) (b := 10))
  exact ⟨c, more, (renderNumber_natural n).trans hdigits,
    isDigit_of_mem_toDigits (hdigits ▸ List.mem_cons_self)⟩

theorem scalar?_of_beginsNumber {c : Char} (h : c = '-' ∨ isDigit c = true) :
    scalar? c = number >>= fun n => pure (some (.number n)) := by
  unfold scalar?
  split
  next => exact absurd h (by decide)
  next => exact absurd h (by decide)
  next => exact absurd h (by decide)
  next => exact absurd h (by decide)
  next => exact if_pos h

theorem reads_value_natural (budget depth : Nat) (n : UInt64) :
    Reads (value budget (depth + 1)) (renderNumber (.natural n)) (.number (.natural n)) where
  opens := by
    obtain ⟨c, more, htext, hc⟩ := exists_cons_natural n
    exact ⟨c, more, htext, isBlank_of_beginsNumber (.inr hc),
      ne_of_beginsNumber (.inr hc) (by decide)⟩
  run rest hrest := by
    obtain ⟨c, more, htext, hc⟩ := exists_cons_natural n
    have hpeek := peek?_cons (isBlank_of_beginsNumber (.inr hc)) (more ++ rest)
    rw [← List.cons_append, ← htext] at hpeek
    have hscalar : scalar c (renderNumber (.natural n) ++ rest)
        = .ok (.number (.natural n), rest) := by
      refine scalar_of_scalar? ?_
      rw [scalar?_of_beginsNumber (.inr hc), bind_eq (number_natural n hrest)]
      rfl
    unfold value
    rw [bind_eq hpeek]
    generalize hmark : some c = mark
    split
    next => cases hmark
    next => exact absurd (Option.some.inj hmark ▸ hc) (by decide)
    next => exact absurd (Option.some.inj hmark ▸ hc) (by decide)
    next => exact Option.some.inj hmark ▸ hscalar

end Reader

end OffsetService.Json
