import OffsetService.Proofs.Digits
import OffsetService.Text.Fields
import OffsetService.Text.Quoted

/-!
# Quoted texts are told apart

What stands for a character between the quotes says where it ends and which character it is
(`unescape?_escape`), so no two texts are shown alike (`quote_inj`).
-/

namespace OffsetService.Quoted

/-- The character that is shown first, and what is shown behind it. -/
def unescape? : List Char → Option (Char × List Char)
  | '\\' :: '0' :: rest => some ('\x00', rest)
  | '\\' :: 't' :: rest => some ('\t', rest)
  | '\\' :: 'r' :: rest => some ('\r', rest)
  | '\\' :: 'n' :: rest => some ('\n', rest)
  | '\\' :: '\\' :: rest => some ('\\', rest)
  | '\\' :: '"' :: rest => some ('"', rest)
  | '\\' :: 'u' :: '\x7b' :: rest =>
    let digits := rest.takeWhile (· ≠ '\x7d')
    (Digits.read? 16 digits).map fun code => (Char.ofNat code, rest.drop (digits.length + 1))
  | c :: rest => some (c, rest)
  | [] => none

/-- A code point in braces is read up to the closing one. -/
theorem unescape?_code (c : Char) (rest : List Char) :
    unescape? (['\\', 'u', '\x7b'] ++ Nat.toDigits 16 c.toNat ++ ['\x7d'] ++ rest)
      = some (c, rest) := by
  have hbrace : '\x7d' ∉ Nat.toDigits 16 c.toNat :=
    Digits.notMem_toDigits (.inr rfl) (by decide) _
  have hdigits : (Nat.toDigits 16 c.toNat ++ '\x7d' :: rest).takeWhile (· ≠ '\x7d')
      = Nat.toDigits 16 c.toNat := Fields.takeWhile_append hbrace rest
  have htext : ['\\', 'u', '\x7b'] ++ Nat.toDigits 16 c.toNat ++ ['\x7d'] ++ rest
      = '\\' :: 'u' :: '\x7b' :: (Nat.toDigits 16 c.toNat ++ '\x7d' :: rest) := by simp
  rw [htext, unescape?]
  simp only [hdigits, Digits.read?_hex, Option.map_some, Char.ofNat_toNat]
  rw [← List.drop_drop, List.drop_left]
  rfl

/-- A character is found again in what stands for it, whatever follows. -/
theorem unescape?_escape (c : Char) (rest : List Char) :
    unescape? (escape c ++ rest) = some (c, rest) := by
  unfold escape
  split_ifs with h h h h hbackslash h _
  · rw [h]
    rfl
  · rw [h]
    rfl
  · rw [h]
    rfl
  · rw [h]
    rfl
  · rw [hbackslash]
    rfl
  · rw [h]
    rfl
  · rw [List.singleton_append, unescape?]
    all_goals simp [hbackslash]
  · exact unescape?_code c rest

theorem flatMap_escape_inj {s t : List Char} (h : s.flatMap escape = t.flatMap escape) : s = t := by
  induction s generalizing t with
  | nil =>
    cases t with
    | nil => rfl
    | cons d t =>
      have hread := unescape?_escape d (t.flatMap escape)
      rw [← List.flatMap_cons, ← h] at hread
      cases hread
  | cons c s ih =>
    have hread := unescape?_escape c (s.flatMap escape)
    rw [← List.flatMap_cons, h] at hread
    cases t with
    | nil => cases hread
    | cons d t =>
      rw [List.flatMap_cons, unescape?_escape] at hread
      obtain ⟨rfl, hrest⟩ := Prod.mk.inj (Option.some.inj hread)
      rw [ih hrest.symm]

/-- Texts that are shown alike are alike. -/
theorem quote_inj {s t : String} (h : quote s = quote t) : s = t := by
  have hlist := congrArg String.toList h
  rw [quote, quote, String.toList_ofList, String.toList_ofList] at hlist
  exact String.toList_inj.1 (flatMap_escape_inj (List.append_cancel_right (List.cons.inj hlist).2))

end OffsetService.Quoted
