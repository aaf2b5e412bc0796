import Mathlib.Algebra.Group.Nat.Defs
import OffsetService.Text.Utf8

/-!
# What a text decoded from any bytes can hold

A byte string is read as characters and broken pieces. Inside a character the machine knows which
ones can still come of it, and by the ranges of the next byte these are all beyond ASCII and all
characters (`State.Wide`): a longer form of an ASCII character is never completed, and neither is
a surrogate. So an ASCII character of the decoded text is a byte of the string
(`mem_of_mem_lossy`), whatever stands around it.

Each character and each broken piece takes a byte, so a decoded text has no more characters than the
string has bytes (`length_lossy_le`).
-/

namespace OffsetService.Utf8

namespace State

/-- The smallest number that `owed` bytes after one from `low` on can complete. -/
def least (owed : Nat) (low : UInt8) (bits : Nat) : Nat :=
  (64 * bits + (low.toNat - 0x80)) * 64 ^ owed

/-- A bound of the numbers that `owed` bytes after one up to `high` can complete. -/
def bound (owed : Nat) (high : UInt8) (bits : Nat) : Nat :=
  (64 * bits + (high.toNat - 0x80) + 1) * 64 ^ owed

/-- Every number that can be completed here is a character beyond ASCII. -/
def Wide : State → Prop
  | .between => True
  | .inside owed low high bits =>
    0x80 ≤ low.toNat ∧ 0x80 ≤ least owed low bits ∧
      (bound owed high bits ≤ 0xD800 ∨ 0xE000 ≤ least owed low bits ∧
        bound owed high bits ≤ 0x110000)

end State

/-! ## One byte -/

/-- The first byte of a character leaves out what has a shorter form, surrogates, and numbers that
are too large. -/
theorem wide_first (b : UInt8) : (first b).2.Wide := by
  have hb : b.toNat < 256 := b.toNat_lt
  unfold first
  simp only [UInt8.lt_iff_toNat_lt, ← UInt8.toNat_inj, UInt8.reduceToNat]
  repeat' split
  all_goals
    simp only [State.Wide, State.least, State.bound, UInt8.reduceToNat]
    try omega

/-- Each byte leaves fewer characters that can be completed. -/
theorem wide_step {s : State} (h : s.Wide) (b : UInt8) : (step s b).2.Wide := by
  cases s with
  | between => exact wide_first b
  | inside owed low high bits =>
    obtain ⟨hlow, hleast, hbound⟩ := h
    simp only [step]
    split
    next hrange =>
      cases owed with
      | zero => trivial
      | succ owed =>
        have hl : low.toNat ≤ b.toNat := UInt8.le_iff_toNat_le.1 hrange.1
        have hh : b.toNat ≤ high.toNat := UInt8.le_iff_toNat_le.1 hrange.2
        have hleast' : State.least (owed + 1) low bits
            ≤ State.least owed 0x80 (64 * bits + (b.toNat - 0x80)) := by
          unfold State.least
          rw [Nat.pow_succ', ← Nat.mul_assoc]
          apply Nat.mul_le_mul_right
          simp only [UInt8.reduceToNat]
          omega
        have hbound' : State.bound owed 0xBF (64 * bits + (b.toNat - 0x80))
            ≤ State.bound (owed + 1) high bits := by
          unfold State.bound
          rw [Nat.pow_succ', ← Nat.mul_assoc]
          apply Nat.mul_le_mul_right
          simp only [UInt8.reduceToNat]
          omega
        refine ⟨Nat.le_refl _, Nat.le_trans hleast hleast', ?_⟩
        rcases hbound with hbelow | ⟨habove, hbelow⟩
        · exact .inl (Nat.le_trans hbound' hbelow)
        · exact .inr ⟨Nat.le_trans habove hleast', Nat.le_trans hbound' hbelow⟩
    next => exact wide_first b

theorem toNat_ofNat_char {n : Nat} (h : n.isValidChar) : (Char.ofNat n).toNat = n := by
  unfold Char.ofNat
  rw [dif_pos h]
  rfl

/-- An ASCII byte is the character that it completes. -/
theorem eq_of_mem_first {b : UInt8} {c : Char} (h : some c ∈ (first b).1) :
    UInt8.ofNat c.toNat = b := by
  unfold first at h
  split at h
  next hascii =>
    obtain rfl : c = Char.ofNat b.toNat := by simpa using h
    have hlt : b.toNat < 0x80 := UInt8.lt_iff_toNat_lt.1 hascii
    rw [toNat_ofNat_char (.inl (by omega)), UInt8.ofNat_toNat]
  next =>
    -- no other byte completes a character by itself
    exfalso
    revert h
    repeat' split
    all_goals simp

/-- A byte that completes an ASCII character is that character. -/
theorem eq_of_mem_step {s : State} (wide : s.Wide) {b : UInt8} {c : Char}
    (h : some c ∈ (step s b).1) (ascii : c.toNat < 0x80) : UInt8.ofNat c.toNat = b := by
  cases s with
  | between => exact eq_of_mem_first h
  | inside owed low high bits =>
    obtain ⟨hlow, hleast, hbound⟩ := wide
    simp only [step] at h
    split at h
    next hrange =>
      exfalso
      cases owed with
      | succ owed => cases h
      | zero =>
        have hc : c = Char.ofNat (64 * bits + (b.toNat - 0x80)) :=
          Option.some.inj (List.mem_singleton.1 h)
        have hl : low.toNat ≤ b.toNat := UInt8.le_iff_toNat_le.1 hrange.1
        have hh : b.toNat ≤ high.toNat := UInt8.le_iff_toNat_le.1 hrange.2
        simp only [State.least, State.bound, Nat.pow_zero, Nat.mul_one] at hleast hbound
        rw [hc, toNat_ofNat_char (by unfold Nat.isValidChar; omega)] at ascii
        omega
    next =>
      rcases List.mem_cons.1 h with hbroken | hfirst
      · cases hbroken
      · exact eq_of_mem_first hfirst

/-! ## Texts -/

theorem mem_of_mem_scan {s : State} (wide : s.Wide) {out : List (Option Char)} {bytes : Bytes}
    {c : Char} (h : some c ∈ (scan (s, out) bytes).2) (ascii : c.toNat < 0x80) :
    some c ∈ out ∨ UInt8.ofNat c.toNat ∈ bytes := by
  induction bytes generalizing s out with
  | nil => exact .inl h
  | cons b rest ih =>
    rcases ih (wide_step wide b) h with hout | hrest
    · rcases List.mem_append.1 hout with hnew | hold
      · right
        rw [eq_of_mem_step wide (List.mem_reverse.1 hnew) ascii]
        exact List.mem_cons_self
      · exact .inl hold
    · exact .inr (List.mem_cons_of_mem _ hrest)

/-- The end of a text completes no character. -/
theorem mem_of_mem_close {scanned : State × List (Option Char)} {c : Char}
    (h : some c ∈ close scanned) : some c ∈ scanned.2 := by
  obtain ⟨state, out⟩ := scanned
  cases state with
  | between => exact List.mem_reverse.1 h
  | inside owed low high bits =>
    rcases List.mem_cons.1 (List.mem_reverse.1 h) with hbroken | hout
    · cases hbroken
    · exact hout

/-- An ASCII character of a decoded text is one of its bytes. -/
theorem mem_of_mem_lossy {bytes : Bytes} {c : Char} (h : c ∈ (lossy bytes).toList)
    (ascii : c.toNat < 0x80) : UInt8.ofNat c.toNat ∈ bytes := by
  rw [lossy, String.toList_ofList] at h
  obtain ⟨unit, hunit, rfl⟩ := List.mem_map.1 h
  cases unit with
  | none =>
    -- the replacement of a broken piece is no ASCII character
    exact absurd ascii (by decide)
  | some c =>
    rcases mem_of_mem_scan (s := .between) trivial (mem_of_mem_close hunit) ascii with hout | hmem
    · cases hout
    · exact hmem

/-! ## Lengths -/

/-- How many units the bytes read so far are owed. -/
def State.pending : State → Nat
  | .between => 0
  | .inside .. => 1

theorem first_pending (b : UInt8) : (first b).1.length + (first b).2.pending = 1 := by
  unfold first
  repeat' split
  all_goals rfl

theorem step_pending (s : State) (b : UInt8) :
    (step s b).1.length + (step s b).2.pending ≤ s.pending + 1 := by
  have hfirst := first_pending b
  cases s with
  | between => exact Nat.le_of_eq hfirst
  | inside owed low high bits =>
    simp only [step]
    split
    · cases owed with
      | zero => exact Nat.le_succ 1
      | succ owed => exact Nat.le_succ 1
    · show (none :: (first b).1).length + (first b).2.pending ≤ 1 + 1
      rw [List.length_cons]
      omega

theorem length_scan_le (s : State) (out : List (Option Char)) (bytes : Bytes) :
    (scan (s, out) bytes).2.length + (scan (s, out) bytes).1.pending
      ≤ out.length + s.pending + bytes.length := by
  induction bytes generalizing s out with
  | nil => exact Nat.le_refl _
  | cons b rest ih =>
    have hstep := step_pending s b
    have hrest := ih (step s b).2 ((step s b).1.reverse ++ out)
    rw [List.length_append, List.length_reverse] at hrest
    rw [List.length_cons]
    have hscan : scan (s, out) (b :: rest)
        = scan ((step s b).2, (step s b).1.reverse ++ out) rest := rfl
    rw [hscan]
    omega

theorem length_close (scanned : State × List (Option Char)) :
    (close scanned).length = scanned.2.length + scanned.1.pending := by
  obtain ⟨state, out⟩ := scanned
  cases state <;> simp [close, State.pending]

/-- A decoded text has no more characters than the string has bytes. -/
theorem length_lossy_le (bytes : Bytes) : (lossy bytes).toList.length ≤ bytes.length := by
  have hscan := length_scan_le .between [] bytes
  rw [lossy, String.toList_ofList, List.length_map, units, length_close]
  simpa [State.pending] using hscan

end OffsetService.Utf8
