import OffsetService.Proofs.Database.Reading
import OffsetService.Proofs.Widths

/-!
# The shortest leaf

A number is written in a leaf of two, four, six or ten bytes, and `leafSize` says in which: the size
depends on the number alone, whether it is written as an unsigned number (`length_encodeUnsigned`)
or as a signed one (`length_encodeSigned`). Every leaf that can be read has one of the `forms`, each
of which takes a fixed number of bytes and holds a range of numbers (`hasForm_of_read`). No form
that holds a number is smaller than the leaf that is written for it (`leafSize_le_of_holds`), so
what is written is the shortest leaf there is (`leaves_exact_and_shortest`).
-/

namespace OffsetService

/-! ## Bytes that are taken -/

namespace Decoder

variable {α β : Type} {d : Decoder β} {f : β → Decoder α} {data rest : Bytes} {a : α} {n : Nat}

theorem bind_eq_ok_iff : (d >>= f) data = .ok (a, rest) ↔
    ∃ b middle, d data = .ok (b, middle) ∧ f b middle = .ok (a, rest) := by
  constructor
  · intro h
    change (d data >>= fun read => f read.1 read.2) = .ok (a, rest) at h
    cases hfirst : d data with
    | error defect =>
      rw [hfirst] at h
      cases h
    | ok read =>
      rw [hfirst] at h
      exact ⟨read.1, read.2, rfl, h⟩
  · rintro ⟨b, middle, hfirst, h⟩
    rw [bind_of_ok hfirst, h]

/-- The decoder takes this many bytes when it gives anything. -/
def Takes (n : Nat) (d : Decoder α) : Prop :=
  ∀ data a rest, d data = .ok (a, rest) → data.length = n + rest.length

theorem takes_take (n : Nat) : Takes n (take n) := by
  intro data head rest h
  rw [take] at h
  cases hchop : data.chop? n with
  | none =>
    rw [hchop] at h
    cases h
  | some parts =>
    rw [hchop] at h
    cases h
    obtain ⟨rfl, hlength⟩ := Bytes.chop?_eq_some_iff.1 hchop
    rw [List.length_append, hlength]

/-- What is made of a field takes the bytes of the field. -/
theorem Takes.bind_pure (hd : Takes n d) (g : β → α) : Takes n (d >>= fun b => pure (g b)) := by
  intro data a rest h
  obtain ⟨b, middle, hfirst, hpure⟩ := bind_eq_ok_iff.1 h
  cases hpure
  exact hd data b rest hfirst

theorem takes_number (width : Nat) : Takes width (number width) :=
  (takes_take width).bind_pure _

theorem takes_byte : Takes 1 byte := (takes_number 1).bind_pure _

theorem takes_half : Takes 2 half := (takes_number 2).bind_pure _

theorem takes_word : Takes 4 word := (takes_number 4).bind_pure _

theorem takes_double : Takes 8 double := (takes_number 8).bind_pure _

end Decoder

namespace NumericLeaf

open Decoder

/-! ## Forms -/

/-- A form of a leaf: the bytes that it takes, its mark included, and the range of the numbers that
it can hold. -/
structure Form where
  size : Nat
  least : Int
  most : Int
  deriving DecidableEq

/-- The form can hold a number. -/
def Form.Holds (form : Form) (v : Int) : Prop :=
  form.least ≤ v ∧ v ≤ form.most

/-- The forms that are read: the plain word, the byte, and the signed and unsigned leaves of two,
four and eight bytes. All but the byte are also written. -/
def forms : List Form :=
  [⟨2, 0, 0x7FFF⟩, ⟨3, 0, 0xFF⟩, ⟨4, -0x8000, 0x7FFF⟩, ⟨4, 0, 0xFFFF⟩,
    ⟨6, -0x80000000, 0x7FFFFFFF⟩, ⟨6, 0, 0xFFFFFFFF⟩,
    ⟨10, -0x8000000000000000, 0x7FFFFFFFFFFFFFFF⟩, ⟨10, 0, 0xFFFFFFFFFFFFFFFF⟩]

/-- The bytes that the written leaf of a number takes. -/
def leafSize (v : Int) : Nat :=
  if 0 ≤ v ∧ v ≤ 0x7FFF then 2
  else if -0x8000 ≤ v ∧ v ≤ 0xFFFF then 4
  else if -0x80000000 ≤ v ∧ v ≤ 0xFFFFFFFF then 6
  else 10

theorem leafSize_le (v : Int) : leafSize v ≤ 10 := by
  unfold leafSize
  repeat' split
  all_goals omega

/-- No form that holds a number is smaller than the leaf that is written for it. -/
theorem leafSize_le_of_holds {form : Form} (hform : form ∈ forms) {v : Int} (h : form.Holds v) :
    leafSize v ≤ form.size := by
  obtain ⟨hleast, hmost⟩ := h
  simp only [forms, List.mem_cons, List.not_mem_nil, or_false] at hform
  rcases hform with rfl | rfl | rfl | rfl | rfl | rfl | rfl | rfl <;>
  · simp only [leafSize] at hleast hmost ⊢
    repeat' split
    all_goals omega

/-! ## Lengths of written leaves -/

theorem length_marked (mark : UInt16) (width value : Nat) :
    (marked mark width value).length = 2 + width := by
  rw [marked, List.length_append, Bytes.length_word, Bytes.length_word]

theorem length_encodeUnsigned (n : UInt64) : (encodeUnsigned n).length = leafSize n.toNat := by
  have hplain : n < 0x8000 ↔ n.toNat < 0x8000 := UInt64.lt_iff_toNat_lt
  have hshort : n < 0x10000 ↔ n.toNat < 0x10000 := UInt64.lt_iff_toNat_lt
  have hlong : n < 0x100000000 ↔ n.toNat < 0x100000000 := UInt64.lt_iff_toNat_lt
  simp only [encodeUnsigned, hplain, hshort, hlong, leafSize]
  repeat' split
  all_goals first
    | omega
    | simp only [length_marked, Bytes.length_word]

theorem length_encodeSigned (v : Int64) : (encodeSigned v).length = leafSize v.toInt := by
  have hsign : 0 ≤ v ↔ 0 ≤ v.toInt := Int64.le_iff_toInt_le
  have hshort : -0x8000 ≤ v ↔ -0x8000 ≤ v.toInt := Int64.le_iff_toInt_le
  have hlong : -0x80000000 ≤ v ↔ -0x80000000 ≤ v.toInt := Int64.le_iff_toInt_le
  simp only [encodeSigned, hsign, hshort, hlong]
  split
  next hpos =>
    have hvalue : (v.toUInt64.toNat : Int) = v.toInt := by
      rw [Int64.toNat_toUInt64_of_le (hsign.2 hpos)]
      exact Int.toNat_of_nonneg hpos
    rw [length_encodeUnsigned, hvalue]
  next hneg =>
    rw [leafSize]
    repeat' split
    all_goals first
      | omega
      | simp only [length_marked]

/-! ## Forms of leaves that are read -/

/-- Some form takes the bytes between two places of a record and holds this number. -/
def HasForm (data rest : Bytes) (v : Int) : Prop :=
  ∃ form ∈ forms, data.length = form.size + rest.length ∧ form.Holds v

theorem holds_natCast {size bound n : Nat} (h : n < bound + 1) : Form.Holds ⟨size, 0, bound⟩ n :=
  ⟨Int.natCast_nonneg n, Int.ofNat_le.2 (Nat.le_of_lt_succ h)⟩

/-- A leaf that is a mark and a field of fixed width behind it has the form that its field fills. -/
theorem hasForm_of_field {β : Type} {d : Decoder β} {g : β → NumericLeaf} {width : Nat}
    {data middle rest : Bytes} {leaf : NumericLeaf} (form : Form) (hd : Takes width d)
    (hmark : data.length = 2 + middle.length) (hform : form ∈ forms)
    (hsize : form.size = 2 + width) (hholds : ∀ b, form.Holds (g b).value)
    (h : (d >>= fun b => pure (g b)) middle = .ok (leaf, rest)) :
    HasForm data rest leaf.value := by
  obtain ⟨b, last, hread, hpure⟩ := bind_eq_ok_iff.1 h
  have hlength := hd middle b last hread
  cases hpure
  exact ⟨form, hform, by omega, hholds b⟩

theorem hasForm_of_read {data rest : Bytes} {leaf : NumericLeaf}
    (h : read data = .ok (leaf, rest)) : HasForm data rest leaf.value := by
  obtain ⟨mark, middle, hmark, hleaf⟩ := bind_eq_ok_iff.1 h
  have hmarked : data.length = 2 + middle.length := takes_half data mark middle hmark
  -- a case for each mark, in the order in which they are tried
  split at hleaf
  next hplain =>
    cases hleaf
    have hvalue : mark.toNat < 0x8000 := hplain
    refine ⟨⟨2, 0, 0x7FFF⟩, by decide, hmarked, Int.natCast_nonneg _, ?_⟩
    show (mark.toNat : Int) ≤ 0x7FFF
    omega
  next =>
  split at hleaf
  next =>
    refine hasForm_of_field ⟨3, 0, 0xFF⟩ takes_byte hmarked (by decide) rfl ?_ hleaf
    exact fun v => holds_natCast v.toNat_lt
  next =>
  split at hleaf
  next =>
    refine hasForm_of_field ⟨4, -0x8000, 0x7FFF⟩ takes_half hmarked (by decide) rfl ?_ hleaf
    exact fun v => ⟨v.toInt16.le_toInt, Int.le_of_lt_add_one v.toInt16.toInt_lt⟩
  next =>
  split at hleaf
  next =>
    refine hasForm_of_field ⟨4, 0, 0xFFFF⟩ takes_half hmarked (by decide) rfl ?_ hleaf
    exact fun v => holds_natCast v.toNat_lt
  next =>
  split at hleaf
  next =>
    refine hasForm_of_field ⟨6, -0x80000000, 0x7FFFFFFF⟩ takes_word hmarked (by decide)
      rfl ?_ hleaf
    exact fun v => ⟨v.toInt32.le_toInt, Int.le_of_lt_add_one v.toInt32.toInt_lt⟩
  next =>
  split at hleaf
  next =>
    refine hasForm_of_field ⟨6, 0, 0xFFFFFFFF⟩ takes_word hmarked (by decide) rfl ?_ hleaf
    exact fun v => holds_natCast v.toNat_lt
  next =>
  split at hleaf
  next =>
    refine hasForm_of_field ⟨10, -0x8000000000000000, 0x7FFFFFFFFFFFFFFF⟩ takes_double
      hmarked (by decide) rfl ?_ hleaf
    exact fun v => ⟨v.toInt64.le_toInt, Int.le_of_lt_add_one v.toInt64.toInt_lt⟩
  next =>
  split at hleaf
  next =>
    refine hasForm_of_field ⟨10, 0, 0xFFFFFFFFFFFFFFFF⟩ takes_double hmarked (by decide)
      rfl ?_ hleaf
    exact fun v => holds_natCast v.toNat_lt
  next => cases hleaf

/-- Widening changes no number but one that takes all of 64 bits. -/
theorem toInt_widen_of_form {leaf : NumericLeaf} {form : Form} (hform : form ∈ forms)
    (h : form.Holds leaf.value) (hsmall : form.size < 10) : leaf.widen.toInt = leaf.value := by
  obtain ⟨hleast, hmost⟩ := h
  rw [toInt_widen]
  simp only [forms, List.mem_cons, List.not_mem_nil, or_false] at hform
  apply Int.bmod_eq_of_le <;>
  · rcases hform with rfl | rfl | rfl | rfl | rfl | rfl | rfl | rfl <;>
    · simp only at hleast hmost hsmall
      omega

/-! ## The two ways of reading -/

/-- What is read as an unsigned number may be read as a leaf of any kind, and is the same number. -/
theorem exists_read_of_readUnsigned {data rest : Bytes} {n : UInt64}
    (h : readUnsigned data = .ok (n, rest)) :
    ∃ leaf, read data = .ok (leaf, rest) ∧ leaf.value = n.toNat := by
  obtain ⟨mark, middle, hmark, hn⟩ := bind_eq_ok_iff.1 h
  rw [read, bind_of_ok hmark]
  split at hn
  next hplain =>
    cases hn
    exact ⟨.u16 mark, by rw [if_pos hplain]; rfl, rfl⟩
  next =>
  split at hn
  next hbyte =>
    subst hbyte
    obtain ⟨v, last, hv, hpure⟩ := bind_eq_ok_iff.1 hn
    cases hpure
    exact ⟨.u8 v, bind_eq_ok_iff.2 ⟨v, rest, hv, rfl⟩, rfl⟩
  next =>
  split at hn
  next hshort =>
    subst hshort
    obtain ⟨v, last, hv, hpure⟩ := bind_eq_ok_iff.1 hn
    cases hpure
    exact ⟨.u16 v, bind_eq_ok_iff.2 ⟨v, rest, hv, rfl⟩, rfl⟩
  next =>
  split at hn
  next hlong =>
    subst hlong
    obtain ⟨v, last, hv, hpure⟩ := bind_eq_ok_iff.1 hn
    cases hpure
    exact ⟨.u32 v, bind_eq_ok_iff.2 ⟨v, rest, hv, rfl⟩, rfl⟩
  next =>
  split at hn
  next hquad =>
    subst hquad
    exact ⟨.u64 n, bind_eq_ok_iff.2 ⟨n, rest, hn, rfl⟩, rfl⟩
  next => cases hn

/-! ## Leaves as they are written -/

/-- No leaf that is read as a number is shorter than the one that is written for it. -/
theorem leafSize_value_le {leaf : NumericLeaf} {written rest : Bytes}
    (h : read (written ++ rest) = .ok (leaf, rest)) : leafSize leaf.value ≤ written.length := by
  obtain ⟨form, hform, hlength, hholds⟩ := hasForm_of_read h
  have hsize := leafSize_le_of_holds hform hholds
  rw [List.length_append] at hlength
  omega

theorem leafSize_widen_le {leaf : NumericLeaf} {written rest : Bytes}
    (h : read (written ++ rest) = .ok (leaf, rest)) :
    leafSize leaf.widen.toInt ≤ written.length := by
  obtain ⟨form, hform, hlength, hholds⟩ := hasForm_of_read h
  rw [List.length_append] at hlength
  by_cases hsmall : form.size < 10
  · rw [toInt_widen_of_form hform hholds hsmall]
    exact leafSize_value_le h
  · have hmost := leafSize_le leaf.widen.toInt
    omega

/-- **Leaves are exact and shortest.** A number is read back from its leaf, and what follows the
leaf is left as it is: an unsigned number by both ways of reading, and a signed one when what is
read is widened. No bytes that are read as the same number, in whatever form, are fewer than those
of its leaf. -/
theorem leaves_exact_and_shortest :
    (∀ (n : UInt64) (rest : Bytes),
      readUnsigned (encodeUnsigned n ++ rest) = .ok (n, rest) ∧
      ∃ leaf, read (encodeUnsigned n ++ rest) = .ok (leaf, rest) ∧ leaf.value = n.toNat) ∧
    (∀ (v : Int64) (rest : Bytes),
      ∃ leaf, read (encodeSigned v ++ rest) = .ok (leaf, rest) ∧ leaf.widen = v) ∧
    ∀ (written rest : Bytes) (leaf : NumericLeaf), read (written ++ rest) = .ok (leaf, rest) →
      (∀ n : UInt64, leaf.value = n.toNat → (encodeUnsigned n).length ≤ written.length) ∧
      ∀ v : Int64, leaf.widen = v → (encodeSigned v).length ≤ written.length := by
  refine ⟨fun n rest => ?_, fun v rest => ?_, fun written rest leaf h => ⟨fun n hn => ?_,
    fun v hv => ?_⟩⟩
  · have hread := reads_encodeUnsigned n rest
    exact ⟨hread, exists_read_of_readUnsigned hread⟩
  · obtain ⟨leaf, hread, hwide⟩ := exists_reads_encodeSigned v
    exact ⟨leaf, hread rest, hwide⟩
  · rw [length_encodeUnsigned, ← hn]
    exact leafSize_value_le h
  · rw [length_encodeSigned, ← hv]
    exact leafSize_widen_le h

/-- A long leaf is read as a number that a leaf of four bytes can hold, and is longer than that. -/
theorem leaves_exact_and_shortest_long :
    read ([0x03, 0x80, 0xFE, 0xFF, 0xFF, 0xFF] ++ [0xF1]) = .ok (.i32 (-2), [0xF1]) ∧
      (encodeSigned (-2)).length ≤ 6 := by
  have hread : read ([0x03, 0x80, 0xFE, 0xFF, 0xFF, 0xFF] ++ [0xF1])
      = .ok (.i32 (-2), [0xF1]) := by decide
  exact ⟨hread, (leaves_exact_and_shortest.2.2 _ _ _ hread).2 (-2) rfl⟩

end NumericLeaf

end OffsetService
