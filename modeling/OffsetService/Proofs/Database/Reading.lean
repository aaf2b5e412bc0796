import OffsetService.Numeric

/-!
# Reading back what was written

A decoder `Reads` a value from some bytes when it takes exactly these bytes off the front, whatever
follows them, and gives the value. Sequences of decoders read sequences of fields (`Reads.bind`), so
that a record is read field by field in the order in which it was written. A numeric leaf is read
back as the number it was written for, unsigned (`reads_encodeUnsigned`) or signed
(`exists_reads_encodeSigned`).
-/

namespace OffsetService

namespace Decoder

variable {α β : Type} {d : Decoder α} {f : α → Decoder β} {written more : Bytes} {a : α} {b : β}

theorem bind_of_ok {data rest : Bytes} (h : d data = .ok (a, rest)) :
    (d >>= f) data = f a rest := by
  show (d data >>= fun p => f p.1 p.2) = _
  rw [h]
  rfl

/-- The decoder takes exactly the written bytes off the front and gives `a`. -/
def Reads (d : Decoder α) (written : Bytes) (a : α) : Prop :=
  ∀ rest, d (written ++ rest) = .ok (a, rest)

theorem Reads.pure (a : α) : Reads (Pure.pure a) [] a :=
  fun _ => rfl

theorem Reads.bind (hd : Reads d written a) (hf : Reads (f a) more b) :
    Reads (d >>= f) (written ++ more) b := by
  intro rest
  rw [List.append_assoc, bind_of_ok (hd (more ++ rest))]
  exact hf rest

/-- The last field of a record. -/
theorem Reads.last (hd : Reads d written a) (hf : f a = Pure.pure b) :
    Reads (d >>= f) written b := by
  intro rest
  rw [bind_of_ok (hd rest), hf]
  rfl

theorem Reads.discard (hd : Reads d written a) : Reads (Functor.discard d) written () := by
  intro rest
  show (d (written ++ rest) >>= fun p => Except.ok ((), p.2)) = _
  rw [hd]
  rfl

/-! ## Words -/

theorem reads_take {head : Bytes} {n : Nat} (h : head.length = n) : Reads (take n) head head := by
  intro rest
  subst h
  simp only [take, Bytes.chop?_append]

theorem reads_number {width n : Nat} (h : n < Bytes.capacity width) :
    Reads (number width) (Bytes.word width n) n := by
  have hn : Bytes.littleEndian (Bytes.word width n) = n := by
    rw [Bytes.littleEndian_word, Nat.mod_eq_of_lt h]
  refine (reads_take (Bytes.length_word width n)).last ?_
  rw [hn]

theorem reads_byte (v : UInt8) : Reads byte (Bytes.word 1 v.toNat) v := by
  refine (reads_number v.toNat_lt).last ?_
  rw [Nat.toUInt8_eq, UInt8.ofNat_toNat]

theorem reads_half (v : UInt16) : Reads half (Bytes.word 2 v.toNat) v := by
  refine (reads_number v.toNat_lt).last ?_
  rw [Nat.toUInt16_eq, UInt16.ofNat_toNat]

theorem reads_word (v : UInt32) : Reads word (Bytes.word 4 v.toNat) v := by
  refine (reads_number v.toNat_lt).last ?_
  rw [Nat.toUInt32_eq, UInt32.ofNat_toNat]

theorem reads_double (v : UInt64) : Reads double (Bytes.word 8 v.toNat) v := by
  refine (reads_number v.toNat_lt).last ?_
  rw [Nat.toUInt64_eq, UInt64.ofNat_toNat]

theorem reads_terminatedName {text : Bytes} (h : 0 ∉ text) :
    Reads terminatedName (text ++ [0]) text := by
  intro rest
  have := Bytes.terminated?_append h rest
  simp only [terminatedName, List.append_assoc, List.singleton_append, this]

end Decoder

/-! ## Numeric leaves -/

namespace NumericLeaf

open Decoder

theorem narrow_half {v : UInt64} (h : v < 0x10000) :
    v.toUInt16.toNat = v.toNat ∧ v.toUInt16.toUInt64 = v := by
  have hnat : v.toUInt16.toNat = v.toNat := by
    rw [UInt64.toNat_toUInt16]
    exact Nat.mod_eq_of_lt h
  refine ⟨hnat, UInt64.toNat.inj ?_⟩
  rw [UInt16.toNat_toUInt64, hnat]

theorem narrow_word {v : UInt64} (h : v < 0x100000000) :
    v.toUInt32.toNat = v.toNat ∧ v.toUInt32.toUInt64 = v := by
  have hnat : v.toUInt32.toNat = v.toNat := by
    rw [UInt64.toNat_toUInt32]
    exact Nat.mod_eq_of_lt h
  refine ⟨hnat, UInt64.toNat.inj ?_⟩
  rw [UInt32.toNat_toUInt64, hnat]

/-- A number below the marks is its own mark. -/
theorem narrow_plain {v : UInt64} (h : v < 0x8000) :
    v.toUInt16 < 0x8000 ∧ v.toUInt16.toNat = v.toNat ∧ v.toUInt16.toUInt64 = v := by
  have hv : v.toNat < 0x8000 := h
  obtain ⟨hnat, hwide⟩ := narrow_half (v := v) (show v.toNat < 0x10000 by omega)
  refine ⟨?_, hnat, hwide⟩
  rw [UInt16.lt_iff_toNat_lt, hnat]
  exact hv

theorem reads_encodeUnsigned (v : UInt64) : Reads readUnsigned (encodeUnsigned v) v := by
  unfold encodeUnsigned
  split
  next h =>
    obtain ⟨hplain, hnat, hwide⟩ := narrow_plain h
    rw [← hnat]
    refine (reads_half v.toUInt16).last ?_
    rw [if_pos hplain, hwide]
  next =>
    split
    next h =>
      obtain ⟨hnat, hwide⟩ := narrow_half h
      refine (reads_half markUnsignedShort).bind ?_
      show Reads (do return (← half).toUInt64) _ v
      rw [← hnat]
      refine (reads_half v.toUInt16).last ?_
      rw [hwide]
    next =>
      split
      next h =>
        obtain ⟨hnat, hwide⟩ := narrow_word h
        refine (reads_half markUnsignedLong).bind ?_
        show Reads (do return (← word).toUInt64) _ v
        rw [← hnat]
        refine (reads_word v.toUInt32).last ?_
        rw [hwide]
      next =>
        refine (reads_half markUnsignedQuad).bind ?_
        show Reads double _ v
        exact reads_double v

/-- A number written as unsigned may be read as any leaf. -/
theorem exists_reads_encodeUnsigned (v : UInt64) :
    ∃ leaf, Reads read (encodeUnsigned v) leaf ∧ leaf.widen = v.toInt64 := by
  unfold encodeUnsigned
  split
  next h =>
    obtain ⟨hplain, hnat, hwide⟩ := narrow_plain h
    refine ⟨.u16 v.toUInt16, ?_, congrArg UInt64.toInt64 hwide⟩
    rw [← hnat]
    refine (reads_half v.toUInt16).last ?_
    rw [if_pos hplain]
  next =>
    split
    next h =>
      obtain ⟨hnat, hwide⟩ := narrow_half h
      refine ⟨.u16 v.toUInt16, ?_, congrArg UInt64.toInt64 hwide⟩
      refine (reads_half markUnsignedShort).bind ?_
      show Reads (do return NumericLeaf.u16 (← half)) _ _
      rw [← hnat]
      exact (reads_half v.toUInt16).last rfl
    next =>
      split
      next h =>
        obtain ⟨hnat, hwide⟩ := narrow_word h
        refine ⟨.u32 v.toUInt32, ?_, congrArg UInt64.toInt64 hwide⟩
        refine (reads_half markUnsignedLong).bind ?_
        show Reads (do return NumericLeaf.u32 (← word)) _ _
        rw [← hnat]
        exact (reads_word v.toUInt32).last rfl
      next =>
        refine ⟨.u64 v, (reads_half markUnsignedQuad).bind ?_, rfl⟩
        show Reads (do return NumericLeaf.u64 (← double)) _ _
        exact (reads_double v).last rfl

theorem toInt64_toInt16 {v : Int64} (hneg : ¬0 ≤ v) (h : -0x8000 ≤ v) :
    v.toInt16.toInt64 = v := by
  have hlow : -0x8000 ≤ v.toInt := Int64.le_iff_toInt_le.1 h
  have hhigh : ¬0 ≤ v.toInt := fun hpos => hneg (Int64.le_iff_toInt_le.2 hpos)
  apply Int64.toInt_inj.1
  rw [Int16.toInt_toInt64, Int64.toInt_toInt16]
  exact Int.bmod_eq_of_le (by omega) (by omega)

theorem toInt64_toInt32 {v : Int64} (hneg : ¬0 ≤ v) (h : -0x80000000 ≤ v) :
    v.toInt32.toInt64 = v := by
  have hlow : -0x80000000 ≤ v.toInt := Int64.le_iff_toInt_le.1 h
  have hhigh : ¬0 ≤ v.toInt := fun hpos => hneg (Int64.le_iff_toInt_le.2 hpos)
  apply Int64.toInt_inj.1
  rw [Int32.toInt_toInt64, Int64.toInt_toInt32]
  exact Int.bmod_eq_of_le (by omega) (by omega)

theorem exists_reads_encodeSigned (v : Int64) :
    ∃ leaf, Reads read (encodeSigned v) leaf ∧ leaf.widen = v := by
  unfold encodeSigned
  split
  next =>
    obtain ⟨leaf, hread, hwide⟩ := exists_reads_encodeUnsigned v.toUInt64
    exact ⟨leaf, hread, hwide⟩
  next hneg =>
    split
    next h =>
      refine ⟨.i16 v.toInt16, (reads_half markShort).bind ?_, ?_⟩
      · show Reads (do return NumericLeaf.i16 (← half).toInt16) _ _
        exact (reads_half v.toInt16.toUInt16).last rfl
      · exact toInt64_toInt16 hneg h
    next =>
      split
      next h =>
        refine ⟨.i32 v.toInt32, (reads_half markLong).bind ?_, ?_⟩
        · show Reads (do return NumericLeaf.i32 (← word).toInt32) _ _
          exact (reads_word v.toInt32.toUInt32).last rfl
        · exact toInt64_toInt32 hneg h
      next =>
        refine ⟨.i64 v, (reads_half markQuad).bind ?_, rfl⟩
        show Reads (do return NumericLeaf.i64 (← double).toInt64) _ _
        exact (reads_double v.toUInt64).last rfl

end NumericLeaf

end OffsetService
