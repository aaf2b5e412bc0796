import OffsetService.Builder
import OffsetService.Proofs.Utf8

/-!
# Sections of a built database

The label of a section is a word of four letters and the number of the section in at most four
digits (`isSome_sectionLabel?_iff`). So a builder writes a database exactly if it has at most 9999
sections (`isSome_build?_iff`), and the addresses that are read from the section headers are those
that were written there (`sectionsOf_sectionStream`).
-/

namespace OffsetService

open Builder

/-! ## Labels -/

namespace Builder

theorem toNat_lt_of_mem_label {number : Nat} {c : Char} (h : c ∈ s!".sec{number}".toList) :
    c.toNat < 0x80 := by
  have hword : ∀ c ∈ ".sec".toList, c.toNat < 0x80 := by simp
  rcases List.mem_append.1 (String.toList_append ▸ h) with hletter | hdigit
  · exact hword c hletter
  · have hdecimal := Nat.isDigit_of_mem_toDigits (by decide) (by decide)
      (Nat.toList_repr ▸ hdigit : c ∈ Nat.toDigits 10 number)
    rw [Char.isDigit, Bool.and_eq_true, decide_eq_true_iff, decide_eq_true_iff] at hdecimal
    exact Nat.lt_of_le_of_lt (UInt32.le_iff_toNat_le.1 hdecimal.2) (by decide)

theorem length_label (number : Nat) :
    (Utf8.encode s!".sec{number}").length = 4 + (Nat.toDigits 10 number).length := by
  rw [Utf8.length_encode_of_ascii fun c => toNat_lt_of_mem_label]
  show (".sec" ++ Nat.repr number).toList.length = _
  rw [String.toList_append, List.length_append, Nat.toList_repr]
  rfl

theorem isSome_sectionLabel?_iff (number : Nat) :
    (sectionLabel? number).isSome ↔ number < 10000 := by
  have hdigits : (Nat.toDigits 10 number).length ≤ 4 ↔ number < 10 ^ 4 :=
    Nat.length_toDigits_le_iff (by decide) (by decide)
  have hfits : (Utf8.encode s!".sec{number}").length ≤ 8 ↔ number < 10000 := by
    rw [length_label]
    omega
  rw [sectionLabel?]
  split
  next hroom => exact iff_of_true rfl (hfits.1 hroom)
  next hlong => exact iff_of_false Bool.false_ne_true fun h => hlong (hfits.2 h)

theorem length_sectionLabel? {number : Nat} {label : Bytes}
    (h : sectionLabel? number = some label) : label.length = 8 := by
  rw [sectionLabel?] at h
  split at h
  next hroom =>
    cases h
    rw [List.length_append, List.length_replicate]
    omega
  next => cases h

/-! ## Headers -/

theorem isSome_sectionHeaders?_cons (number : Nat) (address : UInt32) (addresses : List UInt32) :
    (sectionHeaders? number (address :: addresses)).isSome
      ↔ (sectionLabel? number).isSome ∧ (sectionHeaders? (number + 1) addresses).isSome := by
  rw [sectionHeaders?, sectionHeader?]
  cases sectionLabel? number <;> cases sectionHeaders? (number + 1) addresses <;> simp

theorem isSome_sectionHeaders?_iff (number : Nat) (addresses : List UInt32) :
    (sectionHeaders? number addresses).isSome
      ↔ addresses.length = 0 ∨ number + addresses.length ≤ 10000 := by
  induction addresses generalizing number with
  | nil => exact iff_of_true rfl (.inl rfl)
  | cons address addresses ih =>
    rw [isSome_sectionHeaders?_cons, isSome_sectionLabel?_iff, ih, List.length_cons]
    omega

/-- A builder writes a database exactly if the number of its last section has four digits. -/
theorem isSome_build?_iff (b : Builder) : b.build?.isSome ↔ b.sections.size ≤ 9999 := by
  rw [build?, Option.isSome_map, sectionStream?, isSome_sectionHeaders?_iff, Array.length_toList]
  omega

/-- What a builder with few sections writes. -/
theorem exists_build? {b : Builder} (h : b.sections.size ≤ 9999) :
    ∃ sections, b.sectionStream? = some sections ∧
      b.build? = some (Container.write (b.streams sections)) := by
  obtain ⟨file, hfile⟩ := Option.isSome_iff_exists.1 ((isSome_build?_iff b).2 h)
  obtain ⟨sections, hsections, rfl⟩ := Option.map_eq_some_iff.1 hfile
  exact ⟨sections, hsections, hfile⟩

theorem exists_sectionHeader? {number : Nat} {address : UInt32} {header : Bytes}
    (h : sectionHeader? number address = some header) :
    ∃ before after, before.length = 12 ∧ after.length = 24 ∧
      header = before ++ (Bytes.word 4 address.toNat ++ after) := by
  obtain ⟨label, hlabel, rfl⟩ := Option.map_eq_some_iff.1 h
  refine ⟨label ++ Bytes.word 4 0x1000, List.replicate 20 0 ++ Bytes.word 4 0x40000040, ?_, rfl, ?_⟩
  · rw [List.length_append, length_sectionLabel? hlabel, Bytes.length_word]
  · simp only [List.append_assoc]

theorem length_sectionHeader? {number : Nat} {address : UInt32} {header : Bytes}
    (h : sectionHeader? number address = some header) :
    header.length = AddressMap.sectionHeaderSize := by
  obtain ⟨before, after, hbefore, hafter, rfl⟩ := exists_sectionHeader? h
  rw [List.length_append, List.length_append, hbefore, hafter, Bytes.length_word]
  rfl

theorem length_sectionHeaders? {number : Nat} {addresses : List UInt32} {stream : Bytes}
    (h : sectionHeaders? number addresses = some stream) :
    stream.length = AddressMap.sectionHeaderSize * addresses.length := by
  induction addresses generalizing number stream with
  | nil =>
    cases h
    rfl
  | cons address addresses ih =>
    obtain ⟨header, hheader, h⟩ := Option.bind_eq_some_iff.1 h
    obtain ⟨rest, hrest, h⟩ := Option.bind_eq_some_iff.1 h
    cases h
    rw [List.length_append, length_sectionHeader? hheader, ih hrest, List.length_cons, Nat.mul_succ,
      Nat.add_comm]

end Builder

/-! ## Reading -/

namespace DebugHeader

theorem field_append {before value after : Bytes} {offset width : Nat}
    (hoffset : before.length = offset) (hwidth : value.length = width) :
    field (before ++ (value ++ after)) offset width = Bytes.littleEndian value := by
  subst hoffset hwidth
  rw [field, List.drop_left, List.take_left]

end DebugHeader

namespace AddressMap

theorem field_sectionHeader? {number : Nat} {address : UInt32} {header : Bytes}
    (h : sectionHeader? number address = some header) :
    DebugHeader.field header 12 4 = address.toNat := by
  obtain ⟨before, after, hbefore, -, rfl⟩ := exists_sectionHeader? h
  rw [DebugHeader.field_append hbefore (Bytes.length_word 4 _), Bytes.littleEndian_word]
  exact Nat.mod_eq_of_lt address.toNat_lt

theorem takeSections_sectionHeaders? {number : Nat} {addresses : List UInt32} {stream : Bytes}
    (h : sectionHeaders? number addresses = some stream) {fuel : Nat} (hfuel : stream.length < fuel)
    (found : List UInt32) : takeSections fuel found stream = .ok (found.reverse ++ addresses) := by
  induction addresses generalizing number stream fuel found with
  | nil =>
    cases h
    obtain ⟨fuel, rfl⟩ : ∃ n, fuel = n + 1 := ⟨fuel - 1, by omega⟩
    rw [List.append_nil]
    rfl
  | cons address addresses ih =>
    obtain ⟨header, hheader, h⟩ := Option.bind_eq_some_iff.1 h
    obtain ⟨rest, hrest, h⟩ := Option.bind_eq_some_iff.1 h
    cases h
    have hlength := length_sectionHeader? hheader
    have hpositive : 0 < sectionHeaderSize := by decide
    have hnonempty : (header ++ rest).isEmpty = false :=
      List.isEmpty_eq_false_iff.2 <| List.ne_nil_of_length_pos <| by
        rw [List.length_append, hlength]
        omega
    have hchop : Bytes.chop? sectionHeaderSize (header ++ rest) = some (header, rest) := by
      rw [← hlength, Bytes.chop?_append]
    rw [List.length_append, hlength] at hfuel
    obtain ⟨fuel, rfl⟩ : ∃ n, fuel = n + 1 := ⟨fuel - 1, by omega⟩
    rw [takeSections, hnonempty, if_neg Bool.false_ne_true, hchop]
    dsimp only
    rw [field_sectionHeader? hheader, Nat.toUInt32_eq, UInt32.ofNat_toNat, ih hrest (by omega),
      List.reverse_cons, List.append_assoc, List.singleton_append]

theorem sectionsOf_sectionStream {b : Builder} {sections : Bytes}
    (h : b.sectionStream? = some sections) : sectionsOf sections = .ok b.sections.toList :=
  takeSections_sectionHeaders? h (Nat.lt_succ_self _) []

end AddressMap

end OffsetService
