import OffsetService.Proofs.Image.Safety
import OffsetService.Proofs.Utf8.Cuts

/-!
# A name is cut off its path before or after decoding

A debug record holds a path as bytes, and what is wanted is the text behind the last separator. The
separators are ASCII characters, so the decoder neither swallows one nor makes one up, whatever
broken pieces stand around it: the path may be decoded whole and cut behind its last separator, or
cut behind its last separator byte and decoded from there (`fileName_cuts_path`). Either way the cut
falls between two characters.
-/

namespace OffsetService.Image

open Utf8 (units lossy)

/-! ## Paths of bytes -/

/-- A separator in UTF-8. -/
def IsSeparatorByte (b : UInt8) : Prop := b = 0x2F ∨ b = 0x5C

instance (b : UInt8) : Decidable (IsSeparatorByte b) :=
  inferInstanceAs (Decidable (b = 0x2F ∨ b = 0x5C))

/-- A path in two parts: its name, without a separator, stands behind its last separator byte, or is
all of it. -/
structure CutsInto (path folder name : Bytes) : Prop where
  parts : path = folder ++ name
  plain : ∀ b ∈ name, ¬IsSeparatorByte b
  ends : folder = [] ∨ ∃ above b, IsSeparatorByte b ∧ folder = above ++ [b]

theorem exists_cutsInto (path : Bytes) : ∃ folder name, CutsInto path folder name := by
  induction path with
  | nil => exact ⟨[], [], rfl, by simp, .inl rfl⟩
  | cons b path ih =>
    obtain ⟨folder, name, rfl, plain, rfl | ⟨above, c, hc, rfl⟩⟩ := ih
    · by_cases hb : IsSeparatorByte b
      · exact ⟨[b], name, rfl, plain, .inr ⟨[], b, hb, rfl⟩⟩
      · exact ⟨[], b :: name, rfl, List.forall_mem_cons.2 ⟨hb, plain⟩, .inl rfl⟩
    · exact ⟨b :: (above ++ [c]), name, rfl, plain, .inr ⟨b :: above, c, hc, rfl⟩⟩

theorem IsSeparatorByte.ascii {b : UInt8} (h : IsSeparatorByte b) : b < 0x80 := by
  rcases h with rfl | rfl <;> decide

theorem IsSeparatorByte.isSeparator {b : UInt8} (h : IsSeparatorByte b) :
    isSeparator (Char.ofNat b.toNat) = true := by
  rcases h with rfl | rfl <;> rfl

/-! ## Places in a text -/

namespace Strict

/-- Where the last component of a text begins: at the byte behind its last separator, or at the
first byte when there is none. -/
def componentStart (text : List Char) : Nat :=
  (lastSeparator? text 0).elim 0 (· + 1)

theorem lastSeparator?_of_plain {text : List Char} (plain : ∀ c ∈ text, isSeparator c = false)
    (start : Nat) : lastSeparator? text start = none := by
  induction text generalizing start with
  | nil => rfl
  | cons c rest ih =>
    obtain ⟨hc, hrest⟩ := List.forall_mem_cons.1 plain
    rw [lastSeparator?, ih hrest, hc]
    rfl

theorem lastSeparator?_append {c : Char} (hc : isSeparator c = true) {name : List Char}
    (plain : ∀ d ∈ name, isSeparator d = false) (above : List Char) (start : Nat) :
    lastSeparator? (above ++ c :: name) start = some (start + size above) := by
  induction above generalizing start with
  | nil =>
    rw [List.nil_append, lastSeparator?, lastSeparator?_of_plain plain, hc]
    rfl
  | cons d above ih =>
    rw [List.cons_append, lastSeparator?, ih, size, Nat.add_assoc]

/-- The last component begins behind the folders, however many bytes these take. -/
theorem componentStart_append {folder name : List Char}
    (plain : ∀ d ∈ name, isSeparator d = false)
    (ends : folder = [] ∨ ∃ above c, isSeparator c = true ∧ folder = above ++ [c]) :
    componentStart (folder ++ name) = size folder := by
  rcases ends with rfl | ⟨above, c, hc, rfl⟩
  · rw [List.nil_append, componentStart, lastSeparator?_of_plain plain]
    rfl
  · have hsize : size [c] = 1 := utf8Size_of_isSeparator hc
    rw [List.append_assoc, List.singleton_append, componentStart,
      lastSeparator?_append hc plain, size_append, hsize, Nat.zero_add]
    rfl

end Strict

/-! ## The decoded parts -/

namespace CutsInto

variable {path folder name : Bytes} (h : CutsInto path folder name)

include h

/-- The decoder is between two characters where the parts meet. -/
theorem units_eq : units path = units folder ++ units name := by
  obtain ⟨rfl, -, rfl | ⟨above, b, hb, rfl⟩⟩ := h
  · rfl
  · exact Utf8.units_append_of_ascii above hb.ascii name

/-- The parts are decoded one by one. -/
theorem toList_lossy : (lossy path).toList = (lossy folder).toList ++ (lossy name).toList := by
  obtain rfl := h.parts
  rw [Utf8.lossy_append h.units_eq, String.toList_append]

/-- No separator comes of broken pieces. -/
theorem plain_lossy : ∀ c ∈ (lossy name).toList, isSeparator c = false := by
  intro c hc
  rw [Bool.eq_false_iff, ne_eq, isSeparator_iff]
  rintro (rfl | rfl)
  · exact h.plain _ (Utf8.mem_of_mem_lossy hc (by decide)) (.inr rfl)
  · exact h.plain _ (Utf8.mem_of_mem_lossy hc (by decide)) (.inl rfl)

/-- No separator is lost in a broken piece. -/
theorem ends_lossy : (lossy folder).toList = [] ∨
    ∃ above c, isSeparator c = true ∧ (lossy folder).toList = above ++ [c] := by
  rcases h.ends with rfl | ⟨above, b, hb, rfl⟩
  · exact .inl rfl
  · obtain ⟨before, htext⟩ := Utf8.exists_lossy_ascii above hb.ascii
    exact .inr ⟨before, _, hb.isSeparator, htext⟩

theorem componentStart_lossy :
    Strict.componentStart (lossy path).toList = Strict.size (lossy folder).toList := by
  rw [h.toList_lossy, Strict.componentStart_append h.plain_lossy h.ends_lossy]

/-- The last component of the decoded path is the decoded name. -/
theorem lastComponent_lossy : lastComponent (lossy path).toList = (lossy name).toList := by
  refine lastComponent_eq_iff.2 ⟨(lossy folder).toList, h.toList_lossy, fun c hc => ?_, ?_⟩
  · have hplain := Bool.eq_false_iff.1 (h.plain_lossy c hc)
    rwa [ne_eq, isSeparator_iff, not_or] at hplain
  · rcases h.ends_lossy with hnil | ⟨above, c, hc, htext⟩
    · exact .inl hnil
    · refine .inr ⟨above, ?_⟩
      rw [htext]
      exact (isSeparator_iff.1 hc).imp (by rintro rfl; rfl) (by rintro rfl; rfl)

end CutsInto

/-- **A file name.** It is the decoded text of exactly those bytes that stand behind the last
separator byte of the path, which is what comes before the first zero byte. Where the bytes are cut
the decoder is between two characters, so the path may be decoded first: its text has its last
separator where the decoded folder ends, can be cut there, and has the same name behind the cut. -/
theorem fileName_cuts_path (bytes : Bytes) :
    ∃ folder name, CutsInto (bytes.takeWhile (· ≠ 0)) folder name ∧
      fileName bytes = lossy name ∧
      units (folder ++ name) = units folder ++ units name ∧
      lossy (folder ++ name) = lossy folder ++ lossy name ∧
      lastComponent (lossy (folder ++ name)).toList = (lossy name).toList ∧
      Strict.componentStart (lossy (folder ++ name)).toList = Strict.size (lossy folder).toList ∧
      Strict.textFrom (lossy (folder ++ name)).toList
        (Strict.componentStart (lossy (folder ++ name)).toList) = pure (lossy name).toList := by
  obtain ⟨folder, name, hcut⟩ := exists_cutsInto (bytes.takeWhile (· ≠ 0))
  have hpath := hcut.parts
  refine ⟨folder, name, hcut, ?_, ?_⟩
  · rw [fileName, hcut.lastComponent_lossy, String.ofList_toList]
  · rw [← hpath]
    have hstart := hcut.componentStart_lossy
    refine ⟨hcut.units_eq, ?_, hcut.lastComponent_lossy, hstart, ?_⟩
    · rw [← String.toList_inj, String.toList_append, hcut.toList_lossy]
    · rw [hstart, hcut.toList_lossy, Strict.textFrom_append]

-- a character that is cut short before a separator, and one behind it
example : fileName [0x43, 0xE2, 0x82, 0x5C, 0xF0, 0x9F, 0x61, 0x00, 0x62] = "\uFFFDa" := by
  decide +kernel

end OffsetService.Image
