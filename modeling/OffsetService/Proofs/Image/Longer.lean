import Mathlib.Data.List.TakeWhile
import OffsetService.Proofs.Image.Keys

/-!
# Bytes behind an image

Bytes may be appended to an image, as signatures and overlays are. Whether a field can be read depends
on the length of the image, but what was read once is read again from the longer image: `Lasts` is
this law for one reader, and it is closed under sequencing, so that it holds of `locate` as a whole
(`lasts_locate`). A record that the image ends too early for may go on in the bytes behind it, and then
it says the same only if its name has ended before (`Gives.append`). In all other cases the identity
stays (`identity_append`).
-/

namespace OffsetService.Image

/-! ## Readings that last -/

/-- What is read from an image is also read from it when bytes are appended. -/
def Lasts {α : Type} (read : Bytes → Except Fault α) : Prop :=
  ∀ (image : Bytes) (a : α), read image = .ok a → ∀ tail, read (image ++ tail) = .ok a

section Lasts

variable {α β : Type}

theorem Lasts.pure (outcome : Except Fault α) : Lasts fun _ => outcome :=
  fun _ _ h _ => h

theorem Lasts.bind {read : Bytes → Except Fault α} {next : α → Bytes → Except Fault β}
    (hread : Lasts read) (hnext : ∀ a, Lasts (next a)) :
    Lasts fun image => read image >>= fun a => next a image := by
  intro image b h tail
  obtain ⟨a, ha, hb⟩ := bind_eq_ok_iff.1 h
  exact bind_eq_ok_iff.2 ⟨a, hread image a ha tail, hnext a image b hb tail⟩

theorem Lasts.ite {p : Prop} [Decidable p] {read other : Bytes → Except Fault α}
    (hread : Lasts read) (hother : Lasts other) :
    Lasts fun image => if p then read image else other image := by
  by_cases hp : p
  · simpa only [if_pos hp] using hread
  · simpa only [if_neg hp] using hother

end Lasts

/-- What stands in an image stands in the longer one. -/
theorem Holds.append {image : Bytes} {place : Nat} {bytes : Bytes} (h : Holds image place bytes)
    (tail : Bytes) : Holds (image ++ tail) place bytes := by
  rw [Holds, List.drop_append]
  exact h.trans (List.prefix_append _ _)

theorem lasts_window (field : ImageField) (place length : Nat) :
    Lasts fun image => window image field place length := by
  intro image bytes h tail
  obtain ⟨hholds, hlength⟩ := window_eq_ok_iff.1 h
  exact window_eq_ok_iff.2 ⟨hholds.append tail, hlength⟩

theorem lasts_number (field : ImageField) (place width : Nat) :
    Lasts fun image => number image field place width := by
  intro image n h tail
  obtain ⟨hlt, hholds⟩ := number_eq_ok_iff.1 h
  exact number_eq_ok_iff.2 ⟨hlt, hholds.append tail⟩

/-! ## Tables -/

section Tables

variable (a : Arithmetic)

theorem lasts_readSection (place : Nat) : Lasts fun image => readSection a image place :=
  .bind (lasts_number _ _ _) fun _ => .bind (lasts_number _ _ _) fun _ =>
    .bind (lasts_number _ _ _) fun _ => .bind (lasts_number _ _ _) fun _ => .pure _

theorem lasts_mapM {α β : Type} {read : α → Bytes → Except Fault β} (h : ∀ a, Lasts (read a))
    (as : List α) : Lasts fun image => as.mapM (read · image) := by
  induction as with
  | nil => simpa only [List.mapM_nil] using Lasts.pure _
  | cons a as ih =>
    simp only [List.mapM_cons]
    exact .bind (h a) fun _ => .bind ih fun _ => .pure _

theorem lasts_readSections (table count : Nat) :
    Lasts fun image => readSections a image table count :=
  lasts_mapM (fun _ => lasts_readSection a _) _

/-- The same entry is chosen: all types that were read before it are read again. -/
theorem lasts_selectEntry (fallback remaining entry : Nat) :
    Lasts fun image => selectEntry a image fallback remaining entry := by
  induction remaining generalizing entry with
  | zero => exact .pure _
  | succ remaining ih =>
    simp only [selectEntry]
    exact .bind (lasts_number _ _ _) fun _ => .ite (.pure _) (ih _)

theorem lasts_readFileHeader : Lasts fun image => readFileHeader a image := by
  unfold readFileHeader
  refine .bind (lasts_window _ _ _) fun dosSignature => .ite (.pure _) ?_
  refine .bind (lasts_number _ _ _) fun newHeader => ?_
  refine .bind (lasts_window _ _ _) fun peSignature => .ite (.pure _) ?_
  exact .bind (lasts_number _ _ _) fun _ => .bind (lasts_number _ _ _) fun _ =>
    .bind (lasts_number _ _ _) fun _ => .pure _

theorem lasts_findEntry (header : FileHeader) (address size : Nat) :
    Lasts fun image => findEntry a image header address size := by
  unfold findEntry
  refine .bind (lasts_readSections a _ _) fun sections => ?_
  split
  next => exact .pure _
  next => exact lasts_selectEntry a _ _ _

/-- **What leads to a record lasts.** The record of an image is found in the longer image at the same
place, and where there is none, none is found. -/
theorem lasts_locate : Lasts fun image => (locate a image).outcome := by
  unfold locate
  simp only [Traced.outcome_bind, Traced.outcome_ofExcept]
  refine .bind (lasts_readFileHeader a) fun header => ?_
  split
  next => exact .pure _
  next =>
    simp only [Traced.outcome_bind, Traced.outcome_ofExcept, apply_ite Traced.outcome]
    refine .bind (lasts_number _ _ _) fun directories => .ite (.pure _) ?_
    refine .bind (lasts_number _ _ _) fun address => .bind (lasts_number _ _ _) fun size =>
      .ite (.pure _) ?_
    refine .bind (lasts_findEntry a _ _ _) fun entry => ?_
    exact .bind (lasts_number _ _ _) fun dataSize => .bind (lasts_number _ _ _) fun dataPointer =>
      .ite (.pure _) (.pure _)

end Tables

/-! ## Records -/

/-- The record of a longer image begins with the record of the image. -/
theorem recordAt_append {image record : Bytes} {pointer size : Nat}
    (h : recordAt image pointer size = .ok record) (tail : Bytes) :
    ∃ more, recordAt (image ++ tail) pointer size = .ok (record ++ more) ∧
      (pointer + size ≤ image.length → more = []) := by
  obtain ⟨hlt, rfl⟩ := recordAt_eq_ok_iff.1 h
  refine ⟨tail.take (size - (image.length - pointer)), ?_, fun hinside => ?_⟩
  · refine recordAt_eq_ok_iff.2 ⟨by simp; omega, ?_⟩
    rw [List.drop_append_of_le_length hlt.le, List.take_append, List.length_drop]
  · rw [Nat.sub_eq_zero_of_le (by omega), List.take_zero]

/-- A name that has ended is not changed by what follows. -/
theorem fileName_append {path : Bytes} (h : 0 ∈ path) (more : Bytes) :
    fileName (path ++ more) = fileName path := by
  have hends : (path.takeWhile (· ≠ 0)).length ≠ path.length := by
    intro hlength
    have hwhole := List.takeWhile_eq_self_iff.1 ((List.takeWhile_prefix _).eq_of_length hlength)
    simpa using hwhole 0 h
  rw [fileName, List.takeWhile_append, if_neg hends, ← fileName]

/-- A field that is whole is not changed by what follows. -/
theorem take_drop_append {record : Bytes} {place width : Nat} (h : place + width ≤ record.length)
    (more : Bytes) :
    ((record ++ more).drop place).take width = (record.drop place).take width := by
  rw [List.drop_append_of_le_length (by omega), List.take_append_of_le_length]
  rw [List.length_drop]
  omega

/-- A record whose name has ended says the same when it goes on. -/
theorem Gives.append {record : Bytes} {fields : DebugFields} (h : Gives record fields)
    (hname : 0 ∈ record.drop (DebugFields.pathPlace fields.format)) (more : Bytes) :
    Gives (record ++ more) fields := by
  obtain ⟨hsignature, hlong, hfields⟩ := h
  have hfour : 4 ≤ DebugFields.uniquePlace fields.format := by cases fields.format <;> decide
  unfold DebugFields.pathPlace DebugFields.agePlace at hlong hname
  refine ⟨?_, ?_, ?_⟩
  · rwa [List.take_append_of_le_length (by omega)]
  · rw [List.length_append]
    exact Nat.le_add_right_of_le hlong
  · refine hfields.trans ?_
    unfold DebugFields.ofBytes DebugFields.pathPlace DebugFields.agePlace
    rw [take_drop_append (by omega), take_drop_append (by omega),
      List.drop_append_of_le_length hlong, fileName_append hname]

/-- What the identity of an image rests on does not go on behind the image: there is no record, or
the record ends inside the image, or its name does. -/
inductive Settled (image : Bytes) : Prop
  | unreached (hlocate : (locate .exact image).outcome = .ok none)
  | inside {pointer size : Nat} (hlocate : (locate .exact image).outcome = .ok (some (pointer, size)))
    (hinside : pointer + size ≤ image.length)
  /-- The record has its header, and behind it a zero byte. -/
  | named {pointer size : Nat} {record : Bytes} {format : RecordFormat}
    (hlocate : (locate .exact image).outcome = .ok (some (pointer, size)))
    (hrecord : recordAt image pointer size = .ok record)
    (hsignature : record.take 4 = DebugFields.signature format)
    (hname : 0 ∈ record.drop (DebugFields.pathPlace format))

/-- The identity of an image with a record is what the record is decoded to. -/
theorem identity_eq_ok_iff_of_locate {image : Bytes} {pointer size : Nat} {id : Identity}
    (hlocate : (locate .exact image).outcome = .ok (some (pointer, size))) :
    (identity image).outcome = .ok id ↔
      ∃ record, recordAt image pointer size = .ok record ∧ (ofRecord record).outcome = .ok id := by
  rw [outcome_identity, hlocate]
  change (recordAt image pointer size >>= fun record => (ofRecord record).outcome) = _ ↔ _
  rw [bind_eq_ok_iff]

/-- **An identity stays when bytes are appended** to an image, whatever they are, if the identity is
that of an image without a record, of a record inside the image, or of a record whose name ends in
it. The section and the debug entry are found where they were, since all fields up to them are read
as before. -/
theorem identity_append {image : Bytes} {id : Identity} (h : (identity image).outcome = .ok id)
    (settled : Settled image) (tail : Bytes) : (identity (image ++ tail)).outcome = .ok id := by
  have hlasts := lasts_locate .exact image
  cases settled with
  | unreached hlocate =>
    have hlonger : (locate .exact (image ++ tail)).outcome = .ok none := hlasts none hlocate tail
    rw [outcome_identity, hlocate] at h
    rw [outcome_identity, hlonger]
    exact h
  | inside hlocate hinside =>
    obtain ⟨record, hrecord, hread⟩ := (identity_eq_ok_iff_of_locate hlocate).1 h
    obtain ⟨more, hlonger, hmore⟩ := recordAt_append hrecord tail
    rw [hmore hinside, List.append_nil] at hlonger
    exact (identity_eq_ok_iff_of_locate (hlasts _ hlocate tail)).2 ⟨record, hlonger, hread⟩
  | @named pointer size record format hlocate hrecord hsignature hname =>
    obtain ⟨record', hrecord', hread⟩ := (identity_eq_ok_iff_of_locate hlocate).1 h
    obtain rfl : record = record' := Except.ok.inj (hrecord.symm.trans hrecord')
    obtain ⟨more, hlonger, -⟩ := recordAt_append hrecord tail
    have hlong : DebugFields.pathPlace format ≤ record.length := by
      have hlt := List.length_pos_of_mem hname
      rw [List.length_drop] at hlt
      omega
    have hgives : Gives record (.ofBytes format record) := ⟨hsignature, hlong, rfl⟩
    rw [hgives.ofRecord_eq, ← (hgives.append hname more).ofRecord_eq] at hread
    exact (identity_eq_ok_iff_of_locate (hlasts _ hlocate tail)).2 ⟨record ++ more, hlonger, hread⟩

/-- An image whose debug entry claims a record of 300 bytes, more than the image has. -/
def overlongImage : Bytes :=
  cutImage.take 20 ++ Bytes.word 4 300 ++ cutImage.drop 24

/-- A record that the image ends too early for, but whose name has ended. -/
theorem identity_append_overlong :
    overlongImage.length = 264 ∧
      (locate .exact overlongImage).outcome = .ok (some (32, 300)) ∧ Settled overlongImage ∧
      (identity (overlongImage ++ [0x53, 0x69, 0x67])).outcome = .ok cutIdentity := by
  have hlength : overlongImage.length = 264 := by decide +kernel
  have hlocate : (locate .exact overlongImage).outcome = .ok (some (32, 300)) := by decide +kernel
  have hidentity : (identity overlongImage).outcome = .ok cutIdentity := by decide +kernel
  have hsignature : (overlongImage.drop 32).take 4 = DebugFields.signature .rsds := rfl
  have hname : 0 ∈ (overlongImage.drop 32).drop (DebugFields.pathPlace .rsds) := by decide +kernel
  have hrecord : recordAt overlongImage 32 300 = .ok (overlongImage.drop 32) := by decide +kernel
  have hsettled : Settled overlongImage := .named hlocate hrecord hsignature hname
  exact ⟨hlength, hlocate, hsettled, identity_append hidentity hsettled _⟩

end OffsetService.Image
