import OffsetService.Proofs.Hex
import OffsetService.Proofs.Image.Identity
import OffsetService.Proofs.Places
import OffsetService.Proofs.Utf8.Decoded

/-!
# The keys of identities that images have

A debug record says its `DebugFields`, and every image with a usable identity has a record whose
fields make the identity (`exists_fields_of_identity`). The key of the identity loses nothing of
them (`relativePath_eq_iff_fields_eq`): a unique id has 32 or 8 digits and an age at most 8, so the
digits of a folder can be cut in one way only, and the digits of a unique id spell its bytes.

Names come out of the record without a separator or a zero character, and unique ids as upper-case
digits, so an archive refuses such an identity for its name only, and only for a few names
(`check_identity_eq_ok_iff`).
-/

namespace OffsetService.Image

open Archive (relativePath folder)

/-! ## Digits of bytes -/

theorem toList_upperHex (bytes : Bytes) :
    (upperHex bytes).toList = bytes.flatMap fun b => Hex.fixed .upper 2 b.toNat :=
  String.toList_ofList

theorem upperHex_inj {bytes other : Bytes} (h : upperHex bytes = upperHex other) :
    bytes = other := by
  have hlist := congrArg String.toList h
  rw [toList_upperHex, toList_upperHex] at hlist
  exact Hex.flatMap_fixed_inj hlist

theorem length_upperHex (bytes : Bytes) : (upperHex bytes).toList.length = 2 * bytes.length := by
  rw [toList_upperHex, Hex.length_flatMap_fixed]

theorem mem_upperDigits_of_mem_upperHex {bytes : Bytes} {c : Char}
    (h : c ∈ (upperHex bytes).toList) : c ∈ Hex.upperDigits := by
  rw [toList_upperHex] at h
  obtain ⟨b, -, hc⟩ := List.mem_flatMap.1 h
  exact Hex.mem_upperDigits_of_mem_fixed hc

/-- The order in which the bytes of a unique id are written can be undone. -/
theorem uniqueId_inj {bytes other : Bytes} (hbytes : bytes.length = 16)
    (hother : other.length = 16) (h : uniqueId bytes = uniqueId other) : bytes = other := by
  have hwritten := upperHex_inj h
  obtain ⟨hwords, hrest⟩ := List.append_inj hwritten (by simp [hbytes, hother])
  obtain ⟨hwords, hthird⟩ := List.append_inj hwords (by simp [hbytes, hother])
  obtain ⟨hfirst, hsecond⟩ := List.append_inj hwords (by simp [hbytes, hother])
  rw [← take_drop_uniqueId bytes, ← take_drop_uniqueId other, List.reverse_inj.1 hfirst,
    List.reverse_inj.1 hsecond, List.reverse_inj.1 hthird, hrest]

theorem length_uniqueId {bytes : Bytes} (h : bytes.length = 16) :
    (uniqueId bytes).toList.length = 32 := by
  rw [uniqueId, length_upperHex]
  simp [h]

/-! ## Fields of a record -/

/-- What a debug record says. -/
structure DebugFields where
  format : RecordFormat
  /-- The 16 bytes of the unique id, or the four bytes of the signature of the older format. -/
  unique : Bytes
  age : UInt32
  name : String

namespace DebugFields

/-- The four bytes that open a record. -/
def signature : RecordFormat → Bytes
  | .rsds => [0x52, 0x53, 0x44, 0x53]
  | .nb10 => [0x4E, 0x42, 0x31, 0x30]

/-- Where the unique id or the signature stands. -/
def uniquePlace : RecordFormat → Nat
  | .rsds => 4
  | .nb10 => 8

/-- How many bytes a unique id or a signature has. -/
def uniqueSize : RecordFormat → Nat
  | .rsds => 16
  | .nb10 => 4

/-- The age stands behind the unique id. -/
def agePlace (format : RecordFormat) : Nat :=
  uniquePlace format + uniqueSize format

/-- The path stands behind the age. -/
def pathPlace (format : RecordFormat) : Nat :=
  agePlace format + 4

theorem uniqueSize_eq (format : RecordFormat) : uniqueSize format = 16 ∨ uniqueSize format = 4 := by
  cases format with
  | rsds => exact .inl rfl
  | nb10 => exact .inr rfl

theorem uniqueSize_inj {format other : RecordFormat} (h : uniqueSize format = uniqueSize other) :
    format = other := by
  cases format <;> cases other <;> first | rfl | cases h

/-- The fields of a record, each where the format has it. -/
def ofBytes (format : RecordFormat) (record : Bytes) : DebugFields where
  format := format
  unique := (record.drop (uniquePlace format)).take (uniqueSize format)
  age := (Bytes.littleEndian ((record.drop (agePlace format)).take 4)).toUInt32
  name := fileName (record.drop (pathPlace format))

/-- The unique id as text. -/
def uniqueText (fields : DebugFields) : String :=
  match fields.format with
  | .rsds => uniqueId fields.unique
  | .nb10 => upperHex fields.unique.reverse

theorem mem_upperDigits {fields : DebugFields} {c : Char} (hc : c ∈ fields.uniqueText.toList) :
    c ∈ Hex.upperDigits := by
  unfold uniqueText at hc
  split at hc
  · exact mem_upperDigits_of_mem_upperHex hc
  · exact mem_upperDigits_of_mem_upperHex hc

/-- The identity that the fields make. -/
def identity (fields : DebugFields) : Identity :=
  ⟨fields.name, fields.uniqueText, fields.age⟩

end DebugFields

/-- A record gives these fields: it is of their format, and long enough for all before the path. -/
def Gives (record : Bytes) (fields : DebugFields) : Prop :=
  record.take 4 = DebugFields.signature fields.format ∧
    DebugFields.pathPlace fields.format ≤ record.length ∧
    fields = DebugFields.ofBytes fields.format record

namespace Gives

variable {record : Bytes} {fields : DebugFields}

theorem length_unique (h : Gives record fields) :
    fields.unique.length = DebugFields.uniqueSize fields.format := by
  obtain ⟨-, hlong, hfields⟩ := h
  have hunique : fields.unique = (DebugFields.ofBytes fields.format record).unique :=
    congrArg DebugFields.unique hfields
  unfold DebugFields.pathPlace DebugFields.agePlace at hlong
  rw [hunique, DebugFields.ofBytes, List.length_take, List.length_drop]
  omega

theorem length_uniqueText (h : Gives record fields) :
    fields.uniqueText.toList.length = 2 * DebugFields.uniqueSize fields.format := by
  have hlength := h.length_unique
  unfold DebugFields.uniqueText
  cases hformat : fields.format with
  | rsds =>
    rw [hformat] at hlength
    exact length_uniqueId hlength
  | nb10 =>
    rw [hformat] at hlength
    simp only [length_upperHex, List.length_reverse, hlength]

/-- The name is that of some path. -/
theorem exists_path (h : Gives record fields) : ∃ path, fileName path = fields.name := by
  obtain ⟨-, -, hfields⟩ := h
  exact ⟨_, (congrArg DebugFields.name hfields).symm⟩

/-- A record with fields is decoded to the identity that they make. -/
theorem ofRecord_eq (h : Gives record fields) :
    (ofRecord record).outcome = .ok fields.identity := by
  obtain ⟨hsignature, hlong, hfields⟩ := h
  rw [hfields]
  unfold ofRecord
  cases hformat : fields.format with
  | rsds =>
    rw [hformat] at hsignature hlong
    have hheader : 24 ≤ record.length := hlong
    simp only [hsignature, DebugFields.signature, if_neg (show ¬record.length < 4 by omega),
      if_neg (show ¬record.length < 24 by omega), if_true]
    rfl
  | nb10 =>
    rw [hformat] at hsignature hlong
    have hheader : 16 ≤ record.length := hlong
    have hother : ¬([0x4E, 0x42, 0x31, 0x30] : Bytes) = [0x52, 0x53, 0x44, 0x53] := by decide
    simp only [hsignature, DebugFields.signature, if_neg (show ¬record.length < 4 by omega),
      if_neg (show ¬record.length < 16 by omega), if_neg hother, if_true]
    rfl

end Gives

/-- A record that is decoded to a usable identity is of one of the formats. -/
theorem exists_fields_of_ofRecord {record : Bytes} {id : Identity}
    (h : (ofRecord record).outcome = .ok id) (usable : id.uniqueId ≠ "") :
    ∃ fields, Gives record fields := by
  cases names_of_ofRecord h usable with
  | rsds hfirst hsecond hthird hrest named =>
    refine ⟨.ofBytes .rsds _, rfl, ?_, rfl⟩
    show 24 ≤ _
    simp only [List.length_append, Bytes.length_word, List.length_cons, hrest]
    omega
  | nb10 hskipped hsignature named =>
    refine ⟨.ofBytes .nb10 _, rfl, ?_, rfl⟩
    show 16 ≤ _
    simp only [List.length_append, Bytes.length_word, List.length_cons, hskipped]
    omega

/-! ## The record of an image -/

/-- The debug record of an image gives these fields. -/
def HasRecord (image : Bytes) (fields : DebugFields) : Prop :=
  ∃ pointer size record, (locate .exact image).outcome = .ok (some (pointer, size)) ∧
    recordAt image pointer size = .ok record ∧ Gives record fields

theorem HasRecord.exists_gives {image : Bytes} {fields : DebugFields} (h : HasRecord image fields) :
    ∃ record, Gives record fields := by
  obtain ⟨pointer, size, record, -, -, hgives⟩ := h
  exact ⟨record, hgives⟩

/-- An image with a usable identity has a record whose fields make it. -/
theorem exists_fields_of_identity {image : Bytes} {id : Identity}
    (h : (identity image).outcome = .ok id) (usable : id.uniqueId ≠ "") :
    ∃ fields, HasRecord image fields ∧ fields.identity = id := by
  rw [outcome_identity] at h
  obtain ⟨found, hlocate, h⟩ := bind_eq_ok_iff.1 h
  cases found with
  | none =>
    cases h
    exact absurd rfl usable
  | some place =>
    obtain ⟨pointer, size⟩ := place
    obtain ⟨record, hrecord, hread⟩ := bind_eq_ok_iff.1 h
    obtain ⟨fields, hgives⟩ := exists_fields_of_ofRecord hread usable
    refine ⟨fields, ⟨pointer, size, record, hlocate, hrecord, hgives⟩, ?_⟩
    rw [hgives.ofRecord_eq] at hread
    exact Except.ok.inj hread

theorem uniqueId_ne_empty {id : Identity} (complete : id.isComplete = true) : id.uniqueId ≠ "" := by
  intro hempty
  simp [Identity.isComplete, hempty] at complete

/-! ## Names -/

/-- A file name has neither a separator nor a zero character. -/
theorem plain_of_mem_fileName {path : Bytes} {c : Char} (h : c ∈ (fileName path).toList) :
    c ≠ '/' ∧ c ≠ '\\' ∧ c ≠ '\x00' := by
  obtain ⟨text, folder, hzero, -, htext, hplain, -⟩ := fileName_eq_iff.1 (rfl : _ = fileName path)
  refine ⟨(hplain c h).2, (hplain c h).1, ?_⟩
  rintro rfl
  have hdecoded : '\x00' ∈ (Utf8.lossy text).toList := by
    rw [htext]
    exact List.mem_append_right _ h
  exact hzero (Utf8.mem_of_mem_lossy hdecoded (by decide))

/-! ## Keys -/

/-- The digits of a unique id and of an age behind it can be cut in one way only. -/
theorem uniqueText_eq_of_folder_eq {record other : Bytes} {fields fields' : DebugFields}
    (h : Gives record fields) (h' : Gives other fields')
    (heq : folder fields.identity = folder fields'.identity) :
    fields.format = fields'.format ∧ fields.uniqueText = fields'.uniqueText ∧
      fields.age = fields'.age := by
  have hlist := congrArg String.toList heq
  simp only [folder, DebugFields.identity, String.toList_append] at hlist
  have hunique := h.length_uniqueText
  have hunique' := h'.length_uniqueText
  obtain ⟨hmin, hmax⟩ := Hex.length_upper fields.age
  obtain ⟨hmin', hmax'⟩ := Hex.length_upper fields'.age
  have htotal := congrArg List.length hlist
  rw [List.length_append, List.length_append] at htotal
  have hformat : fields.format = fields'.format := by
    apply DebugFields.uniqueSize_inj
    -- the longer of two unique ids is longer by more than an age can make up for
    have hsize := DebugFields.uniqueSize_eq fields.format
    have hsize' := DebugFields.uniqueSize_eq fields'.format
    omega
  rw [hformat] at hunique
  obtain ⟨htext, hage⟩ := List.append_inj hlist (hunique.trans hunique'.symm)
  refine ⟨hformat, String.toList_inj.1 htext, ?_⟩
  exact UInt32.toNat_inj.1 (Hex.upper_inj (String.toList_inj.1 hage))

/-- The text of a unique id spells its bytes. -/
theorem unique_eq_of_uniqueText_eq {record other : Bytes} {fields fields' : DebugFields}
    (h : Gives record fields) (h' : Gives other fields') (hformat : fields.format = fields'.format)
    (heq : fields.uniqueText = fields'.uniqueText) : fields.unique = fields'.unique := by
  have hlength := h.length_unique
  have hlength' := h'.length_unique
  unfold DebugFields.uniqueText at heq
  rw [hformat] at hlength heq
  cases hf : fields'.format with
  | rsds =>
    rw [hf] at hlength hlength' heq
    exact uniqueId_inj hlength hlength' heq
  | nb10 =>
    rw [hf] at heq
    exact List.reverse_inj.1 (upperHex_inj heq)

/-- The key of an identity that a record makes loses nothing of what the record says. -/
theorem relativePath_eq_iff_fields_eq {record other : Bytes} {fields fields' : DebugFields}
    (h : Gives record fields) (h' : Gives other fields') :
    relativePath fields.identity = relativePath fields'.identity ↔ fields = fields' := by
  constructor
  · intro hkey
    have hslash : ∀ {record : Bytes} {fields : DebugFields}, Gives record fields →
        '/' ∉ fields.identity.name.toList := by
      intro record fields hgives hmem
      obtain ⟨path, hpath⟩ := hgives.exists_path
      have hname : '/' ∈ (fileName path).toList := hpath ▸ hmem
      exact (plain_of_mem_fileName hname).1 rfl
    obtain ⟨hname, hfolder⟩ := Archive.parts_of_relativePath_eq (hslash h) (hslash h') hkey
    obtain ⟨hformat, htext, hage⟩ := uniqueText_eq_of_folder_eq h h' hfolder
    have hunique := unique_eq_of_uniqueText_eq h h' hformat htext
    obtain ⟨format, unique, age, name⟩ := fields
    obtain ⟨format', unique', age', name'⟩ := fields'
    obtain rfl : format = format' := hformat
    obtain rfl : unique = unique' := hunique
    obtain rfl : age = age' := hage
    obtain rfl : name = name' := hname
    rfl
  · rintro rfl
    rfl

/-- **The key pins the module.** Two images with usable identities have one key exactly when they
have one identity, and exactly when their records say the same: the format, all bytes of the unique
id or of the signature, the age and the file name. -/
theorem relativePath_pins_fields {image otherImage : Bytes} {id other : Identity}
    (himage : (identity image).outcome = .ok id) (complete : id.isComplete = true)
    (hother : (identity otherImage).outcome = .ok other) (complete' : other.isComplete = true) :
    (relativePath id = relativePath other ↔ id = other) ∧
      ∃ fields fields', HasRecord image fields ∧ HasRecord otherImage fields' ∧
        (relativePath id = relativePath other ↔ fields = fields') := by
  obtain ⟨fields, hrecord, rfl⟩ := exists_fields_of_identity himage (uniqueId_ne_empty complete)
  obtain ⟨fields', hrecord', rfl⟩ := exists_fields_of_identity hother (uniqueId_ne_empty complete')
  obtain ⟨record, hgives⟩ := hrecord.exists_gives
  obtain ⟨record', hgives'⟩ := hrecord'.exists_gives
  have hkey := relativePath_eq_iff_fields_eq hgives hgives'
  refine ⟨?_, fields, fields', hrecord, hrecord', hkey⟩
  constructor
  · intro h
    rw [hkey.1 h]
  · intro h
    rw [h]

/-- A byte behind the image changes neither the key nor what the record says. -/
theorem relativePath_pins_fields_longer :
    (identity cutImage).outcome = .ok cutIdentity ∧
      (identity (cutImage ++ [0])).outcome = .ok cutIdentity ∧ cutIdentity.isComplete = true ∧
      ∃ fields, HasRecord cutImage fields ∧ HasRecord (cutImage ++ [0]) fields := by
  have hcut : (identity cutImage).outcome = .ok cutIdentity := rfl
  have hlonger : (identity (cutImage ++ [0])).outcome = .ok cutIdentity := rfl
  have hcomplete : cutIdentity.isComplete = true := by decide
  refine ⟨hcut, hlonger, hcomplete, ?_⟩
  obtain ⟨-, fields, fields', hrecord, hrecord', hkey⟩ :=
    relativePath_pins_fields hcut hcomplete hlonger hcomplete
  obtain rfl : fields = fields' := hkey.1 rfl
  exact ⟨fields, hrecord, hrecord'⟩

/-! ## What an archive accepts -/

theorem all_isUpperHex_upperDigits : Hex.upperDigits.all Archive.isUpperHex = true := by
  decide

/-- A name without a separator or a zero character is refused for a colon, or when it stands for a
folder. -/
theorem isSafeName_iff {name : String}
    (hplain : ∀ c ∈ name.toList, c ≠ '/' ∧ c ≠ '\\' ∧ c ≠ '\x00') :
    Archive.isSafeName name = true ↔ name ≠ "." ∧ name ≠ ".." ∧ ':' ∉ name.toList := by
  have hcolon : name.toList.any Archive.isUnsafe = true ↔ ':' ∈ name.toList := by
    rw [List.any_eq_true]
    constructor
    · rintro ⟨c, hc, hunsafe⟩
      obtain ⟨hslash, hbackslash, hzero⟩ := hplain c hc
      have hc' : c = ':' := by simpa [Archive.isUnsafe, hslash, hbackslash, hzero] using hunsafe
      rwa [← hc']
    · intro hmem
      exact ⟨':', hmem, by decide⟩
  rw [Archive.isSafeName, Bool.and_eq_true, Bool.and_eq_true, bne_iff_ne, bne_iff_ne,
    Bool.not_eq_true', Bool.eq_false_iff, ne_eq (name.toList.any _), hcolon, and_assoc]

/-- **What the archive accepts of images.** A usable identity of an image has a unique id of 32 or 8
upper-case digits and a name without a separator or a zero character. It is refused only when the
name stands for a folder or has a colon in it. -/
theorem check_identity_eq_ok_iff {image : Bytes} {id : Identity}
    (himage : (identity image).outcome = .ok id) (complete : id.isComplete = true) :
    (id.uniqueId.toList.length = 32 ∨ id.uniqueId.toList.length = 8) ∧
      (∀ c ∈ id.uniqueId.toList, c ∈ Hex.upperDigits) ∧
      (∀ c ∈ id.name.toList, c ≠ '/' ∧ c ≠ '\\' ∧ c ≠ '\x00') ∧
      (Archive.check id = .ok () ↔ id.name ≠ "." ∧ id.name ≠ ".." ∧ ':' ∉ id.name.toList) := by
  obtain ⟨fields, hrecord, rfl⟩ := exists_fields_of_identity himage (uniqueId_ne_empty complete)
  obtain ⟨record, hgives⟩ := hrecord.exists_gives
  have hdigits : ∀ c ∈ fields.identity.uniqueId.toList, c ∈ Hex.upperDigits := by
    intro c hc
    exact DebugFields.mem_upperDigits hc
  have hplain : ∀ c ∈ fields.identity.name.toList, c ≠ '/' ∧ c ≠ '\\' ∧ c ≠ '\x00' := by
    intro c hc
    obtain ⟨path, hpath⟩ := hgives.exists_path
    have hmem : c ∈ (fileName path).toList := hpath ▸ hc
    exact plain_of_mem_fileName hmem
  refine ⟨?_, hdigits, hplain, ?_⟩
  · have hlength := hgives.length_uniqueText
    cases hformat : fields.format with
    | rsds =>
      rw [hformat] at hlength
      exact .inl hlength
    | nb10 =>
      rw [hformat] at hlength
      exact .inr hlength
  · have hsafe : Archive.isSafeUniqueId fields.identity.uniqueId = true := by
      refine List.all_eq_true.2 ?_
      intro c hc
      exact List.all_eq_true.1 all_isUpperHex_upperDigits c (hdigits c hc)
    rw [Archive.check_eq_ok_iff, isSafeName_iff hplain]
    exact ⟨fun h => h.2.1, fun h => ⟨complete, h, hsafe⟩⟩

/-- The identity of an image is accepted. -/
theorem check_identity_eq_ok_iff_cutImage :
    (identity cutImage).outcome = .ok cutIdentity ∧ cutIdentity.isComplete = true ∧
      cutIdentity.uniqueId.toList.length = 32 ∧ Archive.check cutIdentity = .ok () := by
  have himage : (identity cutImage).outcome = .ok cutIdentity := rfl
  have hcomplete : cutIdentity.isComplete = true := by decide
  obtain ⟨hlength, -, -, hcheck⟩ := check_identity_eq_ok_iff himage hcomplete
  refine ⟨himage, hcomplete, ?_, hcheck.2 (by decide)⟩
  exact hlength.resolve_right (by decide)

end OffsetService.Image
