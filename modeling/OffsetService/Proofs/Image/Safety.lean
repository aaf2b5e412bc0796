import OffsetService.Proofs.Image.Identity
import OffsetService.Proofs.Image.StrictReader
import OffsetService.Proofs.Utf8.Decoded

/-!
# Reading an image never breaks off

The reader on a machine (`Strict.identity`) has a result wherever `identity` has one, and it is the
same (`identity_never_breaks_off`), for images of every length and content. The bounds come from the
widths of the fields: a number of two or four bytes is small, whatever the image holds, and every
place is a sum of a few of them and of the strides of two tables that such numbers count. The one
difference is not below zero because the section that was found holds the address, and the slices of
a record are inside because of its length, which has been compared before. A name is cut behind a
separator, which is one byte in UTF-8.

The bounds are proved for any arithmetic that computes words exactly (`Arithmetic.Faithful`). Both
`Arithmetic.exact` and `Arithmetic.words` do, so the two give the same reader.
-/

namespace OffsetService.Image

namespace Strict

variable {α : Type} {a : Arithmetic} {image : Bytes} {field : ImageField}

/-! ## Fields -/

theorem window_eq {offset length : Nat} (hlength : 0 < length)
    (h : offset + length < 0x10000000000000000) :
    window image field offset length = sure (Image.window image field offset length) := by
  unfold window Image.window
  rw [sum?_of_lt h, Option.bind_eq_bind, Option.bind_some, part?, Nat.add_sub_cancel_left]
  by_cases hinside : offset + length ≤ image.length
  · have hfound : ((image.drop offset).take length).length = length := by
      rw [List.length_take, List.length_drop]
      omega
    rw [if_pos ⟨Nat.le_add_right _ _, hinside⟩]
    dsimp only
    rw [if_pos hfound]
    rfl
  · have hfound : ¬((image.drop offset).take length).length = length := by
      rw [List.length_take, List.length_drop]
      omega
    rw [if_neg fun h => hinside h.2]
    dsimp only
    rw [if_neg hfound]

theorem number_eq {offset width : Nat} (hwidth : 0 < width)
    (h : offset + width < 0x10000000000000000) :
    number image field offset width = sure (Image.number image field offset width) := by
  have hmap : Image.number image field offset width
      = Image.window image field offset width >>= fun bytes => .ok (Bytes.littleEndian bytes) := by
    unfold Image.number
    cases Image.window image field offset width <;> rfl
  rw [hmap, number, window_eq hwidth h]
  apply sure_bind
  intro bytes hbytes
  obtain ⟨-, hlength⟩ := window_eq_ok_iff.1 hbytes
  rw [bytesFrom_of_le (by omega), pure_bind, List.drop_zero, ← hlength, List.take_length]
  rfl

/-- A field behind a place. -/
theorem numberAt_eq (faithful : a.Faithful) {place k width : Nat} (hwidth : 0 < width)
    (h : place + k + width < 0x10000000000000000) :
    (sum place k >>= fun offset => number image field offset width)
      = sure (Image.number image field (a.add place k) width) := by
  rw [sum_of_lt (by omega), pure_bind, number_eq hwidth h, faithful.add (by omega)]

/-- Going on after a field behind a place. -/
theorem numberAt_bind (faithful : a.Faithful) {place k width : Nat} {f : Nat → Strict α}
    {g : Nat → Except Fault α} (hwidth : 0 < width)
    (h : place + k + width < 0x10000000000000000)
    (hf : ∀ n, Image.number image field (a.add place k) width = .ok n → f n = sure (g n)) :
    (sum place k >>= fun offset => number image field offset width >>= f)
      = sure (Image.number image field (a.add place k) width >>= g) := by
  rw [← bind_assoc, numberAt_eq faithful hwidth h]
  exact sure_bind hf

/-- The same with events. -/
theorem numberAt_safe_bind (faithful : a.Faithful) {place k width : Nat} {f : Nat → Strict α}
    {g : Nat → Traced α} (hwidth : 0 < width) (h : place + k + width < 0x10000000000000000)
    (hf : ∀ n, Image.number image field (a.add place k) width = .ok n → f n = safe (g n)) :
    (sum place k >>= fun offset => number image field offset width >>= f)
      = safe (.ofExcept (Image.number image field (a.add place k) width) >>= g) := by
  rw [← bind_assoc, numberAt_eq faithful hwidth h]
  exact safe_bind hf

/-- A field of four bytes is below 2 to the 32. -/
theorem number_lt_word {offset n : Nat} (h : Image.number image field offset 4 = .ok n) :
    n < 0x100000000 :=
  (number_eq_ok_iff.1 h).1

/-- A field of two bytes is below 2 to the 16. -/
theorem number_lt_half {offset n : Nat} (h : Image.number image field offset 2 = .ok n) :
    n < 0x10000 :=
  (number_eq_ok_iff.1 h).1

/-! ## Sections -/

/-- The fields of a section are numbers of 32 bits. -/
structure IsSmall (s : Section) : Prop where
  virtualSize : s.virtualSize < 0x100000000
  virtualAddress : s.virtualAddress < 0x100000000
  rawSize : s.rawSize < 0x100000000
  rawPointer : s.rawPointer < 0x100000000

theorem readSection_eq (faithful : a.Faithful) {offset : Nat}
    (h : offset + 24 < 0x10000000000000000) :
    readSection image offset = sure (Image.readSection a image offset) := by
  unfold readSection Image.readSection
  refine numberAt_bind faithful (by omega) (by omega) ?_
  intro virtualSize _
  refine numberAt_bind faithful (by omega) (by omega) ?_
  intro virtualAddress _
  refine numberAt_bind faithful (by omega) (by omega) ?_
  intro rawSize _
  refine numberAt_bind faithful (by omega) (by omega) ?_
  intro rawPointer _
  rfl

theorem isSmall_of_readSection {offset : Nat} {s : Section}
    (h : Image.readSection a image offset = .ok s) : IsSmall s := by
  unfold Image.readSection at h
  obtain ⟨virtualSize, hvirtualSize, h⟩ := bind_eq_ok_iff.1 h
  obtain ⟨virtualAddress, hvirtualAddress, h⟩ := bind_eq_ok_iff.1 h
  obtain ⟨rawSize, hrawSize, h⟩ := bind_eq_ok_iff.1 h
  obtain ⟨rawPointer, hrawPointer, h⟩ := bind_eq_ok_iff.1 h
  cases h
  exact ⟨number_lt_word hvirtualSize, number_lt_word hvirtualAddress, number_lt_word hrawSize,
    number_lt_word hrawPointer⟩

/-- A table has fewer than 2 to the 16 entries, of 40 bytes each. -/
theorem readSections_eq (faithful : a.Faithful) {table count : Nat}
    (htable : table < 0x1000000000) (hcount : count < 0x10000) :
    readSections image table count = sure (Image.readSections a image table count) := by
  unfold readSections Image.readSections
  apply mapM_eq_sure
  intro i hi
  rw [List.mem_range] at hi
  have hstride : i * sectionHeaderSize = 40 * i := Nat.mul_comm i 40
  rw [product_of_lt (by omega), pure_bind, sum_of_lt (by omega), pure_bind,
    faithful.mul (by omega), faithful.add (by omega)]
  exact readSection_eq faithful (by omega)

theorem isSmall_of_readSections {table count : Nat} {sections : List Section}
    (h : Image.readSections a image table count = .ok sections) : ∀ s ∈ sections, IsSmall s := by
  unfold Image.readSections at h
  obtain ⟨hlength, hall⟩ := mapM_eq_ok_iff.1 h
  intro s hs
  obtain ⟨i, hi⟩ := List.getElem?_of_mem hs
  have hlt : i < count := by
    rw [List.length_range] at hlength
    exact hlength ▸ (List.getElem?_eq_some_iff.1 hi).1
  exact isSmall_of_readSection (hall i i s (List.getElem?_range hlt) hi)

theorem holds_eq (faithful : a.Faithful) {s : Section} (small : IsSmall s) (address : Nat) :
    holds s address = pure (s.holds a address) := by
  have hstart := small.virtualAddress
  have hsize : max s.virtualSize s.rawSize < 0x100000000 :=
    Nat.max_lt.2 ⟨small.virtualSize, small.rawSize⟩
  unfold holds Section.holds
  rw [faithful.add (by omega)]
  split
  next hle => rw [sum_of_lt (by omega), pure_bind, decide_eq_true hle, Bool.true_and]
  next hlt => rw [decide_eq_false hlt, Bool.false_and]

theorem fileOffset?_eq (faithful : a.Faithful) {sections : List Section}
    (small : ∀ s ∈ sections, IsSmall s) {address : Nat} (haddress : address < 0x100000000) :
    fileOffset? sections address = pure (Image.fileOffset? a sections address) := by
  unfold fileOffset? Image.fileOffset?
  rw [findM?_eq_pure fun s hs => holds_eq faithful (small s hs) address, pure_bind]
  cases hfound : sections.find? (·.holds a address) with
  | none => rfl
  | some s =>
    -- the section that is found holds the address, so it does not begin above it
    have hholds := List.find?_some hfound
    rw [Section.holds, Bool.and_eq_true, decide_eq_true_iff] at hholds
    have hpointer := (small s (List.mem_of_find?_eq_some hfound)).rawPointer
    dsimp only
    rw [difference_of_le hholds.1, pure_bind, sum_of_lt (by omega), pure_bind, Option.map_some,
      faithful.sub hholds.1 haddress, faithful.add (by omega)]

theorem fileOffset?_lt (faithful : a.Faithful) {sections : List Section}
    (small : ∀ s ∈ sections, IsSmall s) {address offset : Nat} (haddress : address < 0x100000000)
    (h : Image.fileOffset? a sections address = some offset) : offset < 0x200000000 := by
  obtain ⟨s, hfound, rfl⟩ := Option.map_eq_some_iff.1 h
  have hholds := List.find?_some hfound
  rw [Section.holds, Bool.and_eq_true, decide_eq_true_iff] at hholds
  have hpointer := (small s (List.mem_of_find?_eq_some hfound)).rawPointer
  rw [faithful.sub hholds.1 haddress, faithful.add (by omega)]
  omega

/-! ## Headers -/

/-- Entries are 28 bytes apart. -/
theorem selectEntry_eq (faithful : a.Faithful) {offset remaining i : Nat}
    (h : offset + 28 * (i + remaining) + 28 < 0x10000000000000000) :
    selectEntry image offset remaining i
      = sure (Image.selectEntry a image offset remaining (offset + 28 * i)) := by
  induction remaining generalizing i with
  | zero => rfl
  | succ remaining ih =>
    have hstride : i * debugEntrySize = 28 * i := Nat.mul_comm i 28
    rw [selectEntry, Image.selectEntry, product_of_lt (by omega), pure_bind, sum_of_lt (by omega),
      pure_bind, hstride]
    refine numberAt_bind faithful (by omega) (by omega) ?_
    intro type _
    split
    · rfl
    · have hnext : a.add (offset + 28 * i) debugEntrySize = offset + 28 * (i + 1) :=
        faithful.add (y := 28) (by omega)
      rw [hnext]
      exact ih (by omega)

/-- The entry that is selected is one of the entries. -/
theorem selectEntry_le (faithful : a.Faithful) {offset count entry : Nat}
    (h : offset + 28 * count + 28 < 0x10000000000000000)
    (hentry : Image.selectEntry a image offset count offset = .ok entry) :
    entry ≤ offset + 28 * count := by
  have hexact : Image.selectEntry a image offset count offset
      = Image.selectEntry .exact image offset count offset :=
    sure_inj ((selectEntry_eq (i := 0) faithful (by omega)).symm.trans
      (selectEntry_eq (i := 0) Arithmetic.faithful_exact (by omega)))
  rw [hexact] at hentry
  rcases selectEntry_eq_ok_iff.1 hentry with ⟨k, hk, rfl, -⟩ | ⟨rfl, -⟩ <;> omega

/-- The places and the count of a file header come of numbers of 32 and of 16 bits. -/
structure IsSmallHeader (header : FileHeader) : Prop where
  sectionCount : header.sectionCount < 0x10000
  optionalHeader : header.optionalHeader < 0x200000000
  sectionTable : header.sectionTable < 0x200000000

theorem readFileHeader_eq (faithful : a.Faithful) :
    readFileHeader image = sure (Image.readFileHeader a image) := by
  unfold readFileHeader Image.readFileHeader
  rw [window_eq (by omega) (by omega)]
  apply sure_bind
  intro dos _
  split
  · rfl
  rw [number_eq (by omega) (by omega)]
  apply sure_bind
  intro newHeader hnewHeader
  have hlt := number_lt_word hnewHeader
  rw [window_eq (by omega) (by omega)]
  apply sure_bind
  intro signature _
  split
  · rfl
  have hadd : ∀ k ≤ 24, a.add newHeader k = newHeader + k := fun k _ => faithful.add (by omega)
  dsimp only
  rw [hadd 4 (by omega), hadd 6 (by omega), hadd 20 (by omega), hadd 24 (by omega),
    sum_of_lt (by omega), pure_bind, number_eq (by omega) (by omega)]
  apply sure_bind
  intro machine _
  rw [sum_of_lt (by omega), pure_bind, number_eq (by omega) (by omega)]
  apply sure_bind
  intro sectionCount _
  rw [sum_of_lt (by omega), pure_bind, number_eq (by omega) (by omega)]
  apply sure_bind
  intro optionalSize hoptionalSize
  have hsize := number_lt_half hoptionalSize
  rw [sum_of_lt (by omega), pure_bind, sum_of_lt (by omega), pure_bind, faithful.add (by omega)]
  rfl

theorem isSmallHeader_of_readFileHeader (faithful : a.Faithful) {header : FileHeader}
    (h : Image.readFileHeader a image = .ok header) : IsSmallHeader header := by
  have hexact : Image.readFileHeader a image = Image.readFileHeader .exact image :=
    sure_inj ((readFileHeader_eq faithful).symm.trans (readFileHeader_eq Arithmetic.faithful_exact))
  rw [hexact] at h
  obtain ⟨-, newHeader, optionalSize, ⟨hnewHeader, -⟩, -, -, ⟨hcount, -⟩, ⟨hoptionalSize, -⟩,
    hoptional, htable⟩ := readFileHeader_eq_ok_iff.1 h
  have hword : newHeader < 0x100000000 := hnewHeader
  have hhalf : optionalSize < 0x10000 := hoptionalSize
  exact ⟨hcount, by omega, by omega⟩

theorem findEntry_eq (faithful : a.Faithful) {header : FileHeader} (small : IsSmallHeader header)
    {address size : Nat} (haddress : address < 0x100000000) (hsize : size < 0x100000000) :
    findEntry image header address size = sure (Image.findEntry a image header address size) := by
  unfold findEntry Image.findEntry
  have htable := small.sectionTable
  rw [readSections_eq faithful (by omega) small.sectionCount]
  apply sure_bind
  intro sections hsections
  have hsmall := isSmall_of_readSections hsections
  rw [fileOffset?_eq faithful hsmall haddress, pure_bind]
  cases hoffset : Image.fileOffset? a sections address with
  | none => rfl
  | some offset =>
    have hlt := fileOffset?_lt faithful hsmall haddress hoffset
    have hcount : size / debugEntrySize ≤ size := Nat.div_le_self _ _
    exact selectEntry_eq faithful (by omega)

theorem findEntry_lt (faithful : a.Faithful) {header : FileHeader} {address size entry : Nat}
    (haddress : address < 0x100000000) (hsize : size < 0x100000000)
    (h : Image.findEntry a image header address size = .ok entry) : entry < 0x4000000000 := by
  unfold Image.findEntry at h
  obtain ⟨sections, hsections, h⟩ := bind_eq_ok_iff.1 h
  split at h
  next => cases h
  next offset hoffset =>
    have hlt := fileOffset?_lt faithful (isSmall_of_readSections hsections) haddress hoffset
    have hcount : size / debugEntrySize ≤ size := Nat.div_le_self _ _
    have hle := selectEntry_le faithful (by omega) h
    omega

/-! ## The place of the record -/

theorem directoryPlaces?_le {machine countPlace directoriesPlace : Nat}
    (h : directoryPlaces? machine = some (countPlace, directoriesPlace)) :
    countPlace ≤ 108 ∧ directoriesPlace ≤ 112 := by
  rcases directoryPlaces?_eq_some_iff.1 h with ⟨-, hcount, hplace⟩ | ⟨-, hcount, hplace⟩ <;> omega

theorem locate_eq (faithful : a.Faithful) : locate image = safe (Image.locate a image) := by
  unfold locate Image.locate
  rw [readFileHeader_eq faithful]
  apply safe_bind
  intro header hheader
  have small := isSmallHeader_of_readFileHeader faithful hheader
  have hoptional := small.optionalHeader
  cases hplaces : directoryPlaces? header.machine with
  | none => rfl
  | some places =>
    obtain ⟨countPlace, directoriesPlace⟩ := places
    obtain ⟨hcountPlace, hdirectoriesPlace⟩ := directoryPlaces?_le hplaces
    dsimp only
    refine numberAt_safe_bind faithful (by omega) (by omega) ?_
    intro directories _
    split
    · rfl
    have hstride : debugDirectoryIndex * 8 = 48 := rfl
    rw [sum_of_lt (by omega), pure_bind, product_of_lt (by omega), pure_bind,
      sum_of_lt (by omega), pure_bind, faithful.add (x := header.optionalHeader) (by omega),
      faithful.mul (by omega), faithful.add (y := debugDirectoryIndex * 8) (by omega),
      number_eq (by omega) (by omega)]
    apply safe_bind
    intro address haddress
    refine numberAt_safe_bind faithful (by omega) (by omega) ?_
    intro size hsize
    split
    · rfl
    rw [findEntry_eq faithful small (number_lt_word haddress) (number_lt_word hsize)]
    apply safe_bind
    intro entry hentry
    have hlt := findEntry_lt faithful (number_lt_word haddress) (number_lt_word hsize) hentry
    refine numberAt_safe_bind faithful (by omega) (by omega) ?_
    intro dataSize _
    refine numberAt_safe_bind faithful (by omega) (by omega) ?_
    intro dataPointer _
    split
    · rfl
    · rfl

theorem locate_lt (faithful : a.Faithful) {pointer size : Nat}
    (h : (Image.locate a image).outcome = .ok (some (pointer, size))) :
    pointer < 0x100000000 ∧ size < 0x100000000 := by
  have hexact : Image.locate a image = Image.locate .exact image :=
    safe_inj ((locate_eq faithful).symm.trans (locate_eq Arithmetic.faithful_exact))
  rw [hexact] at h
  obtain ⟨l, hlaidOut, rfl, rfl⟩ := laidOut_of_locate h
  exact ⟨hlaidOut.dataPointer.1, hlaidOut.dataSize.1⟩

theorem recordAt_eq {pointer size : Nat} (h : pointer + size < 0x10000000000000000) :
    recordAt image pointer size = sure (Image.recordAt image pointer size) := by
  unfold recordAt
  split
  next houtside =>
    unfold Image.recordAt
    rw [List.drop_eq_nil_of_le houtside]
  next hinside =>
    have hrecord : Image.recordAt image pointer size = .ok ((image.drop pointer).take size) :=
      recordAt_eq_ok_iff.2 ⟨Nat.lt_of_not_le hinside, rfl⟩
    rw [hrecord, sum?_of_lt h, Option.getD_some, part_of_le (by omega) (Nat.min_le_right _ _)]
    have hcut : min (pointer + size) image.length - pointer
        = min size (image.drop pointer).length := by
      rw [List.length_drop]
      omega
    rw [hcut, ← List.take_eq_take_min]
    rfl

/-! ## Debug records -/

theorem uniqueId_eq {id : Bytes} (h : id.length = 16) :
    uniqueId id = pure (Image.uniqueId id) := by
  unfold uniqueId
  rw [bytesFrom_of_le (by omega), pure_bind, bytesFrom_of_le (by omega), pure_bind,
    bytesFrom_of_le (by omega), pure_bind, part_to_end (by omega), pure_bind, List.drop_zero]
  have hlength : ∀ start width : Nat, start + width ≤ 16 →
      ((id.drop start).take width).length = width := by
    intro start width hle
    rw [List.length_take, List.length_drop]
    omega
  have hwords : Image.uniqueId (id.take 4
      ++ ((id.drop 4).take 2 ++ ((id.drop 6).take 2 ++ id.drop 8))) = _ :=
    uniqueId_append (hlength 0 4 (by omega)) (hlength 4 2 (by omega)) (hlength 6 2 (by omega))
  rw [take_drop_uniqueId] at hwords
  rw [hwords]

/-- The last component of a path begins behind its last separator. -/
theorem lastComponent_of_lastSeparator? {text : List Char} {place : Nat}
    (h : lastSeparator? text 0 = some place) :
    place < size text ∧ textFrom text (place + 1) = pure (lastComponent text) := by
  obtain ⟨above, c, name, rfl, hc, hname, rfl⟩ := lastSeparator?_eq_some h
  have hsize : size (above ++ [c]) = size above + 1 := by
    rw [size_append, ← utf8Size_of_isSeparator hc]
    rfl
  have hsplit : above ++ c :: name = (above ++ [c]) ++ name := by simp
  have hlast : lastComponent (above ++ c :: name) = name := by
    refine lastComponent_eq_iff.2 ⟨above ++ [c], hsplit, fun d hd => ?_, .inr ⟨above, ?_⟩⟩
    · have hplain := Bool.eq_false_iff.1 (hname d hd)
      rw [ne_eq, isSeparator_iff, not_or] at hplain
      exact hplain
    · rcases isSeparator_iff.1 hc with rfl | rfl
      · exact .inl rfl
      · exact .inr rfl
  rw [hlast, hsplit, Nat.zero_add, ← hsize, textFrom_append]
  refine ⟨?_, rfl⟩
  rw [size_append, hsize]
  omega

theorem lastComponent_of_plain {text : List Char} (h : lastSeparator? text 0 = none) :
    lastComponent text = text := by
  refine lastComponent_eq_iff.2 ⟨[], rfl, fun c hc => ?_, .inl rfl⟩
  have hplain := Bool.eq_false_iff.1 (lastSeparator?_eq_none h c hc)
  rw [ne_eq, isSeparator_iff, not_or] at hplain
  exact hplain

theorem fileName_eq {bytes : Bytes} (h : bytes.length < 0x100000000) :
    fileName bytes = pure (Image.fileName bytes) := by
  have hpath : part bytes 0 ((bytes.findIdx? (· = 0)).getD bytes.length)
      = pure (bytes.takeWhile (· ≠ 0)) := by
    rw [← List.findIdx_eq_getD_findIdx?, part_of_le (Nat.zero_le _) List.findIdx_le_length,
      List.drop_zero, Nat.sub_zero, List.takeWhile_eq_take_findIdx_not]
    simp
  unfold fileName Image.fileName
  rw [hpath, pure_bind]
  have hlossy := Utf8.length_lossy_le (bytes.takeWhile (· ≠ 0))
  have htake : (bytes.takeWhile (· ≠ 0)).length ≤ bytes.length :=
    (List.takeWhile_prefix _).length_le
  generalize (Utf8.lossy (bytes.takeWhile (· ≠ 0))).toList = text at hlossy
  have hsize := size_le text
  dsimp only
  cases hlast : lastSeparator? text 0 with
  | none => rw [lastComponent_of_plain hlast]
  | some place =>
    obtain ⟨hplace, hname⟩ := lastComponent_of_lastSeparator? hlast
    dsimp only
    rw [sum_of_lt (by omega), pure_bind, hname, pure_bind]

theorem ofRecord_eq {record : Bytes} (h : record.length < 0x100000000) :
    ofRecord record = safe (Image.ofRecord record) := by
  have hsignature : (part? record 0 4).getD []
      = if record.length < 4 then [] else record.take 4 := by
    by_cases hshort : record.length < 4
    · rw [part?, if_neg (by omega), if_pos hshort, Option.getD_none]
    · rw [part?_of_le (by omega) (by omega), if_neg hshort, Option.getD_some, List.drop_zero]
  have hheader : ∀ {start width size : Nat}, start + width ≤ size →
      ((record.take size).drop start).take width = (record.drop start).take width := by
    intro start width size hle
    rw [List.drop_take, List.take_take, Nat.min_eq_left (by omega)]
  have hname : ∀ {start : Nat}, fileName (record.drop start)
      = pure (Image.fileName (record.drop start)) := by
    intro start
    apply fileName_eq
    rw [List.length_drop]
    omega
  unfold ofRecord Image.ofRecord
  rw [hsignature]
  dsimp only
  generalize (if record.length < 4 then [] else record.take 4) = signature
  split
  · by_cases hlong : record.length < 24
    · rw [part?, if_neg (by omega), if_pos hlong]
    · have hlength : (record.take 24).length = 24 := List.length_take_of_le (by omega)
      rw [part?_of_le (by omega) (by omega), if_neg hlong, List.drop_zero, Nat.sub_zero]
      dsimp only
      rw [part_of_le (by omega) (by omega), pure_bind, hheader (by omega),
        sized_of_length (by rw [List.length_take, List.length_drop]; omega), pure_bind,
        bytesFrom_of_le (by omega), pure_bind, hheader (by omega), part_to_end (by omega),
        pure_bind, hname, pure_bind,
        uniqueId_eq (by rw [List.length_take, List.length_drop]; omega), pure_bind]
      rfl
  · split
    · by_cases hlong : record.length < 16
      · rw [part?, if_neg (by omega), if_pos hlong]
      · have hlength : (record.take 16).length = 16 := List.length_take_of_le (by omega)
        have hdigits := flatMap_fixed_reverse ((record.drop 8).take 4)
        have hfour : ((record.drop 8).take 4).length = 4 := by
          rw [List.length_take, List.length_drop]
          omega
        rw [hfour] at hdigits
        rw [part?_of_le (by omega) (by omega), if_neg hlong, List.drop_zero, Nat.sub_zero]
        dsimp only
        rw [bytesFrom_of_le (by omega), pure_bind, hheader (by omega),
          bytesFrom_of_le (by omega), pure_bind, hheader (by omega), part_to_end (by omega),
          pure_bind, hname, pure_bind, upperHex, hdigits]
        rfl
    · rfl

/-- The reader on a machine does not break off, and does what the reader does with any arithmetic
that computes words exactly. -/
theorem identity_eq (faithful : a.Faithful) : identity image = safe (identityBy a image) := by
  unfold identity identityBy
  rw [locate_eq faithful]
  apply safe_bind
  intro found hfound
  cases found with
  | none => rfl
  | some place =>
    obtain ⟨pointer, size⟩ := place
    obtain ⟨hpointer, hsize⟩ := locate_lt faithful hfound
    dsimp only
    rw [recordAt_eq (by omega)]
    apply safe_bind
    intro record hrecord
    obtain ⟨-, rfl⟩ := recordAt_eq_ok_iff.1 hrecord
    apply ofRecord_eq
    rw [List.length_take]
    omega

end Strict

/-! ## Faults -/

/-- A failure is for an image of another kind of machine, or for a defect of the image. -/
def FailsForImage {α : Type} (outcome : Except Fault α) : Prop :=
  ∀ fault, outcome = .error fault →
    (∃ machine, fault = .unsupportedImage machine) ∨ ∃ defect, fault = .malformedImage defect

namespace FailsForImage

variable {α β : Type} {a : Arithmetic} {image : Bytes} {field : ImageField}

theorem ok (x : α) : FailsForImage (.ok x) := by
  intro fault h
  cases h

theorem defect (d : ImageDefect) : FailsForImage (.error (.malformedImage d) : Except Fault α) := by
  intro fault h
  cases h
  exact .inr ⟨d, rfl⟩

theorem bind {x : Except Fault α} {f : α → Except Fault β} (hx : FailsForImage x)
    (hf : ∀ b, FailsForImage (f b)) : FailsForImage (x >>= f) := by
  cases x with
  | error fault =>
    intro fault' h
    cases h
    exact hx fault rfl
  | ok b => exact hf b

theorem mapM {l : List α} {f : α → Except Fault β} (hf : ∀ b, FailsForImage (f b)) :
    FailsForImage (l.mapM f) := by
  induction l with
  | nil => exact ok []
  | cons b l ih =>
    rw [List.mapM_cons]
    exact (hf b).bind fun _ => ih.bind fun _ => ok _

theorem window (offset length : Nat) : FailsForImage (Image.window image field offset length) := by
  unfold Image.window
  dsimp only
  split
  · exact ok _
  · exact defect _

theorem number (offset width : Nat) : FailsForImage (Image.number image field offset width) := by
  unfold Image.number
  have hwindow : FailsForImage (Image.window image field offset width) := window offset width
  cases h : Image.window image field offset width with
  | error fault =>
    rw [h] at hwindow
    intro fault' h'
    cases h'
    exact hwindow fault rfl
  | ok bytes => exact ok _

theorem readSection (offset : Nat) : FailsForImage (Image.readSection a image offset) := by
  unfold Image.readSection
  refine (number _ _).bind fun _ => (number _ _).bind fun _ => ?_
  exact (number _ _).bind fun _ => (number _ _).bind fun _ => ok _

theorem selectEntry (fallback remaining entry : Nat) :
    FailsForImage (Image.selectEntry a image fallback remaining entry) := by
  induction remaining generalizing entry with
  | zero => exact ok _
  | succ remaining ih =>
    rw [Image.selectEntry]
    refine (number _ _).bind fun type => ?_
    split
    · exact ok _
    · exact ih _

theorem readFileHeader : FailsForImage (Image.readFileHeader a image) := by
  unfold Image.readFileHeader
  refine (window _ _).bind fun dos => ?_
  split
  · exact defect _
  refine (number _ _).bind fun newHeader => (window _ _).bind fun signature => ?_
  split
  · exact defect _
  refine (number _ _).bind fun _ => (number _ _).bind fun _ => ?_
  exact (number _ _).bind fun _ => ok _

theorem findEntry (header : FileHeader) (address size : Nat) :
    FailsForImage (Image.findEntry a image header address size) := by
  unfold Image.findEntry
  refine (mapM fun _ => readSection _).bind fun sections => ?_
  split
  · exact defect _
  · exact selectEntry _ _ _

theorem locate : FailsForImage (Image.locate a image).outcome := by
  unfold Image.locate
  rw [Traced.outcome_bind]
  refine readFileHeader.bind fun header => ?_
  split
  · intro fault h
    cases h
    exact .inl ⟨_, rfl⟩
  rw [Traced.outcome_bind]
  refine (number _ _).bind fun directories => ?_
  split
  · exact ok _
  dsimp only
  rw [Traced.outcome_bind]
  refine (number _ _).bind fun address => ?_
  rw [Traced.outcome_bind]
  refine (number _ _).bind fun size => ?_
  split
  · exact ok _
  rw [Traced.outcome_bind]
  refine (findEntry _ _ _).bind fun entry => ?_
  rw [Traced.outcome_bind]
  refine (number _ _).bind fun dataSize => ?_
  rw [Traced.outcome_bind]
  refine (number _ _).bind fun dataPointer => ?_
  split
  · exact ok _
  · exact ok _

theorem recordAt (pointer size : Nat) : FailsForImage (Image.recordAt image pointer size) := by
  unfold Image.recordAt
  split
  · exact defect _
  · exact ok _

theorem ofRecord (record : Bytes) : FailsForImage (Image.ofRecord record).outcome := by
  unfold Image.ofRecord
  dsimp only
  generalize (if record.length < 4 then [] else record.take 4) = signature
  split
  · split
    · exact defect _
    · exact ok _
  · split
    · split
      · exact defect _
      · exact ok _
    · exact ok _

theorem identityBy : FailsForImage (Image.identityBy a image).outcome := by
  unfold Image.identityBy
  rw [Traced.outcome_bind]
  refine locate.bind fun found => ?_
  split
  · exact ok _
  · rw [Traced.outcome_bind]
    exact (recordAt _ _).bind fun _ => ofRecord _

end FailsForImage

/-! ## The whole image -/

/-- **Reading an image never breaks off.** For every image, the reader on a machine does what
`identity` does, which is also what it does with machine words that wrap around. It gives an
identity, or refuses the machine of the image, or finds a defect in it. -/
theorem identity_never_breaks_off (image : Bytes) :
    Strict.identity image = Strict.safe (identity image) ∧
      identityBy .words image = identity image ∧
      ((∃ id, (identity image).outcome = .ok id) ∨
        (∃ machine, (identity image).outcome = .error (.unsupportedImage machine)) ∨
        ∃ defect, (identity image).outcome = .error (.malformedImage defect)) := by
  have hexact : Strict.identity image = Strict.safe (identity image) :=
    Strict.identity_eq Arithmetic.faithful_exact
  have hwords : Strict.identity image = Strict.safe (identityBy .words image) :=
    Strict.identity_eq Arithmetic.faithful_words
  refine ⟨hexact, Strict.safe_inj (hwords.symm.trans hexact), ?_⟩
  have hfails : FailsForImage (identity image).outcome := FailsForImage.identityBy
  cases houtcome : (identity image).outcome with
  | ok id => exact .inl ⟨id, rfl⟩
  | error fault =>
    right
    rcases hfails fault houtcome with ⟨machine, rfl⟩ | ⟨d, rfl⟩
    · exact .inl ⟨machine, rfl⟩
    · exact .inr ⟨d, rfl⟩

end OffsetService.Image
