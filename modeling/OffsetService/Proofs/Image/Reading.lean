import OffsetService.Proofs.Image.Layout

/-!
# What the readers of an image accept

Each reader succeeds exactly when the image holds what it reads, and then its result is what is
there: a field (`number_eq_ok_iff`), the file header (`readFileHeader_eq_ok_iff`), the section
table, the choice of a debug entry (`selectEntry_eq_ok_iff`), and the record that `locate` finds
(`laidOut_of_locate`, `locate_of_laidOut`).
-/

namespace OffsetService.Image

variable {image : Bytes} {field : ImageField}

/-- A sequence succeeds when its first part does and then its second part. -/
theorem bind_eq_ok_iff {α β : Type} {x : Except Fault α} {f : α → Except Fault β} {b : β} :
    x >>= f = .ok b ↔ ∃ a, x = .ok a ∧ f a = .ok b := by
  cases x with
  | error fault =>
    constructor
    · intro h
      cases h
    · rintro ⟨a, h, -⟩
      cases h
  | ok a =>
    constructor
    · intro h
      exact ⟨a, rfl, h⟩
    · rintro ⟨a', h, h'⟩
      cases h
      exact h'

/-! ## Fields -/

theorem window_eq_ok_iff {place length : Nat} {bytes : Bytes} :
    window image field place length = .ok bytes
      ↔ Holds image place bytes ∧ bytes.length = length := by
  unfold window
  constructor
  · intro h
    dsimp only at h
    split at h
    next hlength =>
      cases h
      exact ⟨List.take_prefix _ _, hlength⟩
    next => cases h
  · rintro ⟨hholds, rfl⟩
    have htake := List.prefix_iff_eq_take.1 hholds
    dsimp only
    rw [← htake, if_pos rfl]

theorem number_eq_ok_iff {place width n : Nat} :
    number image field place width = .ok n ↔ Spells image place width n := by
  unfold number Spells
  constructor
  · intro h
    cases hwindow : window image field place width with
    | error fault => rw [hwindow] at h; cases h
    | ok bytes =>
      rw [hwindow] at h
      cases h
      obtain ⟨hholds, rfl⟩ := window_eq_ok_iff.1 hwindow
      refine ⟨Bytes.littleEndian_lt bytes, ?_⟩
      rw [Bytes.word_littleEndian]
      exact hholds
  · rintro ⟨hlt, hholds⟩
    rw [window_eq_ok_iff.2 ⟨hholds, Bytes.length_word width n⟩]
    show Except.ok (Bytes.littleEndian (Bytes.word width n)) = _
    rw [Bytes.littleEndian_word, Nat.mod_eq_of_lt hlt]

/-- A field that is inside the image spells some number. -/
theorem Spells.le_length {place width n : Nat} (h : Spells image place width n)
    (hwidth : 0 < width) :
    place + width ≤ image.length := by
  have hle := h.2.length_le
  rw [Bytes.length_word, List.length_drop] at hle
  omega

/-! ## The file header -/

theorem readFileHeader_eq_ok_iff {header : FileHeader} :
    readFileHeader .exact image = .ok header ↔
      Holds image 0 [0x4D, 0x5A] ∧ ∃ newHeader optionalSize, Spells image 0x3C 4 newHeader ∧
        Holds image newHeader [0x50, 0x45, 0, 0] ∧
        Spells image (newHeader + 4) 2 header.machine ∧
        Spells image (newHeader + 6) 2 header.sectionCount ∧
        Spells image (newHeader + 20) 2 optionalSize ∧
        header.optionalHeader = newHeader + 24 ∧
        header.sectionTable = newHeader + 24 + optionalSize := by
  unfold readFileHeader
  constructor
  · intro h
    obtain ⟨dos, hdos, h⟩ := bind_eq_ok_iff.1 h
    split at h
    next => cases h
    next hdosEq =>
      obtain ⟨newHeader, hnewHeader, h⟩ := bind_eq_ok_iff.1 h
      obtain ⟨signature, hsignature, h⟩ := bind_eq_ok_iff.1 h
      split at h
      next => cases h
      next hsignatureEq =>
        obtain ⟨machine, hmachine, h⟩ := bind_eq_ok_iff.1 h
        obtain ⟨sectionCount, hsectionCount, h⟩ := bind_eq_ok_iff.1 h
        obtain ⟨optionalSize, hoptionalSize, h⟩ := bind_eq_ok_iff.1 h
        cases h
        rw [Decidable.not_not] at hdosEq hsignatureEq
        subst hdosEq hsignatureEq
        exact ⟨(window_eq_ok_iff.1 hdos).1, newHeader, optionalSize, number_eq_ok_iff.1 hnewHeader,
          (window_eq_ok_iff.1 hsignature).1, number_eq_ok_iff.1 hmachine,
          number_eq_ok_iff.1 hsectionCount, number_eq_ok_iff.1 hoptionalSize, rfl, rfl⟩
  · rintro ⟨hdos, newHeader, optionalSize, hnewHeader, hsignature, hmachine, hsectionCount,
      hoptionalSize, hoptional, htable⟩
    refine bind_eq_ok_iff.2 ⟨_, window_eq_ok_iff.2 ⟨hdos, rfl⟩, ?_⟩
    rw [if_neg (by simp)]
    refine bind_eq_ok_iff.2 ⟨newHeader, number_eq_ok_iff.2 hnewHeader, ?_⟩
    refine bind_eq_ok_iff.2 ⟨_, window_eq_ok_iff.2 ⟨hsignature, rfl⟩, ?_⟩
    rw [if_neg (by simp)]
    refine bind_eq_ok_iff.2 ⟨header.machine, number_eq_ok_iff.2 hmachine, ?_⟩
    refine bind_eq_ok_iff.2 ⟨header.sectionCount, number_eq_ok_iff.2 hsectionCount, ?_⟩
    refine bind_eq_ok_iff.2 ⟨optionalSize, number_eq_ok_iff.2 hoptionalSize, ?_⟩
    obtain ⟨machine, sectionCount, optionalHeader, sectionTable⟩ := header
    obtain rfl := hoptional
    obtain rfl := htable
    rfl

/-! ## Sections -/

theorem readSection_eq_ok_iff {place : Nat} {s : Section} :
    readSection .exact image place = .ok s ↔ HasSection sectionFieldsEnd image place s := by
  unfold readSection
  constructor
  · intro h
    obtain ⟨virtualSize, hvirtualSize, h⟩ := bind_eq_ok_iff.1 h
    obtain ⟨virtualAddress, hvirtualAddress, h⟩ := bind_eq_ok_iff.1 h
    obtain ⟨rawSize, hrawSize, h⟩ := bind_eq_ok_iff.1 h
    obtain ⟨rawPointer, hrawPointer, h⟩ := bind_eq_ok_iff.1 h
    cases h
    have hlast := number_eq_ok_iff.1 hrawPointer
    exact ⟨hlast.le_length (by decide), number_eq_ok_iff.1 hvirtualSize,
      number_eq_ok_iff.1 hvirtualAddress, number_eq_ok_iff.1 hrawSize, hlast⟩
  · rintro ⟨-, hvirtualSize, hvirtualAddress, hrawSize, hrawPointer⟩
    refine bind_eq_ok_iff.2 ⟨_, number_eq_ok_iff.2 hvirtualSize, ?_⟩
    refine bind_eq_ok_iff.2 ⟨_, number_eq_ok_iff.2 hvirtualAddress, ?_⟩
    refine bind_eq_ok_iff.2 ⟨_, number_eq_ok_iff.2 hrawSize, ?_⟩
    exact bind_eq_ok_iff.2 ⟨_, number_eq_ok_iff.2 hrawPointer, rfl⟩

/-- Reading one thing after another succeeds when each reading does. -/
theorem mapM_eq_ok_iff {α β : Type} {f : α → Except Fault β} {as : List α} {bs : List β} :
    as.mapM f = .ok bs ↔ bs.length = as.length ∧
      ∀ (i : Nat) (a : α) (b : β), as[i]? = some a → bs[i]? = some b → f a = .ok b := by
  induction as generalizing bs with
  | nil =>
    rw [List.mapM_nil]
    constructor
    · intro h
      cases h
      exact ⟨rfl, fun i a b ha => by cases ha⟩
    · rintro ⟨hlength, -⟩
      rw [List.length_eq_zero_iff.1 hlength]
      rfl
  | cons a as ih =>
    rw [List.mapM_cons]
    constructor
    · intro h
      obtain ⟨b, hb, h⟩ := bind_eq_ok_iff.1 h
      obtain ⟨rest, hrest, h⟩ := bind_eq_ok_iff.1 h
      cases h
      obtain ⟨hlength, hall⟩ := ih.1 hrest
      refine ⟨by simp [hlength], fun i a' b' ha hb' => ?_⟩
      cases i with
      | zero => cases ha; cases hb'; exact hb
      | succ i => exact hall i a' b' ha hb'
    · rintro ⟨hlength, hall⟩
      cases bs with
      | nil => cases hlength
      | cons b bs =>
        refine bind_eq_ok_iff.2 ⟨b, hall 0 a b rfl rfl, ?_⟩
        refine bind_eq_ok_iff.2 ⟨bs, ih.2 ⟨Nat.succ.inj hlength, ?_⟩, rfl⟩
        exact fun i a' b' ha hb => hall (i + 1) a' b' ha hb

theorem readSections_eq_ok_iff {table count : Nat} {sections : List Section} :
    readSections .exact image table count = .ok sections ↔ sections.length = count ∧
      ∀ i s, sections[i]? = some s → HasSection sectionFieldsEnd image (table + 40 * i) s := by
  unfold readSections
  rw [mapM_eq_ok_iff, List.length_range]
  refine and_congr_right fun hlength => ?_
  constructor
  · intro h i s hs
    have hi : i < count := hlength ▸ (List.getElem?_eq_some_iff.1 hs).1
    have hread := h i i s (List.getElem?_range hi) hs
    rw [Nat.mul_comm 40 i]
    exact readSection_eq_ok_iff.1 hread
  · intro h i j s hj hs
    obtain ⟨hi, rfl⟩ : i < count ∧ i = j := by
      obtain ⟨hi, hget⟩ := List.getElem?_eq_some_iff.1 hj
      rw [List.length_range] at hi
      rw [List.getElem_range] at hget
      exact ⟨hi, hget⟩
    have hsection := h i s hs
    rw [Nat.mul_comm 40 i] at hsection
    exact readSection_eq_ok_iff.2 hsection

theorem holds_iff {s : Section} {address : Nat} :
    s.holds .exact address = true ↔ s.Maps address := by
  rw [Section.holds, Bool.and_eq_true, decide_eq_true_iff, decide_eq_true_iff]
  exact Iff.rfl

theorem fileOffset?_eq_some_iff {sections : List Section} {address offset : Nat} :
    fileOffset? .exact sections address = some offset ↔ MappedTo sections address offset := by
  unfold fileOffset? MappedTo
  rw [Option.map_eq_some_iff]
  constructor
  · rintro ⟨s, hfound, rfl⟩
    obtain ⟨hholds, before, after, hsplit, hbefore⟩ := List.find?_eq_some_iff_append.1 hfound
    refine ⟨before, s, after, hsplit, holds_iff.1 hholds, fun earlier hmem hmaps => ?_, rfl⟩
    have := hbefore earlier hmem
    rw [holds_iff.2 hmaps] at this
    cases this
  · rintro ⟨before, s, after, hsplit, hmaps, hbefore, rfl⟩
    refine ⟨s, List.find?_eq_some_iff_append.2 ⟨holds_iff.2 hmaps, before, after, hsplit, ?_⟩, rfl⟩
    intro earlier hmem
    rw [Bool.not_eq_true', Bool.eq_false_iff]
    exact fun hholds => hbefore earlier hmem (holds_iff.1 hholds)

/-! ## Debug entries -/

theorem selectEntry_eq_ok_iff {fallback count place entry : Nat} :
    selectEntry .exact image fallback count place = .ok entry ↔
      (∃ k < count, entry = place + 28 * k ∧ Spells image (entry + 12) 4 2 ∧
        ∀ j < k, ∃ type, type ≠ 2 ∧ Spells image (place + 28 * j + 12) 4 type) ∨
      (entry = fallback ∧
        ∀ j < count, ∃ type, type ≠ 2 ∧ Spells image (place + 28 * j + 12) 4 type) := by
  induction count generalizing place with
  | zero =>
    rw [selectEntry]
    constructor
    · intro h
      cases h
      exact .inr ⟨rfl, fun j hj => absurd hj (Nat.not_lt_zero j)⟩
    · rintro (⟨k, hk, -⟩ | ⟨rfl, -⟩)
      · exact absurd hk (Nat.not_lt_zero k)
      · rfl
  | succ count ih =>
    rw [selectEntry, bind_eq_ok_iff]
    -- the entry after the first one at `place` is entry 0 of those that remain
    have hnext : ∀ j, place + 28 * (j + 1) = place + 28 + 28 * j := fun j => by omega
    constructor
    · rintro ⟨type, htype, h⟩
      have hspells : Spells image (place + 12) 4 type := number_eq_ok_iff.1 htype
      split at h
      next heq =>
        cases h
        have htwo : type = 2 := heq
        refine .inl ⟨0, Nat.succ_pos _, rfl, htwo ▸ hspells, fun j hj => ?_⟩
        exact absurd hj (Nat.not_lt_zero j)
      next hne =>
        have hfirst : ∃ type, type ≠ 2 ∧ Spells image (place + 28 * 0 + 12) 4 type :=
          ⟨type, hne, hspells⟩
        rcases ih.1 h with ⟨k, hk, hentry, htwo, hothers⟩ | ⟨hentry, hothers⟩
        · have hplace : entry = place + 28 * (k + 1) := hentry.trans (hnext k).symm
          refine .inl ⟨k + 1, Nat.succ_lt_succ hk, hplace, htwo, fun j hj => ?_⟩
          cases j with
          | zero => exact hfirst
          | succ j => rw [hnext]; exact hothers j (Nat.lt_of_succ_lt_succ hj)
        · refine .inr ⟨hentry, fun j hj => ?_⟩
          cases j with
          | zero => exact hfirst
          | succ j => rw [hnext]; exact hothers j (Nat.lt_of_succ_lt_succ hj)
    · have hrest : ∀ {n}, (∀ j < n + 1, ∃ type, type ≠ 2 ∧
          Spells image (place + 28 * j + 12) 4 type) →
          ∀ j < n, ∃ type, type ≠ 2 ∧ Spells image (place + 28 + 28 * j + 12) 4 type := by
        intro n h j hj
        rw [← hnext]
        exact h (j + 1) (Nat.succ_lt_succ hj)
      rintro (⟨k, hk, hentry, htwo, hothers⟩ | ⟨hentry, hothers⟩)
      · cases k with
        | zero =>
          obtain rfl : entry = place := hentry
          exact ⟨2, number_eq_ok_iff.2 htwo, if_pos rfl⟩
        | succ k =>
          obtain ⟨type, hne, hspells⟩ := hothers 0 (Nat.succ_pos k)
          refine ⟨type, number_eq_ok_iff.2 hspells, ?_⟩
          rw [hnext] at hentry
          refine (if_neg hne).trans (ih.2 ?_)
          exact .inl ⟨k, Nat.lt_of_succ_lt_succ hk, hentry, htwo, hrest hothers⟩
      · obtain ⟨type, hne, hspells⟩ := hothers 0 (Nat.succ_pos count)
        refine ⟨type, number_eq_ok_iff.2 hspells, ?_⟩
        refine (if_neg hne).trans (ih.2 ?_)
        exact .inr ⟨hentry, hrest hothers⟩

theorem findEntry_eq_ok_iff {header : FileHeader} {address size entry : Nat} :
    findEntry .exact image header address size = .ok entry ↔
      ∃ sections offset, sections.length = header.sectionCount ∧
        (∀ i s, sections[i]? = some s →
          HasSection sectionFieldsEnd image (header.sectionTable + 40 * i) s) ∧
        MappedTo sections address offset ∧ Selected image offset (max 1 (size / 28)) entry := by
  unfold findEntry
  rw [bind_eq_ok_iff]
  have hcount : max (size / debugEntrySize) 1 = max 1 (size / 28) := Nat.max_comm _ _
  constructor
  · rintro ⟨sections, hsections, h⟩
    obtain ⟨hlength, hall⟩ := readSections_eq_ok_iff.1 hsections
    split at h
    next => cases h
    next offset hoffset =>
      rw [hcount] at h
      exact ⟨sections, offset, hlength, hall, fileOffset?_eq_some_iff.1 hoffset,
        selectEntry_eq_ok_iff.1 h⟩
  · rintro ⟨sections, offset, hlength, hall, hmapped, hselected⟩
    refine ⟨sections, readSections_eq_ok_iff.2 ⟨hlength, hall⟩, ?_⟩
    rw [fileOffset?_eq_some_iff.2 hmapped]
    dsimp only
    rw [hcount]
    exact selectEntry_eq_ok_iff.2 hselected

/-! ## The debug record -/

theorem directoryPlaces?_eq_some_iff {machine countPlace directoriesPlace : Nat} :
    directoryPlaces? machine = some (countPlace, directoriesPlace) ↔
      Keeps machine countPlace directoriesPlace := by
  unfold directoryPlaces? Keeps
  split
  next h => subst h; simp [eq_comm]
  next h =>
    split
    next h' => simp [h, h', eq_comm]
    next h' => simp [h, h']

/-- An image in which the reader finds a record has the layout that leads there. -/
theorem laidOut_of_locate {pointer size : Nat}
    (h : (locate .exact image).outcome = .ok (some (pointer, size))) :
    ∃ l, LaidOut sectionFieldsEnd image l ∧ l.dataPointer = pointer ∧ l.dataSize = size := by
  unfold locate at h
  rw [Traced.outcome_bind, Traced.outcome_ofExcept] at h
  obtain ⟨⟨machine, sectionCount, optionalHeader, sectionTable⟩, hheader, h⟩ := bind_eq_ok_iff.1 h
  obtain ⟨hdos, newHeader, optionalSize, hnewHeader, hpe, hmachine, hsectionCount, hoptionalSize,
    hoptional, htable⟩ := readFileHeader_eq_ok_iff.1 hheader
  obtain rfl : optionalHeader = newHeader + 24 := hoptional
  obtain rfl : sectionTable = newHeader + 24 + optionalSize := htable
  split at h
  next => cases h
  next countPlace directoriesPlace hplaces =>
    rw [Traced.outcome_bind, Traced.outcome_ofExcept] at h
    obtain ⟨directories, hdirectories, h⟩ := bind_eq_ok_iff.1 h
    split at h
    next => cases h
    next hmany =>
      dsimp only at h
      rw [Traced.outcome_bind, Traced.outcome_ofExcept] at h
      obtain ⟨address, haddress, h⟩ := bind_eq_ok_iff.1 h
      rw [Traced.outcome_bind, Traced.outcome_ofExcept] at h
      obtain ⟨directorySize, hdirectorySize, h⟩ := bind_eq_ok_iff.1 h
      split at h
      next => cases h
      next hpresent =>
        rw [Traced.outcome_bind, Traced.outcome_ofExcept] at h
        obtain ⟨entry, hentry, h⟩ := bind_eq_ok_iff.1 h
        obtain ⟨sections, offset, hlength, hall, hmapped, hselected⟩ :=
          findEntry_eq_ok_iff.1 hentry
        rw [Traced.outcome_bind, Traced.outcome_ofExcept] at h
        obtain ⟨dataSize, hdataSize, h⟩ := bind_eq_ok_iff.1 h
        rw [Traced.outcome_bind, Traced.outcome_ofExcept] at h
        obtain ⟨dataPointer, hdataPointer, h⟩ := bind_eq_ok_iff.1 h
        split at h
        next => cases h
        next hnonempty =>
          cases h
          refine ⟨⟨newHeader, machine, sectionCount, optionalSize, directories, address,
            directorySize, sections, offset, entry, size, pointer⟩, ?_, rfl, rfl⟩
          exact
            { dosSignature := hdos
              newHeader := hnewHeader
              peSignature := hpe
              machine := hmachine
              sectionCount := hsectionCount
              optionalSize := hoptionalSize
              directory := ⟨countPlace, directoriesPlace, directoryPlaces?_eq_some_iff.1 hplaces,
                number_eq_ok_iff.1 hdirectories, number_eq_ok_iff.1 haddress,
                number_eq_ok_iff.1 hdirectorySize⟩
              hasDirectory := Nat.lt_of_not_le hmany
              address_ne_zero := fun hzero => hpresent (.inl hzero)
              size_ne_zero := fun hzero => hpresent (.inr hzero)
              sections := ⟨hlength, hall⟩
              mapped := hmapped
              selected := hselected
              dataSize := number_eq_ok_iff.1 hdataSize
              dataSize_ne_zero := hnonempty
              dataPointer := number_eq_ok_iff.1 hdataPointer }

/-- In an image with the layout the reader finds the record. -/
theorem locate_of_laidOut {l : Layout} (h : LaidOut sectionFieldsEnd image l) :
    (locate .exact image).outcome = .ok (some (l.dataPointer, l.dataSize)) := by
  obtain ⟨countPlace, directoriesPlace, hkeeps, hdirectories, haddress, hsize⟩ := h.directory
  unfold locate
  rw [Traced.outcome_bind, Traced.outcome_ofExcept]
  refine bind_eq_ok_iff.2 ⟨⟨l.machine, l.sectionCount, l.optionalHeader, l.sectionTable⟩,
    readFileHeader_eq_ok_iff.2 ⟨h.dosSignature, l.newHeader, l.optionalSize, h.newHeader,
      h.peSignature, h.machine, h.sectionCount, h.optionalSize, rfl, rfl⟩, ?_⟩
  rw [directoryPlaces?_eq_some_iff.2 hkeeps]
  dsimp only
  rw [Traced.outcome_bind, Traced.outcome_ofExcept]
  refine bind_eq_ok_iff.2 ⟨l.directories, number_eq_ok_iff.2 hdirectories, ?_⟩
  have hmany : ¬l.directories ≤ debugDirectoryIndex := Nat.not_le_of_lt h.hasDirectory
  rw [if_neg hmany]
  rw [Traced.outcome_bind, Traced.outcome_ofExcept]
  refine bind_eq_ok_iff.2 ⟨l.address, number_eq_ok_iff.2 haddress, ?_⟩
  rw [Traced.outcome_bind, Traced.outcome_ofExcept]
  refine bind_eq_ok_iff.2 ⟨l.size, number_eq_ok_iff.2 hsize, ?_⟩
  rw [if_neg (not_or.2 ⟨h.address_ne_zero, h.size_ne_zero⟩)]
  rw [Traced.outcome_bind, Traced.outcome_ofExcept]
  refine bind_eq_ok_iff.2 ⟨l.entry, findEntry_eq_ok_iff.2 ⟨l.sections, l.offset, h.sections.1,
    h.sections.2, h.mapped, h.selected⟩, ?_⟩
  rw [Traced.outcome_bind, Traced.outcome_ofExcept]
  refine bind_eq_ok_iff.2 ⟨l.dataSize, number_eq_ok_iff.2 h.dataSize, ?_⟩
  rw [Traced.outcome_bind, Traced.outcome_ofExcept]
  refine bind_eq_ok_iff.2 ⟨l.dataPointer, number_eq_ok_iff.2 h.dataPointer, ?_⟩
  rw [if_neg h.dataSize_ne_zero]
  rfl

theorem recordAt_eq_ok_iff {pointer size : Nat} {record : Bytes} :
    recordAt image pointer size = .ok record ↔
      pointer < image.length ∧ record = (image.drop pointer).take size := by
  unfold recordAt
  split
  next hnil =>
    rw [List.drop_eq_nil_iff] at hnil
    constructor
    · intro h
      cases h
    · rintro ⟨hlt, -⟩
      omega
  next hne =>
    have hlt : pointer < image.length := by
      rw [← Nat.not_le]
      exact fun hle => hne (List.drop_eq_nil_iff.2 hle)
    constructor
    · intro h
      cases h
      exact ⟨hlt, rfl⟩
    · rintro ⟨-, rfl⟩
      rfl

end OffsetService.Image
