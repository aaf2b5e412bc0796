import OffsetService.Proofs.Database.Container
import OffsetService.Proofs.Database.Records

/-!
# Reading back the type stream

The records behind their lengths are read back one by one, and nothing else is read as records
(`records_eq_ok_iff`), so the type stream of a builder holds the data of its records, with the bounds
of their numbers (`ofBytes_typeStream`). A record is found at its number, and an index past the one
after the last is absent; what is found at that one index is not said here.
-/

namespace OffsetService

/-! ## Streams of records -/

namespace Container

open Builder

theorem nextRecord_framed {data : Bytes} (hshort : 2 ≤ data.length) (hlong : data.length ≤ 0xFFFF)
    (tooShort : DatabaseDefect) (rest : Bytes) :
    nextRecord tooShort (framed data ++ rest) = .ok (some (data, rest)) := by
  have hword : data.length < Bytes.capacity 2 := Nat.lt_succ_of_le hlong
  have hempty : (framed data ++ rest).isEmpty = false := rfl
  rw [nextRecord, hempty, if_neg Bool.false_ne_true, framed, List.append_assoc,
    takeNumber_word hword]
  show (if data.length < 2 then _ else _ : Except DatabaseDefect (Option (Bytes × Bytes))) = _
  rw [if_neg (by omega), Bytes.chop?_append]
  rfl

theorem takeRecords_framed {tooShort : DatabaseDefect} {datas : List Bytes}
    (h : ∀ data ∈ datas, 2 ≤ data.length ∧ data.length ≤ 0xFFFF) {fuel : Nat}
    (hfuel : (datas.flatMap framed).length < fuel) (found : List Bytes) :
    takeRecords tooShort fuel found (datas.flatMap framed) = .ok (found.reverse ++ datas) := by
  induction datas generalizing fuel found with
  | nil =>
    obtain ⟨fuel, rfl⟩ : ∃ n, fuel = n + 1 := ⟨fuel - 1, by omega⟩
    rw [List.append_nil]
    rfl
  | cons data datas ih =>
    obtain ⟨⟨hshort, hlong⟩, hrest⟩ := List.forall_mem_cons.1 h
    have hlength : (framed data).length = 2 + data.length := by
      rw [framed, List.length_append, Bytes.length_word]
    rw [List.flatMap_cons, List.length_append] at hfuel
    obtain ⟨fuel, rfl⟩ : ∃ n, fuel = n + 1 := ⟨fuel - 1, by omega⟩
    rw [List.flatMap_cons, takeRecords, nextRecord_framed hshort hlong]
    show takeRecords tooShort fuel (data :: found) (datas.flatMap framed) = _
    rw [ih hrest (by omega), List.reverse_cons, List.append_assoc, List.singleton_append]

theorem records_framed {tooShort : DatabaseDefect} {datas : List Bytes}
    (h : ∀ data ∈ datas, 2 ≤ data.length ∧ data.length ≤ 0xFFFF) :
    records tooShort (datas.flatMap framed) = .ok datas :=
  takeRecords_framed h (Nat.lt_succ_self _) []

/-- What is taken off a stream stood framed at its front, and nothing is taken off its end only. -/
theorem framed_of_nextRecord {tooShort : DatabaseDefect} {stream : Bytes}
    {next : Option (Bytes × Bytes)} (h : nextRecord tooShort stream = .ok next) :
    (next = none ∧ stream = []) ∨ ∃ data rest, next = some (data, rest) ∧
      stream = framed data ++ rest ∧ 2 ≤ data.length ∧ data.length ≤ 0xFFFF := by
  unfold nextRecord takeNumber at h
  split at h
  next hempty =>
    cases h
    exact .inl ⟨rfl, List.isEmpty_iff.1 hempty⟩
  next =>
    cases hsize : stream.chop? 2 with
    | none =>
      rw [hsize] at h
      cases h
    | some taken =>
      obtain ⟨head, behind⟩ := taken
      rw [hsize] at h
      change (if Bytes.littleEndian head < 2 then _ else _ : Except DatabaseDefect _) = _ at h
      split at h
      next => cases h
      next hshort =>
        cases hdata : behind.chop? (Bytes.littleEndian head) with
        | none =>
          rw [hdata] at h
          cases h
        | some taken =>
          obtain ⟨data, rest⟩ := taken
          rw [hdata] at h
          obtain ⟨rfl, hhead⟩ := Bytes.chop?_eq_some_iff.1 hsize
          obtain ⟨rfl, hlength⟩ := Bytes.chop?_eq_some_iff.1 hdata
          have hword : Bytes.word 2 data.length = head := by
            rw [hlength, ← hhead]
            exact Bytes.word_littleEndian head
          have hlong := Bytes.littleEndian_lt head
          rw [hhead] at hlong
          refine .inr ⟨data, rest, (Except.ok.inj h).symm, ?_, by omega, ?_⟩
          · rw [framed, hword, List.append_assoc]
          · rw [hlength]
            exact Nat.le_of_lt_succ hlong

theorem framed_of_takeRecords {tooShort : DatabaseDefect} {fuel : Nat} {found all : List Bytes}
    {stream : Bytes} (hfuel : stream.length < fuel)
    (h : takeRecords tooShort fuel found stream = .ok all) :
    ∃ datas, all = found.reverse ++ datas ∧ stream = datas.flatMap framed ∧
      ∀ data ∈ datas, 2 ≤ data.length ∧ data.length ≤ 0xFFFF := by
  induction fuel generalizing found stream with
  | zero => cases hfuel
  | succ fuel ih =>
    rw [takeRecords] at h
    cases hnext : nextRecord tooShort stream with
    | error defect =>
      rw [hnext] at h
      cases h
    | ok next =>
      rw [hnext] at h
      rcases framed_of_nextRecord hnext with ⟨rfl, rfl⟩ | ⟨data, rest, rfl, rfl, hdata⟩
      · cases h
        exact ⟨[], (List.append_nil _).symm, rfl, List.forall_mem_nil _⟩
      · have hrest : rest.length < fuel := by
          rw [List.length_append, framed, List.length_append, Bytes.length_word] at hfuel
          omega
        obtain ⟨datas, rfl, rfl, hdatas⟩ := ih hrest h
        refine ⟨data :: datas, ?_, rfl, List.forall_mem_cons.2 ⟨hdata, hdatas⟩⟩
        rw [List.reverse_cons, List.append_assoc, List.singleton_append]

/-- Reading the records of a stream succeeds exactly when it consists of framed records: each length
covers at least a leaf and does not run past the end. -/
theorem records_eq_ok_iff {tooShort : DatabaseDefect} {stream : Bytes} {datas : List Bytes} :
    records tooShort stream = .ok datas ↔
      stream = datas.flatMap framed ∧ ∀ data ∈ datas, 2 ≤ data.length ∧ data.length ≤ 0xFFFF := by
  constructor
  · intro h
    obtain ⟨read, rfl, hstream, hread⟩ := framed_of_takeRecords (Nat.lt_succ_self _) h
    exact ⟨hstream, hread⟩
  · rintro ⟨rfl, h⟩
    exact records_framed h

end Container

/-! ## The type stream -/

namespace TypeStream

open Builder Container

/-- The type stream of these records, numbered from the least index on. -/
def ofRecords (datas : List Bytes) : TypeStream where
  least := 0x1000
  limit := 0x1000 + datas.length
  records := datas.toArray

theorem readHeader_of_fields {version least limit : Nat} {unused rest : Bytes}
    (hversion : version < 0x100000000) (hlimit : limit < 0x100000000) (hleast : 0x1000 ≤ least)
    (hle : least ≤ limit) (hunused : unused.length = headerSize - 16) :
    readHeader (Bytes.word 4 version ++ (Bytes.word 4 headerSize ++ (Bytes.word 4 least
        ++ (Bytes.word 4 limit ++ (unused ++ rest)))))
      = .ok (least, limit, rest) := by
  have hsize : headerSize < 0x100000000 := by decide
  have hsmall : ¬headerSize < headerSize := Nat.lt_irrefl _
  have hlarge : ¬1024 < headerSize := by decide
  have hnone : skip (headerSize - headerSize) rest = .ok rest := by
    rw [Nat.sub_self]
    exact skip_append List.length_nil rest
  unfold readHeader
  simp only [takeNumber_four hversion, takeNumber_four hsize, bind, Except.bind,
    takeNumber_four (Nat.lt_of_le_of_lt hle hlimit), takeNumber_four hlimit, skip_append hunused,
    if_neg hsmall, if_neg hlarge, hnone, if_neg (Nat.not_lt.2 hleast), if_neg (Nat.not_lt.2 hle)]
  rfl

/-- The words of the header that a builder writes, up to the length of the records. -/
theorem exists_typeStream (b : Builder) : ∃ unused : Bytes, unused.length = headerSize - 20 ∧
    b.typeStream = Bytes.word 4 20040203 ++ (Bytes.word 4 headerSize ++ (Bytes.word 4 0x1000
      ++ (Bytes.word 4 (0x1000 + b.types.size)
      ++ (Bytes.word 4 (b.types.toList.flatMap framed).length
      ++ (unused ++ b.types.toList.flatMap framed))))) := by
  refine ⟨Bytes.word 2 noStream ++ (Bytes.word 2 noStream ++ (Bytes.word 4 4
    ++ (Bytes.word 4 0x3FFFF ++ List.replicate 24 0))), rfl, ?_⟩
  simp only [typeStream, List.append_assoc]
  rfl

theorem ofBytes_typeStream {b : Builder}
    (h : ∀ data ∈ b.types.toList, 2 ≤ data.length ∧ data.length ≤ 0xFFFF)
    (hcount : 0x1000 + b.types.size < 0x100000000) :
    ofBytes b.typeStream = .ok (ofRecords b.types.toList) := by
  have hempty : b.typeStream.isEmpty = false := rfl
  obtain ⟨unused, hunused, hfields⟩ := exists_typeStream b
  have hheader : readHeader b.typeStream
      = .ok (0x1000, 0x1000 + b.types.size, b.types.toList.flatMap framed) := by
    rw [hfields, ← List.append_assoc (Bytes.word 4 (b.types.toList.flatMap framed).length)]
    refine readHeader_of_fields (by decide) hcount (Nat.le_refl _) (Nat.le_add_right _ _) ?_
    rw [List.length_append, Bytes.length_word, hunused]
    rfl
  rw [ofBytes, hempty, if_neg Bool.false_ne_true, hheader]
  show (Container.records .typeTooShort (b.types.toList.flatMap framed) >>= fun datas => _) = _
  rw [records_framed h]
  rfl

/-! ## Records by their number -/

section Lookup

variable {datas : List Bytes} {records : List TypeRecord}
  (hdecode : datas.map Record.decode = records.map .ok)

include hdecode

theorem decoded_ofRecords : (ofRecords datas).decoded = records := by
  show datas.filterMap (Except.toOption ∘ Record.decode) = records
  rw [← List.filterMap_map, hdecode, List.filterMap_map]
  exact List.filterMap_some

theorem decode_getElem? (place : Nat) :
    datas[place]?.map Record.decode = records[place]?.map .ok := by
  rw [← List.getElem?_map, hdecode, List.getElem?_map]

omit hdecode in
theorem knownBlocks_ofRecords (h : datas ≠ []) :
    (ofRecords datas).knownBlocks = datas.length / blockSize + 1 := by
  have hlength : 0 < datas.length := List.length_pos_iff.2 h
  have hlt : (ofRecords datas).least < (ofRecords datas).limit := Nat.lt_add_of_pos_right hlength
  rw [knownBlocks, if_pos hlt, ofRecords, List.size_toArray]

omit hdecode in
theorem find_ofRecords {index : Nat} (hleast : 0x1000 ≤ index)
    (hindex : index ≠ 0x1000 + datas.length) :
    (ofRecords datas).find index = .ok datas[index - 0x1000]? := by
  have hrecords : (ofRecords datas).records[index - 0x1000]? = datas[index - 0x1000]? :=
    List.getElem?_toArray
  have hleastEq : (ofRecords datas).least = 0x1000 := rfl
  unfold find
  dsimp only
  rw [hleastEq, hrecords]
  by_cases hlimit : (ofRecords datas).limit < index
  · have hpast : 0x1000 + datas.length < index := hlimit
    rw [if_pos hlimit, List.getElem?_eq_none (by omega)]
  · have hplace : index - 0x1000 < datas.length := by
      have : ¬0x1000 + datas.length < index := hlimit
      omega
    have hblock : (index - 0x1000) / blockSize < (ofRecords datas).knownBlocks := by
      rw [knownBlocks_ofRecords (List.length_pos_iff.1 (by omega))]
      exact Nat.lt_succ_of_le (Nat.div_le_div_right (Nat.le_of_lt hplace))
    rw [if_neg hlimit, if_pos hblock, List.getElem?_eq_getElem hplace]

theorem lookup_ofRecords {index : TypeIndex} (hindex : index.toNat ≠ 0x1000 + datas.length) :
    ((ofRecords datas).lookup index).outcome
      = .ok (if index < TypeIndex.firstRecord then index.builtIn?
          else records[index.toNat - 0x1000]?) := by
  have hleast : index < TypeIndex.firstRecord ↔ index.toNat < (ofRecords datas).least :=
    UInt32.lt_iff_toNat_lt
  rw [lookup, Traced.outcome_bind, Traced.outcome_ofExcept]
  by_cases hlow : index < TypeIndex.firstRecord
  · rw [if_pos hlow, decodeAt, if_pos (hleast.1 hlow), if_pos hlow]
    cases index.builtIn? <;> rfl
  · have hnat : 0x1000 ≤ index.toNat := Nat.not_lt.1 fun h => hlow (hleast.2 h)
    have hat : (ofRecords datas).decodeAt index
        = .ok (datas[index.toNat - 0x1000]?.map Record.decode) := by
      rw [decodeAt, if_neg fun h => hlow (hleast.2 h), find_ofRecords hnat hindex]
      rfl
    rw [if_neg hlow, hat, decode_getElem? hdecode]
    cases records[index.toNat - 0x1000]? <;> rfl

end Lookup

end TypeStream

end OffsetService
