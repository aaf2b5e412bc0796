import OffsetService.Proofs.Database.Addresses

/-!
# Alignment of built records

In the area of the type records of a builder and in that of its symbol records, every record begins
at a multiple of four bytes and fills a multiple of four, its length included (`alignedAt_area`).

Positions are counted from three places: an entry of a field list fills up itself, a record counts
the two bytes of its length too, and a reader goes through the whole area. The counts agree because
each of these places is a multiple of four from the next, so the padding that an entry or a type
record has for itself also leads to a boundary of the area (`Record.FillsUp.shift`).

The header of the type stream is checked against the area behind it (`headerMatches_typeStream`).
Its words have 32 bits and the length in front of a record has 16, so both are right only as far as
these reach (`HeaderMatches.eq_of_lt`, `records_of_wrapped`).
-/

namespace OffsetService

open Builder

/-! ## Areas of records -/

namespace Builder

/-- The records that some steps add, one behind the other. -/
def area (of? : BuildStep → Option Bytes) (steps : List BuildStep) : Bytes :=
  (steps.filterMap of?).flatMap framed

/-- With the length in front of it, every record that a step adds fills a multiple of four. -/
def FillsWords (of? : BuildStep → Option Bytes) : Prop :=
  ∀ step data, of? step = some data → (framed data).length % 4 = 0

theorem length_framed_filled {data filling : Bytes} (h : filling.length = gap (data.length + 2)) :
    (framed (data ++ filling)).length % 4 = 0 := by
  rw [framed, List.length_append, Bytes.length_word, List.length_append, h, gap]
  omega

theorem fillsWords_typeOf : FillsWords typeOf? := by
  intro step data h
  obtain ⟨leaf, body, rfl⟩ := exists_typeData h
  exact length_framed_filled (Record.length_padding _)

theorem fillsWords_symbolOf : FillsWords symbolOf? := by
  intro step data h
  obtain ⟨kind, body, rfl⟩ := SymbolStream.exists_symbolData h
  exact length_framed_filled List.length_replicate

variable {of? : BuildStep → Option Bytes}

theorem area_append (before after : List BuildStep) :
    area of? (before ++ after) = area of? before ++ area of? after := by
  rw [area, List.filterMap_append, List.flatMap_append]
  rfl

theorem area_cons_of_some {step : BuildStep} {data : Bytes} (h : of? step = some data)
    (after : List BuildStep) : area of? (step :: after) = framed data ++ area of? after := by
  rw [area, List.filterMap_cons_some h, List.flatMap_cons]
  rfl

theorem area_cons_of_none {step : BuildStep} (h : of? step = none) (after : List BuildStep) :
    area of? (step :: after) = area of? after := by
  rw [area, List.filterMap_cons_none h]
  rfl

theorem length_area (h : FillsWords of?) (steps : List BuildStep) :
    (area of? steps).length % 4 = 0 := by
  induction steps with
  | nil => rfl
  | cons step steps ih =>
    cases hdata : of? step with
    | none =>
      rw [area_cons_of_none hdata]
      exact ih
    | some data =>
      have hstep := h step data hdata
      rw [area_cons_of_some hdata, List.length_append]
      omega

/-- A record with this data stands at a position of an area. The position and the length of the
record, the bytes of the length included, are multiples of four. -/
structure AlignedAt (area : Bytes) (position : Nat) (data : Bytes) : Prop where
  stands : framed data <+: area.drop position
  position_mod : position % 4 = 0
  length_mod : (framed data).length % 4 = 0

theorem alignedAt_area (h : FillsWords of?) {before after : List BuildStep} {step : BuildStep}
    {data : Bytes} (hdata : of? step = some data) :
    AlignedAt (area of? (before ++ step :: after)) (area of? before).length data := by
  refine ⟨?_, length_area h before, h step data hdata⟩
  rw [area_append, List.drop_left, area_cons_of_some hdata]
  exact List.prefix_append _ _

end Builder

/-! ## The header of the type stream -/

namespace DebugHeader

theorem field_word (width n : Nat) (rest : Bytes) :
    field (Bytes.word width n ++ rest) 0 width = n % Bytes.capacity width := by
  rw [← Bytes.littleEndian_word]
  exact field_append (rfl : ([] : Bytes).length = 0) (Bytes.length_word width n)

theorem drop_behind (n : Nat) (rest : Bytes) (offset : Nat) :
    (Bytes.word 4 n ++ rest).drop (4 + offset) = rest.drop offset := by
  rw [← List.drop_drop, List.drop_left' (Bytes.length_word 4 n)]

theorem field_behind (n : Nat) (rest : Bytes) (offset width : Nat) :
    field (Bytes.word 4 n ++ rest) (4 + offset) width = field rest offset width := by
  rw [field, drop_behind, field]

end DebugHeader

namespace TypeStream

/-- The header of a type stream says where its records begin, how they are numbered and how long
they are together, in words of 32 bits. -/
structure HeaderMatches (stream records : Bytes) (count : Nat) : Prop where
  behind : stream.drop (DebugHeader.field stream 4 4) = records
  least : DebugHeader.field stream 8 4 = 0x1000
  limit : DebugHeader.field stream 12 4 = (0x1000 + count) % 0x100000000
  size : DebugHeader.field stream 16 4 = records.length % 0x100000000

theorem headerMatches_typeStream (b : Builder) :
    HeaderMatches b.typeStream (b.types.toList.flatMap framed) b.types.size := by
  obtain ⟨unused, hunused, hstream⟩ := exists_typeStream b
  have hwords : ∀ offset, DebugHeader.field b.typeStream (4 + (4 + offset)) 4
      = DebugHeader.field (Bytes.word 4 0x1000 ++ (Bytes.word 4 (0x1000 + b.types.size)
        ++ (Bytes.word 4 (b.types.toList.flatMap framed).length
        ++ (unused ++ b.types.toList.flatMap framed)))) offset 4 := by
    intro offset
    rw [hstream, DebugHeader.field_behind, DebugHeader.field_behind]
  refine ⟨?_, ?_, ?_, ?_⟩
  · have hsize : DebugHeader.field b.typeStream 4 4 = headerSize := by
      rw [hstream]
      exact (DebugHeader.field_behind _ _ 0 4).trans (DebugHeader.field_word 4 headerSize _)
    have hsplit : headerSize = 4 + (4 + (4 + (4 + (4 + (headerSize - 20))))) := rfl
    rw [hsize, hsplit, hstream]
    simp only [DebugHeader.drop_behind]
    exact List.drop_left' hunused
  · exact (hwords 0).trans (DebugHeader.field_word 4 0x1000 _)
  · refine (hwords (4 + 0)).trans ?_
    rw [DebugHeader.field_behind]
    exact DebugHeader.field_word 4 _ _
  · refine (hwords (4 + (4 + 0))).trans ?_
    rw [DebugHeader.field_behind, DebugHeader.field_behind]
    exact DebugHeader.field_word 4 _ _

/-- The words are the numbers themselves as long as the records stay below four gigabytes. -/
theorem HeaderMatches.eq_of_lt {stream records : Bytes} {count : Nat}
    (h : HeaderMatches stream records count) (hcount : 2 * count ≤ records.length)
    (hsmall : records.length < 0x100000000) :
    DebugHeader.field stream 12 4 = 0x1000 + count
      ∧ DebugHeader.field stream 16 4 = records.length := by
  constructor
  · rw [h.limit]
    exact Nat.mod_eq_of_lt (by omega)
  · rw [h.size]
    exact Nat.mod_eq_of_lt hsmall

end TypeStream

/-! ## Built records -/

namespace Builder

/-- The records of some steps can be read back: no name in a type record holds the character zero,
which ends a name, and every record has a length of 16 bits. -/
structure HoldsRecords (steps : List BuildStep) : Prop where
  names : ∀ step ∈ steps, step.NamesEnd
  types : ∀ data ∈ steps.filterMap typeOf?, data.length ≤ 0xFFFF
  symbols : ∀ data ∈ steps.filterMap symbolOf?, data.length ≤ 0xFFFF

/-- The type record of a step stands at a position of an area: its padding begins where a reader is
done with its fields and leads to its end, and if it is a field list then its entries stand at
multiples of four from the begin of the area. -/
structure TypeAt (area : Bytes) (position : Nat) (step : BuildStep) (data : Bytes) : Prop where
  aligned : AlignedAt area position data
  padded : ∃ record fields pads, step.record? = some record ∧ data = fields ++ pads ∧
    (Decoder.half >>= Record.decodeBody) data
      = .ok (record.mapFields Record.storedFields, pads) ∧
    Record.FillsUp (position + (fields.length + 2)) pads []
  entries : ∀ entries continuation, step = .fieldList entries continuation →
    ∃ list, data = Bytes.word 2 Record.fieldListLeaf.toNat ++ list ∧
      Record.EntriesFrom (position + 4) list (entries.map NewEntry.toEntry) continuation

theorem typeAt_of_aligned {area : Bytes} {position : Nat} {step : BuildStep} {data : Bytes}
    (hnames : step.NamesEnd) (hdata : typeOf? step = some data)
    (haligned : AlignedAt area position data) : TypeAt area position step data := by
  refine ⟨haligned, ?_, ?_⟩
  · have hsome := isSome_typeOf? step
    rw [hdata, Option.isSome_some, eq_comm, Option.isSome_iff_exists] at hsome
    obtain ⟨record, hrecord⟩ := hsome
    obtain ⟨fields, hfields, hread⟩ := Record.readsPadded_typeOf hnames hdata hrecord
    have hfilled := Record.fillsUp_padding Record.unpadded_nil (fields.length + 2)
    exact ⟨record, fields, _, hrecord, hfields, hread, hfilled.shift haligned.position_mod⟩
  · rintro entries continuation rfl
    have hentries : ∀ e ∈ entries, Char.ofNat 0 ∉ e.name.toList := by
      intro e he
      exact hnames e.name (List.mem_map_of_mem he)
    have hposition : (position + 4) % 4 = 0 := by
      have := haligned.position_mod
      omega
    cases hdata
    refine ⟨entries.flatMap entryOf ++ continuationOf continuation, ?_,
      Record.entriesFrom_written hentries continuation hposition⟩
    show typeData Record.fieldListLeaf.toNat _ = _
    rw [typeData, Record.gap_fieldList, padding, List.append_nil]

/-- Whatever the steps of a builder are, the areas of its type records and of its symbol records
consist of these records, each at a multiple of four and as long as one, and the padding of a type
record and of the entries of a field list leads to the boundary where the next one begins. The
header in front of the type records says where they begin, how they are numbered and how long they
are together. -/
theorem records_aligned {steps : List BuildStep} (h : HoldsRecords steps) :
    ∃ stream, (∀ sections, ((ofSteps steps).streams sections)[TypeStream.streamNumber]?
          = some (some stream) ∧
        ((ofSteps steps).streams sections)[symbolStreamNumber]?
          = some (some (area symbolOf? steps))) ∧
      TypeStream.HeaderMatches stream (area typeOf? steps) (steps.filterMap typeOf?).length ∧
      ((area typeOf? steps).length < 0x100000000 →
        DebugHeader.field stream 12 4 = 0x1000 + (steps.filterMap typeOf?).length ∧
        DebugHeader.field stream 16 4 = (area typeOf? steps).length) ∧
      Container.records .typeTooShort (area typeOf? steps) = .ok (steps.filterMap typeOf?) ∧
      Container.records .symbolTooShort (area symbolOf? steps)
        = .ok (steps.filterMap symbolOf?) ∧
      ∀ before step after, steps = before ++ step :: after →
        (∀ data, typeOf? step = some data →
          TypeAt (area typeOf? steps) (area typeOf? before).length step data) ∧
        ∀ data, symbolOf? step = some data →
          AlignedAt (area symbolOf? steps) (area symbolOf? before).length data := by
  have htypes := length_of_mem_filterMap two_le_length_typeOf h.types
  have hsymbols := length_of_mem_filterMap SymbolStream.two_le_length_symbolOf h.symbols
  have hheader := TypeStream.headerMatches_typeStream (ofSteps steps)
  rw [← Array.length_toList, types_ofSteps] at hheader
  have hstream : ∀ sections, ((ofSteps steps).streams sections)[symbolStreamNumber]?
      = some (some (area symbolOf? steps)) := by
    intro sections
    rw [area, ← symbols_ofSteps]
    rfl
  refine ⟨_, fun sections => ⟨rfl, hstream sections⟩, hheader,
    hheader.eq_of_lt (Database.length_types_le _), Container.records_framed htypes,
    Container.records_framed hsymbols, ?_⟩
  rintro before step after rfl
  constructor
  · intro data hdata
    exact typeAt_of_aligned (h.names step (by simp)) hdata (alignedAt_area fillsWords_typeOf hdata)
  · intro data hdata
    exact alignedAt_area fillsWords_symbolOf hdata

/-- A list whose entries have every length of padding, a record that needs some and a symbol. -/
def unevenSteps : List BuildStep :=
  [.fieldList [.member "a" 0x74 0, .member "bc" 0x75 0x8000, .enumerator "d" (-70000)]
      (some 0x1000),
    .publicSymbol "main" 1 0x10, .struct "_S" (some 0x1000) 8 3, .bitfield 0x74 1 4]

theorem records_aligned_unevenSteps : ∃ stream,
    (∀ sections, ((ofSteps unevenSteps).streams sections)[2]? = some (some stream)) ∧
      DebugHeader.field stream 12 4 = 0x1003 ∧ DebugHeader.field stream 16 4 = 92 ∧
      ∃ data, typeOf? (.struct "_S" (some 0x1000) 8 3) = some data ∧
        TypeAt (area typeOf? unevenSteps) 52 (.struct "_S" (some 0x1000) 8 3) data := by
  have hholds : HoldsRecords unevenSteps := ⟨by decide, by decide, by decide⟩
  obtain ⟨stream, hstream, -, hexact, -, -, hsteps⟩ := records_aligned hholds
  obtain ⟨hlimit, hsize⟩ := hexact (by decide)
  refine ⟨stream, fun sections => (hstream sections).1, hlimit, hsize, _, rfl, ?_⟩
  obtain ⟨hstruct, -⟩ := hsteps (unevenSteps.take 2) (.struct "_S" (some 0x1000) 8 3)
    [.bitfield 0x74 1 4] rfl
  exact hstruct _ rfl

/-! ## Lengths that do not fit -/

/-- Constants, each of which takes twelve bytes. -/
def constants (count : Nat) : List BuildStep :=
  List.replicate count (.constant 0)

theorem holdsRecords_constants (count : Nat) : HoldsRecords (constants count) := by
  have hone : HoldsRecords [.constant 0] := ⟨by decide, by decide, by decide⟩
  have hstep : ∀ step ∈ constants count, step = .constant 0 := fun _ => List.eq_of_mem_replicate
  refine ⟨fun step h => ?_, fun data h => ?_, fun data h => ?_⟩
  · exact hone.names step (by rw [hstep step h]; exact List.mem_singleton_self _)
  · obtain ⟨step, hmem, hdata⟩ := List.mem_filterMap.1 h
    rw [hstep step hmem] at hdata
    exact hone.types data (List.mem_filterMap.2 ⟨_, List.mem_singleton_self _, hdata⟩)
  · obtain ⟨step, hmem, hdata⟩ := List.mem_filterMap.1 h
    rw [hstep step hmem] at hdata
    cases hdata

theorem length_area_constants (count : Nat) :
    (area typeOf? (constants count)).length = 12 * count := by
  induction count with
  | zero => rfl
  | succ count ih =>
    have hone : (area typeOf? [.constant 0]).length = 12 := by decide
    rw [constants, List.replicate_succ, ← List.singleton_append, area_append, List.length_append,
      hone, ← constants, ih]
    omega

/-- A structure whose record has a name of some length, 21 other bytes and its padding. -/
def named (length : Nat) : BuildStep :=
  .struct (String.ofList (List.replicate length 'a')) none 0 0

theorem namesEnd_named (length : Nat) : (named length).NamesEnd := by
  intro name hname hzero
  rw [List.mem_singleton.1 hname, String.toList_ofList] at hzero
  exact absurd (List.eq_of_mem_replicate hzero) (by decide)

theorem exists_typeOf_named (length : Nat) : ∃ rest : Bytes, rest.length = 17 + length ∧
    typeOf? (named length) = some (typeData 0x1505 (Bytes.word 2 0 ++ rest)) := by
  have hname : (Utf8.encode (String.ofList (List.replicate length 'a'))).length = length := by
    rw [Utf8.length_encode_of_ascii, String.toList_ofList, List.length_replicate]
    intro c hc
    rw [String.toList_ofList] at hc
    rw [List.eq_of_mem_replicate hc]
    decide
  have hsize : (NumericLeaf.encodeUnsigned 0).length = 2 := by decide
  refine ⟨Bytes.word 2 0 ++ (Bytes.word 4 0 ++ (Bytes.word 4 0 ++ (Bytes.word 4 0
    ++ (NumericLeaf.encodeUnsigned 0 ++ nameField (String.ofList (List.replicate length 'a')))))),
    ?_, ?_⟩
  · simp only [List.length_append, Bytes.length_word, hsize, nameField, hname,
      List.length_singleton]
    omega
  · simp only [named, typeOf?, structData, List.append_assoc]
    rfl

/-- Where a length is written in 16 bits and is more than that, the rest of the record is taken for
another one. -/
theorem records_of_wrapped {data rest : Bytes} (hlength : data.length % 0x10000 = 2) {leaf : Nat}
    (hdata : data = Bytes.word 2 leaf ++ (Bytes.word 2 0 ++ rest)) (tooShort : DatabaseDefect) :
    Container.records tooShort (framed data) = .error tooShort := by
  have hprefix : Bytes.word 2 data.length = Bytes.word 2 2 := by
    have hcapacity : Bytes.capacity 2 = 0x10000 := rfl
    rw [← Bytes.word_mod, hcapacity, hlength]
  have hframed : framed data = framed (Bytes.word 2 leaf) ++ (Bytes.word 2 0 ++ rest) := by
    rw [framed, framed, Bytes.length_word, hprefix, hdata, List.append_assoc]
  obtain ⟨fuel, hfuel⟩ : ∃ fuel, (framed data).length + 1 = fuel + 1 + 1 := by
    rw [framed, List.length_append, Bytes.length_word]
    exact ⟨data.length + 1, by omega⟩
  rw [Container.records, hfuel, hframed, Container.takeRecords,
    Container.nextRecord_framed (Nat.le_of_eq (Bytes.length_word 2 leaf).symm)
      (by rw [Bytes.length_word]; decide)]
  rfl

/-- The length of all type records is written in 32 bits, and that of one record in 16: there are so
many constants that the header is wrong, and there is a structure of 65535 bytes whose padding makes
it too long for the length in front of it. -/
theorem not_sized_constants_named :
    (HoldsRecords (constants 357913942) ∧
      DebugHeader.field (ofSteps (constants 357913942)).typeStream 16 4
        ≠ (area typeOf? (constants 357913942)).length) ∧
    (named 65514).NamesEnd ∧
    ∃ leaf body, typeOf? (named 65514) = some (typeData leaf body) ∧
      (Bytes.word 2 leaf ++ body).length = 0xFFFF ∧
      Container.records .typeTooShort (area typeOf? [named 65514]) = .error .typeTooShort := by
  have hheader := (TypeStream.headerMatches_typeStream (ofSteps (constants 357913942))).size
  rw [types_ofSteps, ← area, length_area_constants] at hheader
  refine ⟨⟨holdsRecords_constants _, ?_⟩, namesEnd_named _, ?_⟩
  · rw [hheader, length_area_constants]
    decide
  · obtain ⟨rest, hrest, hdata⟩ := exists_typeOf_named 65514
    have hbody : (Bytes.word 2 0x1505 ++ (Bytes.word 2 0 ++ rest)).length = 0xFFFF := by
      rw [List.length_append, List.length_append, Bytes.length_word, Bytes.length_word, hrest]
    have hlength : (typeData 0x1505 (Bytes.word 2 0 ++ rest)).length % 0x10000 = 2 := by
      rw [typeData, List.length_append, Record.length_padding, hbody]
      decide
    have hparts : typeData 0x1505 (Bytes.word 2 0 ++ rest)
        = Bytes.word 2 0x1505 ++ (Bytes.word 2 0 ++ (rest
          ++ padding (gap ((Bytes.word 2 0x1505 ++ (Bytes.word 2 0 ++ rest)).length + 2)))) := by
      rw [typeData, List.append_assoc, List.append_assoc]
    refine ⟨_, _, hdata, hbody, ?_⟩
    rw [area_cons_of_some hdata, area, List.filterMap_nil, List.flatMap_nil, List.append_nil]
    exact records_of_wrapped hlength hparts _

end Builder

end OffsetService
