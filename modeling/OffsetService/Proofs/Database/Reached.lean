import OffsetService.Proofs.Database.Answers
import OffsetService.Proofs.Resolve.Asked

/-!
# Records that a query does not reach

A query passes over all records of a type stream once, for the definitions of its names, and then
looks some of them up. What the other records hold does not matter to it: they may be replaced by
anything that is no definition that it asks for (`DiffersAside`), also by bytes that no record
consists of, and the answer stays what it was (`outcome_structs_of_differsAside`,
`outcome_enums_of_differsAside`). Positions do not shift, because records are found by counting
them, whatever is in them. The stream before and the stream after are any that can be read, which
they are when their records are soundly framed (`Container.records_eq_ok_iff`).

A record that is looked up and cannot be decoded is like an absent one (`ActsAsAbsent`), if the
header promises records at all. A header whose bounds are equal promises none, and then looking up
the least index fails, whatever stands there (`not_actsAsAbsent_emptyRange`).
-/

namespace OffsetService

namespace TypeStream

/-! ## Replacing records -/

/-- Whether two type streams with the same bounds and as many records differ in records only that are
not asked for and are no wanted definitions, neither before nor after. -/
structure DiffersAside (types types' : TypeStream) (asked : List TypeIndex)
    (isWanted : TypeRecord → Prop) : Prop where
  least : types'.least = types.least
  limit : types'.limit = types.limit
  size : types'.records.size = types.records.size
  unasked : ∀ place : Nat, types'.records[place]? ≠ types.records[place]? →
    ∀ index ∈ asked, index.toNat ≠ types.least + place
  unwanted : ∀ place : Nat, types'.records[place]? ≠ types.records[place]? → ∀ body record,
    types.records[place]? = some body ∨ types'.records[place]? = some body →
      Record.decode body = .ok record → ¬isWanted record

variable {types types' : TypeStream} {asked : List TypeIndex} {isWanted : TypeRecord → Prop}

/-- A record that is the same in both streams is looked up alike, for looking up counts records and
does not look into them. -/
theorem DiffersAside.lookup_eq (h : DiffersAside types types' asked isWanted) {index : TypeIndex}
    (hindex : types'.records[index.toNat - types.least]? = types.records[index.toNat - types.least]?) :
    types'.lookup index = types.lookup index := by
  have hblocks : types'.knownBlocks = types.knownBlocks := by
    rw [knownBlocks, knownBlocks, h.least, h.limit, h.size]
  have hcovered : types'.covered = types.covered := by
    rw [covered, covered, hblocks, h.least]
  have hfind : types'.find index.toNat = types.find index.toNat := by
    unfold find
    dsimp only
    rw [h.least, h.limit, hblocks, hcovered, hindex]
  unfold lookup decodeAt
  rw [h.least, hfind]

/-- The records that are asked for are the same in both streams. -/
theorem DiffersAside.getElem?_eq (h : DiffersAside types types' asked isWanted) {index : TypeIndex}
    (hindex : index ∈ asked) (hleast : types.least ≤ index.toNat) :
    types'.records[index.toNat - types.least]? = types.records[index.toNat - types.least]? := by
  refine Classical.byContradiction fun hne => h.unasked _ hne index hindex ?_
  omega

theorem DiffersAside.lookup_eq_of_mem (h : DiffersAside types types' asked isWanted)
    {index : TypeIndex} (hindex : index ∈ asked) : types'.lookup index = types.lookup index := by
  by_cases hleast : types.least ≤ index.toNat
  · exact h.lookup_eq (h.getElem?_eq hindex hleast)
  · have hlow : index.toNat < types.least := by omega
    unfold lookup decodeAt
    rw [h.least, if_pos hlow, if_pos hlow]

/-- The first of the decoded records of which something is read. -/
theorem findSome?_decoded {α : Type} (t : TypeStream) (f : TypeRecord → Option α) :
    t.decoded.findSome? f
      = (t.records.toList.map fun body => (Record.decode body).toOption.bind f).findSome? id := by
  rw [decoded, List.findSome?_map]
  induction t.records.toList with
  | nil => rfl
  | cons body rest ih =>
    rw [List.findSome?_cons, List.filterMap_cons, ← ih]
    cases hdecode : Record.decode body with
    | error defect => simp [Except.toOption, hdecode]
    | ok record => simp [Except.toOption, hdecode, List.findSome?_cons]

/-- What is read of wanted records only is read of both streams alike. -/
theorem DiffersAside.findSome?_decoded (h : DiffersAside types types' asked isWanted) {α : Type}
    {f : TypeRecord → Option α} (hf : ∀ record, ¬isWanted record → f record = none) :
    types'.decoded.findSome? f = types.decoded.findSome? f := by
  -- neither of two records that differ is wanted, so nothing is read of either
  have hnothing : ∀ place : Nat, types'.records[place]? ≠ types.records[place]? → ∀ body,
      types.records[place]? = some body ∨ types'.records[place]? = some body →
        (Record.decode body).toOption.bind f = none := by
    intro place hne body hbody
    cases hdecode : Record.decode body with
    | error defect => rfl
    | ok record => exact hf record (h.unwanted place hne body record hbody hdecode)
  rw [TypeStream.findSome?_decoded, TypeStream.findSome?_decoded]
  congr 1
  refine List.ext_getElem? fun place => ?_
  rw [List.getElem?_map, List.getElem?_map, Array.getElem?_toList, Array.getElem?_toList]
  by_cases hsame : types'.records[place]? = types.records[place]?
  · rw [hsame]
  · by_cases hplace : place < types.records.size
    · have hplace' : place < types'.records.size := h.size ▸ hplace
      rw [Array.getElem?_eq_getElem hplace, Array.getElem?_eq_getElem hplace', Option.map_some,
        Option.map_some, hnothing place hsame _ (.inl (Array.getElem?_eq_getElem hplace)),
        hnothing place hsame _ (.inr (Array.getElem?_eq_getElem hplace'))]
    · have hplace' : ¬place < types'.records.size := h.size ▸ hplace
      rw [Array.getElem?_eq_none (Nat.not_lt.1 hplace),
        Array.getElem?_eq_none (Nat.not_lt.1 hplace')]

/-! ## Records that cannot be decoded -/

/-- Whether an index is the one of a record that cannot be decoded. -/
def Undecodable (types : TypeStream) (index : TypeIndex) : Prop :=
  ∃ place body defect, index.toNat = types.least + place ∧ types.records[place]? = some body ∧
    Record.decode body = .error defect

/-- A record that cannot be decoded is found to be absent, in a stream that promises records. -/
theorem Undecodable.outcome_lookup {index : TypeIndex} (h : types.Undecodable index)
    (hrange : types.least < types.limit) : (types.lookup index).outcome = .ok none := by
  obtain ⟨place, body, defect, hindex, hbody, hdecode⟩ := h
  have hplace : index.toNat - types.least = place := by omega
  have hsize : place < types.records.size := (Array.getElem?_eq_some_iff.1 hbody).1
  have hblock : place / blockSize < types.knownBlocks := by
    rw [knownBlocks, if_pos hrange]
    exact Nat.lt_succ_of_le (Nat.div_le_div_right (Nat.le_of_lt hsize))
  have hat : types.decodeAt index = .ok none ∨ types.decodeAt index = .ok (some (.error defect)) := by
    rw [decodeAt, if_neg (by omega), find, hplace, if_pos hblock, hbody]
    by_cases hlimit : types.limit < index.toNat
    · rw [if_pos hlimit]
      exact .inl rfl
    · rw [if_neg hlimit]
      refine .inr ?_
      show Except.ok (some (Record.decode body)) = _
      rw [hdecode]
  rw [lookup, Traced.outcome_bind, Traced.outcome_ofExcept]
  rcases hat with hat | hat
  · rw [hat]
    rfl
  · rw [hat]
    rfl

end TypeStream

namespace Resolve

open FieldList (Station)

/-- Whether a look-up is the one of an absent record: nothing is found, so a member of that type is no
bitfield, a chain of field lists ends there with what was noted before, and an enumeration whose
underlying types lead there has the usual layout. -/
structure ActsAsAbsent (lookup : Lookup) (index : TypeIndex) : Prop where
  found : (lookup index).outcome = .ok none
  bit : (bitPosition lookup index).outcome = .ok 0
  chain : ∀ {σ : Type} (visit : σ → FieldEntry → Traced σ) (visited : Visited) (s : σ),
    (FieldList.walkFrom lookup Traced.report visit visited index s).outcome = .ok s
  layout : ∀ underlying n, n < maxChain → reached lookup.record? underlying n = some index →
    (enumLayout lookup underlying).outcome = .ok ⟨4, true⟩

/-- A chain of types that leads to an absent record leads to no integer type. -/
theorem outcome_integerType_of_reached {lookup : Lookup} {index : TypeIndex}
    (hindex : (lookup index).outcome = .ok none) {steps n : Nat} (hn : n < steps)
    {underlying : TypeIndex} (h : reached lookup.record? underlying n = some index) :
    (integerType lookup steps underlying).outcome = .ok none := by
  induction steps generalizing n underlying with
  | zero => cases hn
  | succ steps ih =>
    rw [integerType, Traced.outcome_bind]
    cases n with
    | zero =>
      cases h
      rw [hindex]
      rfl
    | succ n =>
      rw [reached_succ_eq_bind] at h
      cases hrecord : (lookup underlying).outcome with
      | error fault => simp [Lookup.record?, hrecord] at h
      | ok record =>
        have hfound : lookup.record? underlying = record := by simp [Lookup.record?, hrecord]
        rw [hfound] at h
        rcases record with _ | record
        · cases h
        · cases record with
          | modifier next => exact ih (Nat.lt_of_succ_lt_succ hn) h
          | enum name forward next fields => exact ih (Nat.lt_of_succ_lt_succ hn) h
          | _ => cases h

theorem actsAsAbsent_of_found {lookup : Lookup} {index : TypeIndex}
    (h : (lookup index).outcome = .ok none) : ActsAsAbsent lookup index where
  found := h
  bit := by
    rw [outcome_bitPosition_eq_map, h]
    rfl
  chain visit visited s := by
    rw [FieldList.walkFrom]
    split
    next => rfl
    next =>
      rw [Traced.outcome_bind, h]
      rfl
  layout underlying n hn hreached := by
    rw [enumLayout, Traced.outcome_bind, outcome_integerType_of_reached h hn hreached]
    rfl

/-- Whether a record is a complete structure of a name that a query asks for. -/
def IsStructOf (query : NestedQuery) (record : TypeRecord) : Prop :=
  ∃ name fields size, record = .struct name false fields size ∧ query.contains name = true

/-- Whether a record is a complete enumeration of a name that a query asks for. -/
def IsEnumOf (query : NestedQuery) (record : TypeRecord) : Prop :=
  ∃ name underlying fields, record = .enum name false underlying fields ∧
    query.contains name = true

theorem structure?_eq_none {query : NestedQuery} {name : String}
    (hname : query.contains name = true) {record : TypeRecord} (h : ¬IsStructOf query record) :
    structure? name record = none := by
  unfold structure?
  split
  next other fields size =>
    rw [if_neg]
    rintro rfl
    exact h ⟨other, fields, size, rfl, hname⟩
  next => rfl

theorem enumeration?_eq_none {query : NestedQuery} {name : String}
    (hname : query.contains name = true) {record : TypeRecord} (h : ¬IsEnumOf query record) :
    enumeration? name record = none := by
  unfold enumeration?
  split
  next other underlying fields =>
    rw [if_neg]
    rintro rfl
    exact h ⟨other, underlying, fields, rfl, hname⟩
  next => rfl

end Resolve

namespace Database

open Resolve TypeStream

variable {db db' : Database} {types types' : TypeStream}

/-- The indices that a query for members of structures looks up. -/
def askedForStructs (types : TypeStream) (query : NestedQuery) : List TypeIndex :=
  types.lookup.made (structLookups types.lookup.record? types.decoded query)

/-- The indices that a query for constants of enumerations looks up. -/
def askedForEnums (types : TypeStream) (query : NestedQuery) : List TypeIndex :=
  types.lookup.made (enumLookups types.lookup.record? types.decoded query)

theorem outcome_structs_of_differsAside (h : db.typeStream = .ok types)
    (h' : db'.typeStream = .ok types') {query : NestedQuery}
    (hdiffers : DiffersAside types types' (askedForStructs types query) (IsStructOf query)) :
    (db'.structs query).outcome = (db.structs query).outcome := by
  rw [outcome_structs h, outcome_structs h']
  apply outcome_structs_of_agrees
  · intro name hname
    exact hdiffers.findSome?_decoded fun record hrecord => structure?_eq_none hname hrecord
  · intro index hindex
    rw [hdiffers.lookup_eq_of_mem hindex]

theorem outcome_enums_of_differsAside (h : db.typeStream = .ok types)
    (h' : db'.typeStream = .ok types') {query : NestedQuery}
    (hdiffers : DiffersAside types types' (askedForEnums types query) (IsEnumOf query)) :
    (db'.enums query).outcome = (db.enums query).outcome := by
  rw [outcome_enums h, outcome_enums h']
  apply outcome_enums_of_agrees
  · intro name hname
    exact hdiffers.findSome?_decoded fun record hrecord => enumeration?_eq_none hname hrecord
  · intro index hindex
    rw [hdiffers.lookup_eq_of_mem hindex]

/-- A query that fails does so at a look-up that fails. -/
theorem exists_fault_of_structs (h : db.typeStream = .ok types) {query : NestedQuery} {fault : Fault}
    (hfault : (db.structs query).outcome = .error fault) :
    ∃ index, types.lookup.fault? index = some fault := by
  rw [outcome_structs h, structs_ofRecords_eq_after, Lookup.after_eq_error_iff] at hfault
  obtain ⟨index, -, hindex⟩ := List.exists_of_findSome?_eq_some hfault
  exact ⟨index, hindex⟩

theorem exists_fault_of_enums (h : db.typeStream = .ok types) {query : NestedQuery} {fault : Fault}
    (hfault : (db.enums query).outcome = .error fault) :
    ∃ index, types.lookup.fault? index = some fault := by
  rw [outcome_enums h, enums_ofRecords_eq_after, Lookup.after_eq_error_iff] at hfault
  obtain ⟨index, -, hindex⟩ := List.exists_of_findSome?_eq_some hfault
  exact ⟨index, hindex⟩

/-- **Queries depend on the records that they reach.** Records that a query of types does not look up
may be replaced by anything but definitions that it asks for, and its outcome stays the same. Where
the header's upper bound is above its lower one, a record that cannot be decoded is like an absent
one, and no query fails because of it: a fault is that of another look-up. -/
theorem answers_of_reached (h : db.typeStream = .ok types) (query : NestedQuery) :
    (∀ (db' : Database) (types' : TypeStream), db'.typeStream = .ok types' →
      (DiffersAside types types' (askedForStructs types query) (IsStructOf query) →
        (db'.structs query).outcome = (db.structs query).outcome) ∧
      (DiffersAside types types' (askedForEnums types query) (IsEnumOf query) →
        (db'.enums query).outcome = (db.enums query).outcome)) ∧
    (types.least < types.limit →
      (∀ index, types.Undecodable index → ActsAsAbsent types.lookup index) ∧
      ∀ fault, (db.structs query).outcome = .error fault ∨ (db.enums query).outcome = .error fault →
        ∃ index, ¬types.Undecodable index ∧ types.lookup.fault? index = some fault) := by
  refine ⟨fun db' types' h' => ⟨?_, ?_⟩, fun hrange => ⟨?_, ?_⟩⟩
  · exact outcome_structs_of_differsAside h h'
  · exact outcome_enums_of_differsAside h h'
  · intro index hindex
    exact actsAsAbsent_of_found (hindex.outcome_lookup hrange)
  · intro fault hfault
    have hfails : ∃ index, types.lookup.fault? index = some fault :=
      hfault.elim (exists_fault_of_structs h) (exists_fault_of_enums h)
    obtain ⟨index, hindex⟩ := hfails
    refine ⟨index, fun hundecodable => ?_, hindex⟩
    rw [Lookup.fault?, hundecodable.outcome_lookup hrange] at hindex
    cases hindex

/-! ## Type streams in files -/

/-- The type stream of these bodies, behind a header with these bounds. -/
def streamOf (least limit : Nat) (bodies : List Bytes) : Bytes :=
  Bytes.word 4 20040203 ++ (Bytes.word 4 headerSize ++ (Bytes.word 4 least ++ (Bytes.word 4 limit
    ++ (List.replicate (headerSize - 16) 0 ++ bodies.flatMap Builder.framed))))

/-- The file with this type stream and nothing else. -/
def fileOf (least limit : Nat) (bodies : List Bytes) : Bytes :=
  Container.write [none, none, some (streamOf least limit bodies)]

theorem ofFile_fileOf (least limit : Nat) (bodies : List Bytes) (hleast : 0x1000 ≤ least)
    (hle : least ≤ limit) (hlimit : limit < 0x100000000)
    (hbodies : ∀ body ∈ bodies, 2 ≤ body.length ∧ body.length ≤ 0xFFFF)
    (hfile : (fileOf least limit bodies).length < 0x100000000) (path : String) :
    ∃ db, ofFile path (some (fileOf least limit bodies)) = .ok db ∧
      db.typeStream = .ok ⟨least, limit, bodies.toArray⟩ := by
  have hfits : Container.Fits [none, none, some (streamOf least limit bodies)] :=
    Container.Fits.of_length_le hfile (by show 3 ≤ 1000; decide)
  refine ⟨⟨Container.written [none, none, some (streamOf least limit bodies)]⟩, ?_, ?_⟩
  · rw [ofFile, fileOf, Container.ofFile_write hfits]
  · have hstream : (Container.written [none, none, some (streamOf least limit bodies)]).stream 2
        = .ok (streamOf least limit bodies) := Container.stream_written [none, none] hfits
    have hbind : ∀ stream, (Except.ok stream >>= TypeStream.ofBytes) = TypeStream.ofBytes stream :=
      fun _ => rfl
    have hheader : readHeader (streamOf least limit bodies)
        = .ok (least, limit, bodies.flatMap Builder.framed) :=
      readHeader_of_fields (by decide) hlimit hleast hle List.length_replicate
    have hempty : (streamOf least limit bodies).isEmpty = false := rfl
    rw [typeStream, TypeStream.streamNumber, hstream, hbind, TypeStream.ofBytes, hempty,
      if_neg Bool.false_ne_true, hheader]
    show (Container.records .typeTooShort (bodies.flatMap Builder.framed) >>= fun datas => _) = _
    rw [Container.records_framed hbodies]
    rfl

/-- A structure without members, and one of another name. -/
def twoBodies : List Bytes :=
  [Builder.structData "S" 0 8 0 0, Builder.structData "T" 0 4 0 0]

/-- The structure without members, and bytes that are no record. -/
def junkBodies : List Bytes :=
  [Builder.structData "S" 0 8 0 0, [0xFF, 0xFF, 0xFF]]

theorem exists_decode_junk : ∃ defect, Record.decode [0xFF, 0xFF, 0xFF] = .error defect :=
  ⟨_, rfl⟩

/-- The second structure is nothing to a query for the first, and neither is what replaces it. -/
theorem differsAside_junkBodies :
    DiffersAside ⟨0x1000, 0x1002, twoBodies.toArray⟩ ⟨0x1000, 0x1002, junkBodies.toArray⟩
      (askedForStructs ⟨0x1000, 0x1002, twoBodies.toArray⟩ oneMember) (IsStructOf oneMember) where
  least := rfl
  limit := rfl
  size := rfl
  unasked := by
    have hasked : askedForStructs ⟨0x1000, 0x1002, twoBodies.toArray⟩ oneMember = [] := by decide
    rw [hasked]
    intro place hne index hindex
    cases hindex
  unwanted := by
    intro place hne body record hbody hdecode
    match place with
    | 0 => exact absurd rfl hne
    | 1 =>
      rcases hbody with hbody | hbody
      · have hother : Record.decode (Builder.structData "T" 0 4 0 0)
            = .ok (.struct "T" false none 4) := rfl
        have hbody : Builder.structData "T" 0 4 0 0 = body := Option.some.inj hbody
        rw [← hbody, hother] at hdecode
        cases hdecode
        rintro ⟨name, fields, size, heq, hname⟩
        cases heq
        exact absurd hname (by decide)
      · have hbody : [0xFF, 0xFF, 0xFF] = body := Option.some.inj hbody
        obtain ⟨defect, hjunk⟩ := exists_decode_junk
        rw [← hbody, hjunk] at hdecode
        cases hdecode
    | place + 2 => exact absurd rfl hne

/-- A structure of another name is replaced by bytes that are no record. -/
theorem answers_of_reached_junk :
    ∃ db db', ofFile "a.pdb" (some (fileOf 0x1000 0x1002 twoBodies)) = .ok db ∧
      ofFile "b.pdb" (some (fileOf 0x1000 0x1002 junkBodies)) = .ok db' ∧
      (db'.structs oneMember).outcome = (db.structs oneMember).outcome ∧
      ∃ types, db'.typeStream = .ok types ∧ types.Undecodable 0x1001 ∧
        ActsAsAbsent types.lookup 0x1001 := by
  have hsize : (fileOf 0x1000 0x1002 twoBodies).length < 0x100000000 := by
    rw [fileOf, Container.length_write]
    decide +kernel
  have hsize' : (fileOf 0x1000 0x1002 junkBodies).length < 0x100000000 := by
    rw [fileOf, Container.length_write]
    decide +kernel
  obtain ⟨db, hopen, htypes⟩ := ofFile_fileOf 0x1000 0x1002 twoBodies (by decide) (by decide)
    (by decide) (by decide) hsize "a.pdb"
  obtain ⟨db', hopen', htypes'⟩ := ofFile_fileOf 0x1000 0x1002 junkBodies (by decide) (by decide)
    (by decide) (by decide) hsize' "b.pdb"
  obtain ⟨hsame, -⟩ := (answers_of_reached htypes oneMember).1 db' _ htypes'
  obtain ⟨habsent, -⟩ := (answers_of_reached htypes' oneMember).2 (by decide)
  obtain ⟨defect, hjunk⟩ := exists_decode_junk
  have hundecodable : TypeStream.Undecodable ⟨0x1000, 0x1002, junkBodies.toArray⟩ 0x1001 :=
    ⟨1, [0xFF, 0xFF, 0xFF], defect, rfl, rfl, hjunk⟩
  exact ⟨db, db', hopen, hopen', hsame differsAside_junkBodies, _, htypes', hundecodable,
    habsent _ hundecodable⟩

/-- Bytes that are no record, and a structure that names them as its field list. -/
def danglingBodies : List Bytes :=
  [[0xFF, 0xFF, 0xFF], Builder.structData "S" 0x1000 8 1 0]

/-- Where the bounds of the header are equal, a query fails that looks up the first record, and that
record cannot even be decoded. -/
theorem not_actsAsAbsent_emptyRange :
    ∃ db types, ofFile "s.pdb" (some (fileOf 0x1000 0x1000 danglingBodies)) = .ok db ∧
      db.typeStream = .ok types ∧ types.Undecodable 0x1000 ∧
      ¬ActsAsAbsent types.lookup 0x1000 ∧
      (db.structs oneMember).outcome
        = .error (.malformedDatabase none (.typeNotIndexed 0x1000 0)) := by
  have hsize : (fileOf 0x1000 0x1000 danglingBodies).length < 0x100000000 := by
    rw [fileOf, Container.length_write]
    decide +kernel
  obtain ⟨db, hopen, htypes⟩ := ofFile_fileOf 0x1000 0x1000 danglingBodies (by decide) (by decide)
    (by decide) (by decide) hsize "s.pdb"
  obtain ⟨defect, hjunk⟩ := exists_decode_junk
  have hlookup : (TypeStream.lookup ⟨0x1000, 0x1000, danglingBodies.toArray⟩ 0x1000).outcome
      = .error (.malformedDatabase none (.typeNotIndexed 0x1000 0)) := rfl
  have hknown : (Definitions.ofRecords oneMember (TypeStream.decoded
      ⟨0x1000, 0x1000, danglingBodies.toArray⟩)).structs.get? "S" = some (some 0x1000) := by
    decide
  refine ⟨db, _, hopen, htypes, ⟨0, [0xFF, 0xFF, 0xFF], defect, rfl, rfl, hjunk⟩, ?_, ?_⟩
  · intro hacts
    have hfound := hacts.found
    rw [hlookup] at hfound
    cases hfound
  · have hnew : (0x1000 : TypeIndex) ∉ Visited.none.indices := List.not_mem_nil
    rw [outcome_structs htypes, outcome_structs_oneMember hknown, memberPlaces, FieldList.walk,
      FieldList.walkFrom, dif_neg hnew, Traced.outcome_bind, hlookup]
    rfl

end Database

end OffsetService
