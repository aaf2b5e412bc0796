import OffsetService.Database
import OffsetService.Proofs.Database.Reference
import OffsetService.Proofs.Database.Sections
import OffsetService.Proofs.Database.TypeStream

/-!
# Answers from a built database

A database that is built in some steps is opened again and answers every query as the records of
the steps do, when these are numbered and looked up in a table (`answersAs_build`): the records that
are decoded from the type stream are the ones that the steps stand for, and the look-up in the type
stream is the look-up in the table as far as a query can see (`agreeOn_ofRecords`).

The records are those that a database can hold. With the records as the steps give them the
statement fails for a structure whose field list has the number `0xFFFF`
(`not_answersAs_crowdedSteps`), and without the condition on the number after the last it fails for
a structure that refers to it (`not_answersAs_danglingSteps`).
-/

namespace OffsetService

open Builder

/-! ## Opening -/

namespace Database

theorem length_types_le (datas : List Bytes) :
    2 * datas.length ≤ (datas.flatMap framed).length := by
  induction datas with
  | nil => exact Nat.le_refl _
  | cons data datas ih =>
    have hframed : 2 ≤ (framed data).length := by
      rw [framed, List.length_append, Bytes.length_word]
      exact Nat.le_add_right _ _
    rw [List.flatMap_cons, List.length_append, List.length_cons]
    omega

theorem length_flatMap_framed_le {datas : List Bytes} {most : Nat}
    (h : ∀ data ∈ datas, data.length ≤ most) :
    (datas.flatMap framed).length ≤ (most + 2) * datas.length := by
  induction datas with
  | nil => exact Nat.zero_le _
  | cons data datas ih =>
    obtain ⟨hdata, hdatas⟩ := List.forall_mem_cons.1 h
    have hrest := ih hdatas
    rw [List.flatMap_cons, List.length_append, framed, List.length_append, Bytes.length_word,
      List.length_cons, Nat.mul_succ]
    omega

section Written

variable {b : Builder} {sections : Bytes}
  (h : (Container.write (b.streams sections)).length < 0x100000000)

include h

theorem fits_streams : Container.Fits (b.streams sections) :=
  Container.Fits.of_length_le h (by show 7 ≤ 1000; decide)

theorem ofFile_write_streams (path : String) :
    ofFile path (some (Container.write (b.streams sections)))
      = .ok ⟨Container.written (b.streams sections)⟩ := by
  rw [ofFile, Container.ofFile_write (fits_streams h)]

theorem size_types_lt : 0x1000 + b.types.size < 0x100000000 := by
  have hstream : b.typeStream.length < Container.absent :=
    (fits_streams h).length_lt (by simp [Builder.streams])
  have hrecords := length_types_le b.types.toList
  have hlength : (b.types.toList.flatMap framed).length ≤ b.typeStream.length := by
    rw [Builder.typeStream, List.length_append]
    exact Nat.le_add_left _ _
  rw [Container.absent] at hstream
  rw [Array.length_toList] at hrecords
  omega

theorem typeStream_written
    (hdata : ∀ data ∈ b.types.toList, 2 ≤ data.length ∧ data.length ≤ 0xFFFF) :
    typeStream ⟨Container.written (b.streams sections)⟩
      = .ok (TypeStream.ofRecords b.types.toList) := by
  have hstream : (Container.written (b.streams sections)).stream 2 = .ok b.typeStream :=
    Container.stream_written [none, none] (fits_streams h)
  have hbind : ∀ stream, (Except.ok stream >>= TypeStream.ofBytes) = TypeStream.ofBytes stream :=
    fun _ => rfl
  rw [typeStream, TypeStream.streamNumber, hstream, hbind]
  exact TypeStream.ofBytes_typeStream hdata (size_types_lt h)

end Written

/-- A bound on the size of a database. -/
theorem length_build_le {b : Builder} {file : Bytes} (h : b.build? = some file) :
    file.length ≤ 2 * (b.typeStream.length + (b.symbols.toList.flatMap framed).length
      + AddressMap.sectionHeaderSize * b.sections.size) + 0x10000 := by
  obtain ⟨sections, hsections, rfl⟩ := Option.map_eq_some_iff.1 h
  have hdebug : debugStream.length = 86 := by decide
  have hstreams : (b.streams sections).length = 7 := rfl
  have hpages : Container.allStreamPages (b.streams sections)
      = Container.pagesFor Container.writtenPageSize b.typeStream.length
        + (Container.pagesFor Container.writtenPageSize 86
        + (Container.pagesFor Container.writtenPageSize (b.symbols.toList.flatMap framed).length
        + Container.pagesFor Container.writtenPageSize sections.length)) := by
    simp only [Builder.streams, Container.allStreamPages_cons, Container.streamPages, Nat.zero_add,
      hdebug]
    rfl
  have hheaders : sections.length = AddressMap.sectionHeaderSize * b.sections.size :=
    length_sectionHeaders? hsections
  rw [Container.length_write, Container.directoryPages, Container.length_streamSizes, hstreams,
    hpages, hheaders]
  simp only [Container.pagesFor, Container.writtenPageSize]
  omega

/-- What is written for steps that add few sections. -/
theorem exists_build?_ofSteps {steps : List BuildStep}
    (h : (steps.filterMap sectionOf?).length ≤ 9999) :
    ∃ sections, (ofSteps steps).sectionStream? = some sections ∧
      (ofSteps steps).build? = some (Container.write ((ofSteps steps).streams sections)) := by
  rw [← sections_ofSteps, Array.length_toList] at h
  exact exists_build? h


theorem outcome_structs {db : Database} {types : TypeStream} (h : db.typeStream = .ok types)
    (query : NestedQuery) :
    (db.structs query).outcome = (Resolve.structs types.lookup
      (Definitions.ofRecords query types.decoded) query).outcome := by
  rw [structs, Traced.outcome_bind, step, Traced.outcome_ofExcept, h]
  rfl

theorem outcome_enums {db : Database} {types : TypeStream} (h : db.typeStream = .ok types)
    (query : NestedQuery) :
    (db.enums query).outcome = (Resolve.enums types.lookup
      (Definitions.ofRecords query types.decoded) query).outcome := by
  rw [enums, Traced.outcome_bind, step, Traced.outcome_ofExcept, h]
  rfl

/-! ## One structure with one member -/

/-- A query for one member of one structure. -/
def oneMember : NestedQuery :=
  NameMap.ofList [("S", NameSet.ofNames ["x"])]

theorem outcome_structs_oneMember {lookup : Lookup} {known : Definitions}
    {fields : Option TypeIndex} (hknown : known.structs.get? "S" = some fields) :
    (Resolve.structs lookup known oneMember).outcome
      = (Resolve.memberPlaces lookup (NameSet.ofNames ["x"]) fields).outcome.map
          fun places => NameMap.ofList [("S", places)] := by
  have hentries : oneMember.entries = [("S", NameSet.ofNames ["x"])] := rfl
  rw [Resolve.structs_eq_answers, Resolve.answers, hentries, List.foldlM_cons,
    Traced.outcome_bind]
  dsimp only
  rw [hknown]
  dsimp only
  rw [Traced.outcome_bind]
  cases (Resolve.memberPlaces lookup (NameSet.ofNames ["x"]) fields).outcome <;> rfl

theorem outcome_memberPlaces_oneMember {lookup : Lookup} {fields type : TypeIndex}
    {layout : IntegerLayout} (offset : UInt64)
    (hlist : lookup fields = pure (some (.fieldList [.member "x" type offset] none)))
    (htype : lookup type = pure (some (.integer layout))) :
    (Resolve.memberPlaces lookup (NameSet.ofNames ["x"]) (some fields)).outcome
      = .ok (NameMap.ofList [("x", ⟨offset.toInt64, 0⟩)]) := by
  have hnew : fields ∉ Visited.none.indices := List.not_mem_nil
  have hwanted : ((NameSet.ofNames ["x"]).contains "x"
      && !(NameMap.empty : NameMap FieldPlace).contains "x") = true := by decide
  rw [Resolve.memberPlaces, FieldList.walk, FieldList.walkFrom, dif_neg hnew, hlist]
  show ((Resolve.noteMember lookup (NameSet.ofNames ["x"]) NameMap.empty
    (.member "x" type offset) >>= _) >>= _).outcome = _
  rw [Resolve.noteMember, if_pos hwanted, Resolve.bitPosition, htype]
  rfl

/-! ## Agreement with the table -/

/-- A structure that is stored without a field list, because the index of its list is the null index
or `0xFFFF`, has no members, and neither has one whose list is absent. -/
theorem outcome_memberPlaces_stored {lookup lookup' : Lookup}
    (h : Resolve.AgreeOn (fun _ => True) lookup lookup') (hzero : (lookup' 0).outcome = .ok none)
    (wanted : NameSet) (fields : Option TypeIndex) :
    (Resolve.memberPlaces lookup wanted (Record.storedFields fields)).outcome
      = (Resolve.memberPlaces lookup' wanted (Record.keptFields fields)).outcome := by
  have hnew : (0 : TypeIndex) ∉ Visited.none.indices := List.not_mem_nil
  have hnone : (Resolve.memberPlaces lookup' wanted (some 0)).outcome
      = (Resolve.memberPlaces lookup wanted none).outcome := by
    show (FieldList.walkFrom lookup' Traced.report (Resolve.noteMember lookup' wanted)
      Visited.none 0 NameMap.empty).outcome = _
    rw [FieldList.walkFrom, dif_neg hnew, Traced.outcome_bind, hzero]
    rfl
  rcases fields with _ | index
  · rfl
  · by_cases hfull : index = 0xFFFF
    · subst hfull
      rfl
    · have hkept : Record.keptFields (some index) = some index := by
        rw [Record.keptFields, if_neg fun heq => hfull (Option.some.inj heq)]
      by_cases hnull : index = 0
      · subst hnull
        rw [hkept, hnone]
        rfl
      · have hstored : Record.storedFields (some index) = some index := by
          rw [Record.storedFields, Record.fieldsOf, Option.getD_some,
            if_neg (not_or.2 ⟨hnull, hfull⟩)]
        rw [hstored, hkept]
        exact Resolve.outcome_memberPlaces h wanted fun _ _ => trivial

theorem outcome_lookupIn_zero (steps : List BuildStep) (beyond : Traced (Option TypeRecord)) :
    (lookupIn (keptRecords steps) beyond 0).outcome = .ok none := by
  have hother : (0 : TypeIndex).integer? = none := by decide
  have hnumber : ¬(0 : TypeIndex).toNat = 0x1000 + (keptRecords steps).length := by
    show ¬0 = _
    omega
  rw [lookupIn, if_neg hnumber, tableOf, hother, lookup_keptRecords]
  rfl

variable {steps : List BuildStep} (hnames : ∀ step ∈ steps, step.NamesEnd)

include hnames

theorem length_keptRecords : (keptRecords steps).length = (steps.filterMap typeOf?).length := by
  have hlength := congrArg List.length (decode_types hnames)
  have hrecords := congrArg List.length (map_snd_keptRecords steps)
  simp only [List.length_map] at hlength hrecords
  rw [hlength, hrecords]

/-- The look-up in the type stream, as far as can be seen, is the look-up in the table. -/
theorem agreeOn_ofRecords :
    Resolve.AgreeOn (fun _ => True) (TypeStream.ofRecords (steps.filterMap typeOf?)).lookup
      (lookupIn (keptRecords steps) ((TypeStream.ofRecords (steps.filterMap typeOf?)).lookup
        (UInt32.ofNat (0x1000 + (steps.filterMap typeOf?).length)))) := by
  refine ⟨fun index _ => ?_, fun _ _ _ _ _ _ => trivial⟩
  rw [lookupIn, length_keptRecords hnames]
  split
  next hlast => rw [← hlast, UInt32.ofNat_toNat]
  next hne =>
    rw [TypeStream.lookup_ofRecords (decode_types hnames) hne]
    exact congrArg Except.ok (visible_tableOf steps index).symm

theorem outcome_structs_ofRecords (query : NestedQuery) {beyond : Traced (Option TypeRecord)}
    (hagree : Resolve.AgreeOn (fun _ => True)
      (TypeStream.ofRecords (steps.filterMap typeOf?)).lookup
      (lookupIn (keptRecords steps) beyond)) :
    (Resolve.structs (TypeStream.ofRecords (steps.filterMap typeOf?)).lookup
        (Definitions.ofRecords query (TypeStream.ofRecords (steps.filterMap typeOf?)).decoded)
        query).outcome
      = (Resolve.structs (lookupIn (keptRecords steps) beyond)
          (Definitions.ofRecords query ((keptRecords steps).map (·.2))) query).outcome := by
  have hstored := Definitions.mapped_ofRecords Record.storedFields query
    (steps.filterMap BuildStep.record?)
  have hkept := Definitions.mapped_ofRecords Record.keptFields query
    (steps.filterMap BuildStep.record?)
  rw [TypeStream.decoded_ofRecords (decode_types hnames), map_snd_keptRecords]
  rw [Resolve.structs_eq_answers, Resolve.structs_eq_answers]
  refine Resolve.outcome_answers (fun name wanted => ?_) query
  rw [hstored.structs, hkept.structs, Option.map_map, Option.map_map]
  congr 1
  funext fields
  exact outcome_memberPlaces_stored hagree (outcome_lookupIn_zero steps beyond) wanted fields

theorem outcome_enums_ofRecords (query : NestedQuery) {beyond : Traced (Option TypeRecord)}
    (hagree : Resolve.AgreeOn (fun _ => True)
      (TypeStream.ofRecords (steps.filterMap typeOf?)).lookup
      (lookupIn (keptRecords steps) beyond)) :
    (Resolve.enums (TypeStream.ofRecords (steps.filterMap typeOf?)).lookup
        (Definitions.ofRecords query (TypeStream.ofRecords (steps.filterMap typeOf?)).decoded)
        query).outcome
      = (Resolve.enums (lookupIn (keptRecords steps) beyond)
          (Definitions.ofRecords query ((keptRecords steps).map (·.2))) query).outcome := by
  have hstored := Definitions.mapped_ofRecords Record.storedFields query
    (steps.filterMap BuildStep.record?)
  have hkept := Definitions.mapped_ofRecords Record.keptFields query
    (steps.filterMap BuildStep.record?)
  rw [TypeStream.decoded_ofRecords (decode_types hnames), map_snd_keptRecords]
  rw [Resolve.enums_eq_answers, Resolve.enums_eq_answers]
  refine Resolve.outcome_answers (fun name wanted => ?_) query
  rw [hstored.enums, hkept.enums]
  congr 1
  funext definition
  exact Resolve.outcome_constants hagree wanted trivial trivial

/-- A database answers every query as the records do when they are looked up in this way. -/
def AnswersAs (db : Database) (records : List (Nat × TypeRecord)) (lookup : Lookup) : Prop :=
  ∀ query,
    (db.structs query).outcome
        = (Resolve.structs lookup (Definitions.ofRecords query (records.map (·.2))) query).outcome
      ∧ (db.enums query).outcome
        = (Resolve.enums lookup (Definitions.ofRecords query (records.map (·.2))) query).outcome

theorem answersAs_written (hdata : ∀ data ∈ steps.filterMap typeOf?, data.length ≤ 0xFFFF)
    {sections : Bytes}
    (hfile : (Container.write ((ofSteps steps).streams sections)).length < 0x100000000) :
    AnswersAs ⟨Container.written ((ofSteps steps).streams sections)⟩ (keptRecords steps)
      (lookupIn (keptRecords steps) ((TypeStream.ofRecords (steps.filterMap typeOf?)).lookup
        (UInt32.ofNat (0x1000 + (steps.filterMap typeOf?).length)))) := by
  have hlengths := length_of_mem_filterMap two_le_length_typeOf hdata
  rw [← types_ofSteps] at hlengths
  have htypes := typeStream_written hfile hlengths
  rw [types_ofSteps] at htypes
  have hagree := agreeOn_ofRecords hnames
  intro query
  rw [outcome_structs htypes, outcome_enums htypes]
  exact ⟨outcome_structs_ofRecords hnames query hagree, outcome_enums_ofRecords hnames query hagree⟩

/-- A database is built in any steps that add at most 9999 sections. It is opened, and every query
for members or constants is answered as the records of the steps answer it, numbered as the builder
says and looked up in a table that also holds the integer types; only the field list `0xFFFF` of a
structure cannot be kept. What is found at the number after the last record is left open, and does
not matter where no record refers to it. -/
theorem answersAs_build (hdata : ∀ data ∈ steps.filterMap typeOf?, data.length ≤ 0xFFFF)
    (hsections : (steps.filterMap sectionOf?).length ≤ 9999)
    (hfile : ∀ file, (ofSteps steps).build? = some file → file.length < 0x100000000)
    (path : String) :
    ∃ file db, (ofSteps steps).build? = some file ∧ Database.ofFile path (some file) = .ok db
      ∧ (∃ beyond, db.AnswersAs (keptRecords steps) (lookupIn (keptRecords steps) beyond))
      ∧ ((∀ entry ∈ keptRecords steps, ∀ index ∈ entry.2.references,
            index.toNat ≠ 0x1000 + (keptRecords steps).length) →
          db.AnswersAs (keptRecords steps)
            fun index => pure (tableOf (keptRecords steps) index)) := by
  obtain ⟨sections, -, hbuild⟩ := exists_build?_ofSteps hsections
  have hsmall := hfile _ hbuild
  have hanswers := answersAs_written hnames hdata hsmall
  refine ⟨_, _, hbuild, ofFile_write_streams hsmall path, ⟨_, hanswers⟩, fun hpast query => ?_⟩
  obtain ⟨hstructs, henums⟩ := hanswers query
  exact ⟨hstructs.trans (outcome_structs_lookupIn hpast _ query),
    henums.trans (outcome_enums_lookupIn hpast _ query)⟩

omit hnames

/-- Two steps, of which the second refers to the first. -/
def twoSteps : List BuildStep :=
  [.fieldList [.member "x" 0x74 8] none, .struct "S" (some 0x1000) 16 1]

theorem answersAs_build_twoSteps : ∃ file db, (ofSteps twoSteps).build? = some file
      ∧ Database.ofFile "s.pdb" (some file) = .ok db
      ∧ (db.structs oneMember).outcome
        = .ok (NameMap.ofList [("S", NameMap.ofList [("x", ⟨8, 0⟩)])]) := by
  have hnames : ∀ step ∈ twoSteps, step.NamesEnd := by decide
  have hdata : ∀ data ∈ twoSteps.filterMap typeOf?, data.length ≤ 0xFFFF := by decide
  have hfile : ∀ file, (ofSteps twoSteps).build? = some file → file.length < 0x100000000 :=
    fun file hbuild => Nat.lt_of_le_of_lt (length_build_le hbuild) (by decide)
  obtain ⟨file, db, hbuild, hopen, -, hanswers⟩ :=
    answersAs_build hnames hdata (by decide) hfile "s.pdb"
  have hrecords : keptRecords twoSteps = [(0x1000, .fieldList [.member "x" 0x74 8] none),
      (0x1001, .struct "S" false (some 0x1000) 16)] := by decide
  have hpast : ∀ entry ∈ keptRecords twoSteps, ∀ index ∈ entry.2.references,
      index.toNat ≠ 0x1000 + (keptRecords twoSteps).length := by
    intro entry hentry index hindex
    rw [hrecords] at hentry ⊢
    rcases List.mem_cons.1 hentry with rfl | hlast
    · rw [List.mem_singleton.1 hindex]
      decide
    · rw [List.mem_singleton.1 hlast] at hindex
      rw [List.mem_singleton.1 hindex]
      decide
  have hknown : (Definitions.ofRecords oneMember
      ((keptRecords twoSteps).map (·.2))).structs.get? "S" = some (some 0x1000) := by
    rw [hrecords]
    decide
  have hlist : tableOf (keptRecords twoSteps) 0x1000
      = some (.fieldList [.member "x" 0x74 8] none) := by
    rw [hrecords]
    decide
  have htype : tableOf (keptRecords twoSteps) 0x74 = some (.integer ⟨4, true⟩) := by
    rw [hrecords]
    decide
  refine ⟨file, db, hbuild, hopen, ?_⟩
  rw [(hanswers hpast oneMember).1, outcome_structs_oneMember hknown,
    outcome_memberPlaces_oneMember 8 (congrArg pure hlist) (congrArg pure htype)]
  rfl

/-! ## Where the steps themselves are no guide -/

theorem not_answersAs_of_ne {steps : List BuildStep} (hnames : ∀ step ∈ steps, step.NamesEnd)
    (hdata : ∀ data ∈ steps.filterMap typeOf?, data.length ≤ 0xFFFF)
    {file : Bytes} (hbuild : (ofSteps steps).build? = some file)
    (hfile : file.length < 0x100000000) {path : String} (query : NestedQuery)
    (hne : (Resolve.structs (fun index => pure (tableOf (numberedRecords steps) index))
          (Definitions.ofRecords query ((numberedRecords steps).map (·.2))) query).outcome
      ≠ (Resolve.structs (lookupIn (keptRecords steps)
            ((TypeStream.ofRecords (steps.filterMap typeOf?)).lookup
              (UInt32.ofNat (0x1000 + (steps.filterMap typeOf?).length))))
          (Definitions.ofRecords query ((keptRecords steps).map (·.2))) query).outcome) :
    ¬∃ db, Database.ofFile path (some file) = .ok db
      ∧ db.AnswersAs (numberedRecords steps)
          fun index => pure (tableOf (numberedRecords steps) index) := by
  rintro ⟨db, hopen, hanswers⟩
  obtain ⟨sections, -, rfl⟩ := Option.map_eq_some_iff.1 hbuild
  have hwritten : db = ⟨Container.written ((ofSteps steps).streams sections)⟩ :=
    Except.ok.inj (hopen.symm.trans (ofFile_write_streams hfile path))
  subst hwritten
  exact hne ((hanswers query).1.symm.trans (answersAs_written hnames hdata hfile query).1)

/-- Many constant types, a field list, and a structure that refers to it as `0xFFFF`. -/
def crowded (count : Nat) : List BuildStep :=
  List.replicate count (.constant 0)
    ++ [.fieldList [.member "x" 0x74 0] none, .struct "S" (some 0xFFFF) 0 0]

/-- The steps of which the field list is number `0xFFFF`. -/
def crowdedSteps : List BuildStep := crowded 61439

theorem mem_crowded {count : Nat} {step : BuildStep} (h : step ∈ crowded count) :
    step ∈ crowded 1 := by
  rcases List.mem_append.1 h with hconstant | hlast
  · rw [List.eq_of_mem_replicate hconstant]
    exact List.mem_cons_self ..
  · exact List.mem_append_right _ hlast

theorem namesEnd_crowded (count : Nat) : ∀ step ∈ crowded count, step.NamesEnd := by
  have hone : ∀ step ∈ crowded 1, step.NamesEnd := by decide
  exact fun step hstep => hone step (mem_crowded hstep)

theorem length_typeOf_crowded (count : Nat) :
    ∀ data ∈ (crowded count).filterMap typeOf?, data.length ≤ 30 := by
  have hone : ∀ step ∈ crowded 1, ∀ data ∈ typeOf? step, data.length ≤ 30 := by decide
  intro data hdata
  obtain ⟨step, hstep, hsome⟩ := List.mem_filterMap.1 hdata
  exact hone step (mem_crowded hstep) data hsome

theorem exists_build?_crowded (count : Nat) : ∃ file,
    (ofSteps (crowded count)).build? = some file
      ∧ file.length ≤ 64 * (count + 2) + 0x20000 := by
  have hsymbols : (ofSteps (crowded count)).symbols.toList = [] := by
    rw [symbols_ofSteps, List.filterMap_eq_nil_iff]
    have hone : ∀ step ∈ crowded 1, symbolOf? step = none := by decide
    exact fun step hstep => hone step (mem_crowded hstep)
  have hsections : (ofSteps (crowded count)).sections.size = 0 := by
    rw [← Array.length_toList, sections_ofSteps, List.length_eq_zero_iff,
      List.filterMap_eq_nil_iff]
    have hone : ∀ step ∈ crowded 1, sectionOf? step = none := by decide
    exact fun step hstep => hone step (mem_crowded hstep)
  have hcount : ((crowded count).filterMap typeOf?).length ≤ count + 2 := by
    refine Nat.le_trans (List.length_filterMap_le ..) ?_
    rw [crowded, List.length_append, List.length_replicate]
    exact Nat.le_refl _
  have hrecords := length_flatMap_framed_le (length_typeOf_crowded count)
  have hstream : (ofSteps (crowded count)).typeStream.length
      = 56 + (((crowded count).filterMap typeOf?).flatMap framed).length := by
    rw [Builder.typeStream, types_ofSteps]
    simp only [List.length_append, Bytes.length_word, List.length_replicate]
  obtain ⟨sections, -, hbuild⟩ := exists_build? (Nat.le_trans (Nat.le_of_eq hsections) (by decide))
  refine ⟨_, hbuild, Nat.le_trans (length_build_le hbuild) ?_⟩
  rw [hstream, hsymbols, hsections]
  simp only [List.flatMap_nil, List.length_nil, Nat.mul_zero]
  omega

theorem record?_crowded (count : Nat) : (crowded count).filterMap BuildStep.record?
    = List.replicate count (.modifier 0)
      ++ [.fieldList [.member "x" 0x74 0] none, .struct "S" false (some 0xFFFF) 0] := by
  have hconstant : (List.replicate count (.constant 0)).filterMap BuildStep.record?
      = List.replicate count (.modifier 0) := List.filterMap_replicate_of_some rfl
  rw [crowded, List.filterMap_append, hconstant]
  rfl

/-- Records that define nothing are passed over. -/
theorem ofRecords_crowded (count : Nat) :
    (Definitions.ofRecords oneMember ((crowded count).filterMap BuildStep.record?)).structs.get? "S"
      = some (some 0xFFFF) := by
  have hpassed : ∀ known, (List.replicate count (.modifier 0)).foldl
      (Definitions.observe oneMember) known = known := by
    intro known
    induction count with
    | zero => rfl
    | succ count ih => exact ih
  rw [record?_crowded, Definitions.ofRecords, List.foldl_append, hpassed]
  decide

theorem tableOf_crowded {count : Nat} {index : TypeIndex} (h : index.toNat = 0x1000 + count) :
    tableOf (numberedRecords (crowded count)) index
      = some (.fieldList [.member "x" 0x74 0] none) := by
  have hleast : ¬index < TypeIndex.firstRecord := fun hlt => by
    have hlow : index.toNat < 0x1000 := UInt32.lt_iff_toNat_lt.1 hlt
    omega
  rw [tableOf, TypeIndex.integer?, if_neg hleast]
  dsimp only
  rw [lookup_numberedRecords, h, if_neg (Nat.not_lt.2 (Nat.le_add_right ..)),
    Nat.add_sub_cancel_left, record?_crowded,
    List.getElem?_append_right (Nat.le_of_eq List.length_replicate),
    List.length_replicate, Nat.sub_self]
  rfl

/-- Before the structure there are as many records as it takes for its field list to have the number
`0xFFFF`. -/
theorem not_answersAs_crowdedSteps :
    (∀ step ∈ crowdedSteps, step.NamesEnd)
      ∧ (∀ data ∈ crowdedSteps.filterMap typeOf?, data.length ≤ 0xFFFF)
      ∧ ∃ file, (ofSteps crowdedSteps).build? = some file ∧ file.length < 0x100000000
        ∧ ¬∃ db, Database.ofFile "s.pdb" (some file) = .ok db
          ∧ db.AnswersAs (numberedRecords crowdedSteps)
              fun index => pure (tableOf (numberedRecords crowdedSteps) index) := by
  have hnames : ∀ step ∈ crowdedSteps, step.NamesEnd := namesEnd_crowded 61439
  have hdata : ∀ data ∈ crowdedSteps.filterMap typeOf?, data.length ≤ 0xFFFF :=
    fun data h => Nat.le_trans (length_typeOf_crowded 61439 data h) (by decide)
  obtain ⟨file, hbuild, hlength⟩ := exists_build?_crowded 61439
  have hfile : file.length < 0x100000000 := Nat.lt_of_le_of_lt hlength (by decide)
  have hfields : (Definitions.ofRecords oneMember
      (crowdedSteps.filterMap BuildStep.record?)).structs.get? "S" = some (some 0xFFFF) :=
    ofRecords_crowded 61439
  have hkept : ∀ lookup, (Resolve.structs lookup (Definitions.ofRecords oneMember
      ((keptRecords crowdedSteps).map (·.2))) oneMember).outcome
        = .ok (NameMap.ofList [("S", NameMap.empty)]) := by
    have hnone : (Definitions.ofRecords oneMember
        ((keptRecords crowdedSteps).map (·.2))).structs.get? "S" = some none := by
      rw [map_snd_keptRecords, (Definitions.mapped_ofRecords Record.keptFields oneMember _).structs,
        hfields]
      rfl
    exact fun lookup => outcome_structs_oneMember hnone
  have hlist : tableOf (numberedRecords crowdedSteps) 0xFFFF
      = some (.fieldList [.member "x" 0x74 0] none) := tableOf_crowded rfl
  have htype : tableOf (numberedRecords crowdedSteps) 0x74 = some (.integer ⟨4, true⟩) := rfl
  have hplaces : (Resolve.memberPlaces
      (fun index => pure (tableOf (numberedRecords crowdedSteps) index)) (NameSet.ofNames ["x"])
      (some 0xFFFF)).outcome = .ok (NameMap.ofList [("x", ⟨0, 0⟩)]) :=
    outcome_memberPlaces_oneMember 0 (congrArg pure hlist) (congrArg pure htype)
  refine ⟨hnames, hdata, file, hbuild, hfile,
    not_answersAs_of_ne hnames hdata hbuild hfile oneMember fun heq => ?_⟩
  rw [← map_snd_numberedRecords] at hfields
  rw [hkept, outcome_structs_oneMember hfields, hplaces] at heq
  exact absurd (Except.ok.inj heq) (by decide)

/-- The field list of the structure would be the record after it. -/
def danglingSteps : List BuildStep :=
  [.struct "S" (some 0x1001) 0 0]

/-- What follows the last record is not found to be absent: the look-up fails. -/
theorem not_answersAs_danglingSteps :
    (∀ step ∈ danglingSteps, step.NamesEnd)
      ∧ (∀ data ∈ danglingSteps.filterMap typeOf?, data.length ≤ 0xFFFF)
      ∧ ∃ file, (ofSteps danglingSteps).build? = some file ∧ file.length < 0x100000000
        ∧ ¬∃ db, Database.ofFile "s.pdb" (some file) = .ok db
          ∧ db.AnswersAs (numberedRecords danglingSteps)
              fun index => pure (tableOf (numberedRecords danglingSteps) index) := by
  have hnames : ∀ step ∈ danglingSteps, step.NamesEnd := by decide
  have hdata : ∀ data ∈ danglingSteps.filterMap typeOf?, data.length ≤ 0xFFFF := by decide
  obtain ⟨sections, -, hbuild⟩ := exists_build?_ofSteps (by decide :
    (danglingSteps.filterMap sectionOf?).length ≤ 9999)
  have hfile : (Container.write ((ofSteps danglingSteps).streams sections)).length < 0x100000000 :=
    Nat.lt_of_le_of_lt (length_build_le hbuild) (by decide)
  have hfields : (Definitions.ofRecords oneMember
      ((numberedRecords danglingSteps).map (·.2))).structs.get? "S" = some (some 0x1001) := by
    decide
  have hkept : (Definitions.ofRecords oneMember
      ((keptRecords danglingSteps).map (·.2))).structs.get? "S" = some (some 0x1001) := by
    decide
  have hnew : (0x1001 : TypeIndex) ∉ Visited.none.indices := List.not_mem_nil
  refine ⟨hnames, hdata, _, hbuild, hfile,
    not_answersAs_of_ne hnames hdata hbuild hfile oneMember fun heq => ?_⟩
  rw [outcome_structs_oneMember hfields, outcome_structs_oneMember hkept, Resolve.memberPlaces,
    Resolve.memberPlaces, FieldList.walk, FieldList.walk, FieldList.walkFrom, FieldList.walkFrom,
    dif_neg hnew, dif_neg hnew] at heq
  cases heq

end Database

end OffsetService
