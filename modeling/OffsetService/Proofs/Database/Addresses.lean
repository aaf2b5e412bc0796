import OffsetService.Proofs.Database.Answers
import OffsetService.Proofs.Database.Union

/-!
# Addresses from a built database

The symbols that are read from a built database are the public symbols and the global data of its
steps, in their order (`readSymbols_framed`, `filterMap_symbol?`), and its sections are those of the
steps (`sectionsOf_sectionStream`). So a query for names answers with the address of the first
symbol of each name that lies in one of the sections, and with nothing else (`symbols_build`).

Local data, types and the order in which all these are mixed leave no trace in the answer: it is
made from the list of symbols and the list of sections alone.
-/

namespace OffsetService

open Builder

namespace BuildStep

/-- The symbol that a step adds, if it adds one that a query can find. -/
def symbol? : BuildStep → Option SymbolStream.Symbol
  | .publicSymbol name sectionNumber offset => some ⟨name, sectionNumber.toNat, offset⟩
  | .globalData name _ sectionNumber offset => some ⟨name, sectionNumber.toNat, offset⟩
  | _ => none

end BuildStep

/-! ## Symbol records -/

namespace SymbolStream

open Decoder

/-- What is read from the front of a record is the symbol in it. -/
theorem symbol?_of_reads {decoder : Decoder (Option Symbol)} {written : Bytes}
    {found : Option Symbol} (h : Reads decoder written found) (rest : Bytes) :
    (match decoder.run' (written ++ rest) with
      | .ok found => found
      | .error _ => none) = found := by
  rw [StateT.run', h]
  rfl

theorem symbol?_placeData {kind : Nat} (hkind : kind < 0x10000) (hplace : kind ∈ placeKinds)
    (hterminated : firstTerminated ≤ kind) {name : String} (hname : Char.ofNat 0 ∉ name.toList)
    (first : TypeIndex) (sectionNumber : UInt16) (offset : UInt32) :
    symbol? (placeData kind name first sectionNumber offset)
      = some ⟨name, sectionNumber.toNat, offset⟩ := by
  have hcontains : placeKinds.contains kind = true := List.contains_iff_mem.2 hplace
  have hform : decide (kind < firstTerminated) = false := decide_eq_false (Nat.not_lt.2 hterminated)
  refine symbol?_of_reads ((reads_number hkind).bind ?_) _
  rw [hcontains, if_pos rfl, hform]
  simp only [List.append_assoc]
  refine (reads_take (Bytes.length_word 4 _)).discard.bind ?_
  refine (reads_word offset).bind ?_
  refine (reads_number sectionNumber.toNat_lt).bind ?_
  refine (Record.reads_name hname).last ?_
  rw [Utf8.lossy_encode]

/-- A record of another kind holds no symbol that is looked for, whatever it says. -/
theorem symbol?_of_otherKind {kind : Nat} (hkind : kind < 0x10000) (hother : kind ∉ placeKinds)
    (body : Bytes) : symbol? (symbolData kind body) = none := by
  have hcontains : ¬placeKinds.contains kind = true := fun h => hother (List.contains_iff_mem.1 h)
  rw [symbolData, List.append_assoc]
  refine symbol?_of_reads ((reads_number hkind).last ?_) _
  rw [if_neg hcontains]

theorem symbol?_symbolOf {step : BuildStep} {data : Bytes} (h : symbolOf? step = some data)
    (hname : ∀ s, step.symbol? = some s → Char.ofNat 0 ∉ s.name.toList) :
    symbol? data = step.symbol? := by
  cases step with
  | publicSymbol name sectionNumber offset =>
    cases h
    exact symbol?_placeData (by decide) (by decide) (by decide) (hname _ rfl) 0 sectionNumber offset
  | globalData name type sectionNumber offset =>
    cases h
    exact symbol?_placeData (by decide) (by decide) (by decide) (hname _ rfl) type sectionNumber
      offset
  | localData name type sectionNumber offset =>
    cases h
    exact symbol?_of_otherKind (by decide) (by decide) _
  | _ => cases h

/-- The symbols in the records of some steps are those of the steps. -/
theorem filterMap_symbol? {steps : List BuildStep}
    (hnames : ∀ s ∈ steps.filterMap BuildStep.symbol?, Char.ofNat 0 ∉ s.name.toList) :
    (steps.filterMap symbolOf?).filterMap symbol? = steps.filterMap BuildStep.symbol? := by
  rw [List.filterMap_filterMap]
  refine List.filterMap_congr fun step hstep => ?_
  cases hdata : symbolOf? step with
  | none => cases step <;> first | rfl | cases hdata
  | some data =>
    exact symbol?_symbolOf hdata fun s hs => hnames s (List.mem_filterMap.2 ⟨step, hstep, hs⟩)

theorem exists_symbolData {step : BuildStep} {data : Bytes} (h : symbolOf? step = some data) :
    ∃ kind body, data = symbolData kind body := by
  cases step <;> cases h <;> exact ⟨_, _, rfl⟩

theorem two_le_length_symbolOf {step : BuildStep} {data : Bytes} (h : symbolOf? step = some data) :
    2 ≤ data.length := by
  obtain ⟨kind, body, rfl⟩ := exists_symbolData h
  rw [symbolData, List.length_append, List.length_append, Bytes.length_word]
  omega

theorem readSymbols_framed {datas : List Bytes}
    (h : ∀ data ∈ datas, 2 ≤ data.length ∧ data.length ≤ 0xFFFF) {fuel : Nat}
    (hfuel : (datas.flatMap framed).length < fuel) :
    readSymbols fuel (datas.flatMap framed) = (datas.filterMap symbol?, none) := by
  induction datas generalizing fuel with
  | nil =>
    obtain ⟨fuel, rfl⟩ : ∃ n, fuel = n + 1 := ⟨fuel - 1, by omega⟩
    rfl
  | cons data datas ih =>
    obtain ⟨⟨hshort, hlong⟩, hrest⟩ := List.forall_mem_cons.1 h
    have hlength : (framed data).length = 2 + data.length := by
      rw [framed, List.length_append, Bytes.length_word]
    rw [List.flatMap_cons, List.length_append] at hfuel
    obtain ⟨fuel, rfl⟩ : ∃ n, fuel = n + 1 := ⟨fuel - 1, by omega⟩
    rw [List.flatMap_cons, readSymbols, Container.nextRecord_framed hshort hlong]
    dsimp only
    rw [ih hrest (by omega)]
    cases hsymbol : symbol? data with
    | none => rw [List.filterMap_cons_none hsymbol]; rfl
    | some s => rw [List.filterMap_cons_some hsymbol]; rfl

end SymbolStream

/-! ## The debug stream -/

namespace DebugHeader

/-- The header that a builder writes. -/
def written : DebugHeader := ⟨symbolStreamNumber, 0, 22⟩

theorem ofBytes_debugStream : ofBytes debugStream = .ok written := by
  decide

theorem streamList_debugStream : written.streamList debugStream = .ok slots := by
  decide

end DebugHeader

namespace Database

/-! ## Streams of a built database -/

theorem symbolRecords_of_streams {db : Database} {debug records : Bytes} {header : DebugHeader}
    (hdebug : db.container.stream DebugHeader.streamNumber = .ok debug)
    (hheader : DebugHeader.ofBytes debug = .ok header) (hpresent : header.symbolStream ≠ noStream)
    (hrecords : db.container.stream header.symbolStream = .ok records) :
    db.symbolRecords = .ok records := by
  unfold symbolRecords
  simp only [hdebug, bind, Except.bind, hheader, if_neg hpresent]
  exact hrecords

/-- The address map of a module that was not rearranged. -/
theorem addressMap_of_streams {db : Database} {debug list : Bytes} {header : DebugHeader}
    {sections : List UInt32} (hdebug : db.container.stream DebugHeader.streamNumber = .ok debug)
    (hheader : DebugHeader.ofBytes debug = .ok header)
    (hlist : header.streamList debug = .ok list)
    (hsections : AddressMap.slotSectionList db.container list AddressMap.slotSections
      = .ok (some sections))
    (hsource : AddressMap.slotSectionList db.container list AddressMap.slotSourceSections
      = .ok none) :
    db.addressMap = .ok ⟨sections.toArray, none⟩ := by
  unfold addressMap AddressMap.ofSlots
  simp only [hdebug, bind, Except.bind, hheader, hlist, hsections, hsource]
  rfl

theorem outcome_symbols_of_parts {db : Database} {records : Bytes} {addresses : AddressMap}
    {names : NameSet} {found : SymbolMap} (hrecords : db.symbolRecords = .ok records)
    (haddresses : db.addressMap = .ok addresses)
    (hcollect : SymbolStream.collect addresses names records = .ok found) :
    (db.symbols names).outcome = .ok found := by
  rw [outcome_symbols_eq_mapError]
  simp only [hrecords, haddresses, bind, Except.bind, hcollect]
  rfl

section Build

variable {b : Builder} {sections : Bytes}
  (h : (Container.write (b.streams sections)).length < 0x100000000)

include h

theorem stream_debug : (Container.written (b.streams sections)).stream DebugHeader.streamNumber
    = .ok debugStream :=
  Container.stream_written [none, none, some b.typeStream] (fits_streams h)

theorem symbolRecords_written : symbolRecords ⟨Container.written (b.streams sections)⟩
    = .ok (b.symbols.toList.flatMap framed) :=
  symbolRecords_of_streams (stream_debug h) DebugHeader.ofBytes_debugStream (by decide)
    (Container.stream_written [none, none, some b.typeStream, some debugStream, none]
      (fits_streams h))

theorem addressMap_written (hsections : b.sectionStream? = some sections) :
    addressMap ⟨Container.written (b.streams sections)⟩ = .ok ⟨b.sections, none⟩ := by
  have hstream : (Container.written (b.streams sections)).stream sectionStreamNumber
      = .ok sections :=
    Container.stream_written [none, none, some b.typeStream, some debugStream, none,
      some (b.symbols.toList.flatMap framed)] (fits_streams h)
  have hslot : DebugHeader.slot slots AddressMap.slotSections = sectionStreamNumber := by decide
  have hsource : DebugHeader.slot slots AddressMap.slotSourceSections = noStream := by decide
  refine addressMap_of_streams (stream_debug h) DebugHeader.ofBytes_debugStream
    DebugHeader.streamList_debugStream (?_ : _ = Except.ok (some b.sections.toList)) ?_
  · rw [AddressMap.slotSectionList, AddressMap.slotStream, hslot, if_neg (by decide), hstream]
    show (AddressMap.sectionsOf sections >>= fun sections => _) = _
    rw [AddressMap.sectionsOf_sectionStream hsections]
    rfl
  · rw [AddressMap.slotSectionList, AddressMap.slotStream, hsource, if_pos rfl]
    rfl

end Build

/-! ## First addresses -/

/-- The address of a symbol of this name, if its section is one of those that begin at these
addresses. Sections are counted from one. -/
def addressIn? (sections : List UInt32) (name : String) (s : SymbolStream.Symbol) : Option Nat :=
  if s.name = name ∧ 0 < s.sectionNumber then
    sections[s.sectionNumber - 1]?.map fun start => start.toNat + s.offset.toNat
  else none

/-- The address of the first symbol of a name that has one. -/
def firstAddress? (sections : List UInt32) (symbols : List SymbolStream.Symbol) (name : String) :
    Option Nat :=
  symbols.findSome? (addressIn? sections name)

theorem toInt64_toUInt64 (address : UInt32) :
    address.toUInt64.toInt64 = Int64.ofNat address.toNat :=
  Int64.toBitVec.inj (BitVec.ofNat_toNat 64 address.toBitVec).symm

/-- An address that 32 bits can hold is the one that is answered. -/
theorem map_addressOf? {sections : List UInt32} {name : String} {s : SymbolStream.Symbol}
    (h : ∀ address ∈ addressIn? sections name s, address < 0x100000000) :
    (SymbolStream.addressOf? ⟨sections.toArray, none⟩ name s).map
        (fun address => address.toUInt64.toInt64)
      = (addressIn? sections name s).map Int64.ofNat := by
  rw [addressIn?] at h ⊢
  rw [SymbolStream.addressOf?, AddressMap.address?, List.getElem?_toArray]
  by_cases hname : s.name = name
  · by_cases hzero : s.sectionNumber = 0
    · rw [if_pos hname, if_pos hzero, if_neg fun hboth => (Nat.ne_of_gt hboth.2) hzero]
      rfl
    · have hboth : s.name = name ∧ 0 < s.sectionNumber := ⟨hname, Nat.pos_of_ne_zero hzero⟩
      rw [if_pos hboth] at h
      rw [if_pos hname, if_neg hzero, if_pos hboth]
      cases hstart : sections[s.sectionNumber - 1]? with
      | none => rfl
      | some start =>
        rw [hstart] at h
        have hsum : start.toNat + s.offset.toNat < 0x100000000 := h _ rfl
        have hnat : (start + s.offset).toNat = start.toNat + s.offset.toNat := by
          rw [UInt32.toNat_add]
          exact Nat.mod_eq_of_lt hsum
        dsimp only [Option.map_some]
        rw [toInt64_toUInt64, hnat]
  · rw [if_neg hname, if_neg fun hboth => hname hboth.1]
    rfl

theorem map_findSome?_addressOf? {sections : List UInt32} {name : String}
    {symbols : List SymbolStream.Symbol}
    (h : ∀ s ∈ symbols, ∀ address ∈ addressIn? sections s.name s, address < 0x100000000) :
    (symbols.findSome? (SymbolStream.addressOf? ⟨sections.toArray, none⟩ name)).map
        (fun address => address.toUInt64.toInt64)
      = (firstAddress? sections symbols name).map Int64.ofNat := by
  induction symbols with
  | nil => rfl
  | cons s symbols ih =>
    obtain ⟨hs, hsymbols⟩ := List.forall_mem_cons.1 h
    have hfirst : ∀ address ∈ addressIn? sections name s, address < 0x100000000 := by
      by_cases hname : s.name = name
      · exact hname ▸ hs
      · rw [addressIn?, if_neg fun hboth => hname hboth.1]
        intro address haddress
        cases haddress
    have heq := map_addressOf? hfirst
    have hrest := ih hsymbols
    rw [firstAddress?] at hrest ⊢
    rw [List.findSome?_cons, List.findSome?_cons]
    cases hmodel : SymbolStream.addressOf? ⟨sections.toArray, none⟩ name s with
    | none =>
      rw [hmodel, Option.map_none, eq_comm, Option.map_eq_none_iff] at heq
      rw [heq]
      exact hrest
    | some address =>
      rw [hmodel, Option.map_some, eq_comm] at heq
      obtain ⟨sum, hsum, hvalue⟩ := Option.map_eq_some_iff.1 heq
      rw [hsum, Option.map_some, Option.map_some, hvalue]

/-! ## Answers -/

/-- A database can hold the symbols of some steps: no name holds the character zero, which ends a
name, every record has a length of 16 bits, every address has 32 bits, every section has a label,
and the file stays below four gigabytes. -/
structure HoldsSymbols (steps : List BuildStep) : Prop where
  names : ∀ s ∈ steps.filterMap BuildStep.symbol?, Char.ofNat 0 ∉ s.name.toList
  records : ∀ data ∈ steps.filterMap symbolOf?, data.length ≤ 0xFFFF
  addresses : ∀ s ∈ steps.filterMap BuildStep.symbol?,
    ∀ address ∈ addressIn? (steps.filterMap sectionOf?) s.name s, address < 0x100000000
  sections : (steps.filterMap sectionOf?).length ≤ 9999
  file : ∀ file, (ofSteps steps).build? = some file → file.length < 0x100000000

theorem get?_firstAddresses_of_fits {sections : List UInt32} {symbols : List SymbolStream.Symbol}
    (h : ∀ s ∈ symbols, ∀ address ∈ addressIn? sections s.name s, address < 0x100000000)
    (names : NameSet) (name : String) :
    (SymbolStream.firstAddresses ⟨sections.toArray, none⟩ names symbols).get? name
      = if names.contains name then (firstAddress? sections symbols name).map Int64.ofNat
        else none := by
  rw [SymbolStream.get?_firstAddresses, map_findSome?_addressOf? h]

theorem outcome_symbols_written {steps : List BuildStep} (h : HoldsSymbols steps)
    {sections : Bytes} (hsections : (ofSteps steps).sectionStream? = some sections)
    (hfile : (Container.write ((ofSteps steps).streams sections)).length < 0x100000000)
    (names : NameSet) :
    (symbols ⟨Container.written ((ofSteps steps).streams sections)⟩ names).outcome
      = .ok (SymbolStream.firstAddresses ⟨(steps.filterMap sectionOf?).toArray, none⟩ names
          (steps.filterMap BuildStep.symbol?)) := by
  have hdata := length_of_mem_filterMap SymbolStream.two_le_length_symbolOf h.records
  have hread := SymbolStream.readSymbols_framed hdata (Nat.lt_succ_self _)
  rw [SymbolStream.filterMap_symbol? h.names] at hread
  have hadded : (ofSteps steps).sections = (steps.filterMap sectionOf?).toArray := by
    rw [← sections_ofSteps, Array.toArray_toList]
  have hcollect : SymbolStream.collect ⟨(steps.filterMap sectionOf?).toArray, none⟩ names
        ((steps.filterMap symbolOf?).flatMap framed)
      = .ok (SymbolStream.firstAddresses ⟨(steps.filterMap sectionOf?).toArray, none⟩ names
          (steps.filterMap BuildStep.symbol?)) := by
    rw [SymbolStream.collect_eq_ok_iff, SymbolStream.defect?, SymbolStream.symbols, hread]
    exact ⟨.inl rfl, rfl⟩
  have hrecords := symbolRecords_written hfile
  have haddresses := addressMap_written hfile hsections
  rw [symbols_ofSteps] at hrecords
  rw [hadded] at haddresses
  exact outcome_symbols_of_parts hrecords haddresses hcollect

/-- Steps whose symbols a database can hold do build one, which is opened and answers. -/
theorem exists_symbols_build {steps : List BuildStep} (h : HoldsSymbols steps) (path : String) :
    ∃ file db, (ofSteps steps).build? = some file ∧ ofFile path (some file) = .ok db ∧
      ∀ names, (db.symbols names).outcome
        = .ok (SymbolStream.firstAddresses ⟨(steps.filterMap sectionOf?).toArray, none⟩ names
            (steps.filterMap BuildStep.symbol?)) := by
  obtain ⟨sections, hsections, hbuild⟩ := exists_build?_ofSteps h.sections
  have hfile := h.file _ hbuild
  exact ⟨_, _, hbuild, ofFile_write_streams hfile path, outcome_symbols_written h hsections hfile⟩

/-- A database is built in any steps that it can hold. It is opened, and a query for symbols finds
the address of the first public symbol or global data of each wanted name whose section is there,
and leaves out the names that have none. Steps with the same symbols and sections give the same
answer, whatever else they add and in whatever order. -/
theorem symbols_build {steps : List BuildStep} (h : HoldsSymbols steps) (path : String) :
    ∃ file db, (ofSteps steps).build? = some file ∧ ofFile path (some file) = .ok db ∧
      ∀ names, ∃ found, (db.symbols names).outcome = .ok found ∧
        (∀ name, found.get? name = if names.contains name then
          (firstAddress? (steps.filterMap sectionOf?) (steps.filterMap BuildStep.symbol?) name).map
            Int64.ofNat else none) ∧
        ∀ others, HoldsSymbols others →
          others.filterMap BuildStep.symbol? = steps.filterMap BuildStep.symbol? →
          others.filterMap sectionOf? = steps.filterMap sectionOf? →
          ∃ otherFile other, (ofSteps others).build? = some otherFile ∧
            ofFile path (some otherFile) = .ok other ∧
            (other.symbols names).outcome = .ok found := by
  obtain ⟨file, db, hbuild, hopen, hanswers⟩ := exists_symbols_build h path
  refine ⟨file, db, hbuild, hopen, fun names => ⟨_, hanswers names,
    get?_firstAddresses_of_fits h.addresses names, fun others hothers hsymbols hsections => ?_⟩⟩
  obtain ⟨otherFile, other, hotherBuild, hotherOpen, hotherAnswers⟩ :=
    exists_symbols_build hothers path
  refine ⟨otherFile, other, hotherBuild, hotherOpen, ?_⟩
  rw [hotherAnswers names, hsymbols, hsections]

/-- Symbols of two names among other steps; the first of each name is in no section or is local. -/
def mixedSteps : List BuildStep :=
  [.publicSymbol "a" 2 0x4, .localData "f" 0x74 1 0x8, .addSection 0x1000, .constant 0x74,
    .globalData "f" 0x1000 1 0x10, .publicSymbol "f" 1 0x20]

theorem symbols_build_mixedSteps : ∃ file db found,
    (ofSteps mixedSteps).build? = some file ∧ ofFile "s.pdb" (some file) = .ok db ∧
      (db.symbols (NameSet.ofNames ["a", "f"])).outcome = .ok found ∧
      found.get? "f" = some 0x1010 ∧ found.get? "a" = none := by
  have hholds : HoldsSymbols mixedSteps := by
    refine ⟨by decide, by decide, by decide, by decide, fun file hbuild => ?_⟩
    exact Nat.lt_of_le_of_lt (length_build_le hbuild) (by decide)
  obtain ⟨file, db, hbuild, hopen, hanswers⟩ := symbols_build hholds "s.pdb"
  obtain ⟨found, houtcome, hfound, -⟩ := hanswers (NameSet.ofNames ["a", "f"])
  refine ⟨file, db, found, hbuild, hopen, houtcome, ?_, ?_⟩
  · rw [hfound]
    decide
  · rw [hfound]
    decide

end Database

end OffsetService
