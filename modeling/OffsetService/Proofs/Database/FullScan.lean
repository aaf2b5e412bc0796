import OffsetService.Proofs.Database.Addresses
import OffsetService.Proofs.Database.TypeStream
import OffsetService.Proofs.Database.Union

/-!
# A scan that stops early answers as a full one

A full scan reads all records of a symbol stream, those that cannot be decoded included, up to the
end of the stream or to the defect at which it breaks off (`Iterates`), and looks for the first
record that tells the address of a wanted name (`FirstTells`). The scan that resolves symbols may
stop long before that. It answers when the stream ends well or the records `Suffice`, and what it
answers is what the full scan finds (`symbols_agree_with_full_scan`): neither what follows the last
record needed nor repeated, unwanted and unmapped symbols show in the answer.

The defect of a stream thus shows only if some wanted name has no address before it. When nothing is
wanted, the scan still reads up to the first symbol, since it is only behind a symbol that it asks
whether it is done.
-/

namespace OffsetService

/-! ## Complete collectors -/

namespace Collector

open SymbolStream (FindsWanted)

/-- The collector after a list of offers. -/
def offerAll (c : Collector) (offers : List (String × UInt64)) : Collector :=
  offers.foldl (fun c offer => c.offer offer.1 offer.2) c

/-- Offers neither change what is wanted nor add an address of an unwanted name. -/
theorem findsWanted_offerAll {c : Collector} (h : FindsWanted c) (offers : List (String × UInt64)) :
    (c.offerAll offers).wanted = c.wanted ∧ FindsWanted (c.offerAll offers) := by
  induction offers generalizing c with
  | nil => exact ⟨rfl, h⟩
  | cons offer rest ih =>
    obtain ⟨hwanted, hfinds⟩ := ih (h.offer_address offer.1 offer.2)
    exact ⟨hwanted.trans (wanted_offer ..), hfinds⟩

/-- A collector is complete when the names with addresses are the wanted ones. -/
theorem isComplete_offerAll_iff (wanted : NameSet) (offers : List (String × UInt64)) :
    ((start wanted).offerAll offers).isComplete = true ↔
      ∀ name, ((start wanted).offerAll offers).found.contains name = wanted.contains name := by
  have hstart : FindsWanted (start wanted) := fun name hname => by cases hname
  obtain ⟨hwanted, hfinds⟩ := findsWanted_offerAll hstart offers
  rw [hfinds.isComplete_iff, hwanted]
  constructor
  · intro hall name
    refine Bool.eq_iff_iff.2 ⟨fun hname => ?_, hall name⟩
    have := hfinds name hname
    rw [hwanted] at this
    exact this
  · intro hsame name hname
    rw [hsame]
    exact hname

end Collector

namespace SymbolStream

/-! ## All records of a stream -/

/-- Reading a stream to its end or to a defect: the data of its records, whatever they hold, and the
defect at which it breaks off, if it does. -/
inductive Iterates : Bytes → List Bytes → Option DatabaseDefect → Prop
  | ends {stream : Bytes} (h : Container.nextRecord .symbolTooShort stream = .ok none) :
      Iterates stream [] none
  | breaks {stream : Bytes} {defect : DatabaseDefect}
      (h : Container.nextRecord .symbolTooShort stream = .error defect) :
      Iterates stream [] (some defect)
  | record {stream data rest : Bytes} {records : List Bytes} {ending : Option DatabaseDefect}
      (h : Container.nextRecord .symbolTooShort stream = .ok (some (data, rest)))
      (hrest : Iterates rest records ending) : Iterates stream (data :: records) ending

theorem length_of_nextRecord {stream data rest : Bytes}
    (h : Container.nextRecord .symbolTooShort stream = .ok (some (data, rest))) :
    rest.length < stream.length := by
  rcases Container.framed_of_nextRecord h with ⟨hnone, -⟩ | ⟨_, _, hsome, rfl, -⟩
  · cases hnone
  · cases hsome
    rw [List.length_append, Builder.framed, List.length_append, Bytes.length_word]
    omega

/-- Every stream can be read to an ending, as each record makes what is left of it shorter. -/
theorem exists_iterates (stream : Bytes) : ∃ records ending, Iterates stream records ending := by
  cases hnext : Container.nextRecord .symbolTooShort stream with
  | error defect => exact ⟨[], some defect, .breaks hnext⟩
  | ok next =>
    rcases next with _ | ⟨data, rest⟩
    · exact ⟨[], none, .ends hnext⟩
    · have hrest := length_of_nextRecord hnext
      obtain ⟨records, ending, hiterates⟩ := exists_iterates rest
      exact ⟨data :: records, ending, .record hnext hiterates⟩
termination_by stream.length

/-- The symbols of a stream are those among its records, given fuel for all of them. -/
theorem Iterates.readSymbols_eq {stream : Bytes} {records : List Bytes}
    {ending : Option DatabaseDefect} (h : Iterates stream records ending) {fuel : Nat}
    (hfuel : stream.length < fuel) :
    readSymbols fuel stream = (records.filterMap symbol?, ending) := by
  induction h generalizing fuel with
  | ends h | breaks h =>
    cases fuel with
    | zero => omega
    | succ fuel =>
      rw [readSymbols, h]
      rfl
  | record h _ ih =>
    cases fuel with
    | zero => omega
    | succ fuel =>
      have hrest := length_of_nextRecord h
      rw [readSymbols, h]
      dsimp only
      rw [ih (by omega), List.filterMap_cons]
      cases symbol? _ <;> rfl

theorem Iterates.symbols_eq {stream : Bytes} {records : List Bytes}
    {ending : Option DatabaseDefect} (h : Iterates stream records ending) :
    symbols stream = records.filterMap symbol? := by
  rw [symbols, h.readSymbols_eq (Nat.lt_succ_self _)]

theorem Iterates.defect?_eq {stream : Bytes} {records : List Bytes}
    {ending : Option DatabaseDefect} (h : Iterates stream records ending) :
    defect? stream = ending := by
  rw [defect?, h.readSymbols_eq (Nat.lt_succ_self _)]

/-! ## What the records tell -/

/-- A record is a public or global symbol of this name, and its section is mapped: this is where the
symbol lies. -/
def Tells (addresses : AddressMap) (name : String) (address : UInt32) (data : Bytes) : Prop :=
  ∃ s, symbol? data = some s ∧ s.name = name ∧
    addresses.address? s.sectionNumber s.offset = some address

/-- The first of the records that tells an address of this name tells this one. -/
def FirstTells (addresses : AddressMap) (name : String) (address : UInt32)
    (records : List Bytes) : Prop :=
  ∃ before data after, records = before ++ data :: after ∧ Tells addresses name address data ∧
    ∀ earlier ∈ before, ∀ other, ¬Tells addresses name other earlier

/-- The records tell an address of every wanted name; when no name is wanted, there is a symbol
among them, with an address or without one. -/
structure Suffice (addresses : AddressMap) (wanted : NameSet) (records : List Bytes) : Prop where
  told : ∀ name, wanted.contains name = true →
    ∃ data ∈ records, ∃ address, Tells addresses name address data
  started : wanted.size = 0 → ∃ data ∈ records, ∃ s, symbol? data = some s

/-- An answer has the first address told of each wanted name, and nothing else. -/
def Answers (addresses : AddressMap) (wanted : NameSet) (records : List Bytes) (m : SymbolMap) :
    Prop :=
  ∀ name value, m.get? name = some value ↔ wanted.contains name = true ∧
    ∃ address, FirstTells addresses name address records ∧ value.toInt = address.toNat

theorem tells_iff {addresses : AddressMap} {name : String} {address : UInt32} {data : Bytes} :
    Tells addresses name address data ↔
      (symbol? data).bind (addressOf? addresses name) = some address := by
  rw [Option.bind_eq_some_iff, Tells]
  refine exists_congr fun s => and_congr_right fun _ => ?_
  rw [addressOf?]
  by_cases hname : s.name = name <;> simp [hname]

theorem findSome?_symbols (addresses : AddressMap) (name : String) (records : List Bytes) :
    (records.filterMap symbol?).findSome? (addressOf? addresses name)
      = records.findSome? fun data => (symbol? data).bind (addressOf? addresses name) := by
  rw [← List.head?_filterMap, List.filterMap_filterMap, List.head?_filterMap]

theorem firstTells_iff {addresses : AddressMap} {name : String} {address : UInt32}
    {records : List Bytes} :
    FirstTells addresses name address records ↔
      (records.filterMap symbol?).findSome? (addressOf? addresses name) = some address := by
  rw [findSome?_symbols, List.findSome?_eq_some_iff, FirstTells]
  refine exists_congr fun before => exists_congr fun data => exists_congr fun after =>
    and_congr_right fun _ => and_congr tells_iff (forall₂_congr fun earlier _ => ?_)
  simp only [tells_iff, Option.eq_none_iff_forall_ne_some, ne_eq]

theorem exists_tells_iff {addresses : AddressMap} {name : String} {records : List Bytes} :
    (∃ data ∈ records, ∃ address, Tells addresses name address data) ↔
      ∃ address, (records.filterMap symbol?).findSome? (addressOf? addresses name)
        = some address := by
  rw [findSome?_symbols]
  simp only [tells_iff, ← Option.isSome_iff_exists, List.findSome?_isSome_iff]

/-- A wanted name that is told has a symbol, so only when no name is wanted must one be asked for. -/
theorem suffice_iff {addresses : AddressMap} {wanted : NameSet} {records : List Bytes} :
    Suffice addresses wanted records ↔ Covered addresses wanted (records.filterMap symbol?) := by
  have hsymbol : (∃ data ∈ records, ∃ s, symbol? data = some s) ↔
      records.filterMap symbol? ≠ [] := by
    rw [ne_eq, List.filterMap_eq_nil_iff]
    simp [Option.ne_none_iff_exists']
  constructor
  · intro h
    refine ⟨hsymbol.1 ?_, fun name hname => exists_tells_iff.1 (h.told name hname)⟩
    rcases hentries : wanted.entries with _ | ⟨⟨name, _⟩, _⟩
    · exact h.started (by rw [NameMap.size, hentries]; rfl)
    · have hname : wanted.contains name = true :=
        NameMap.contains_iff.2 ⟨_, NameMap.get?_of_mem (hentries ▸ List.mem_cons_self)⟩
      obtain ⟨data, hdata, _, s, hs, -⟩ := h.told name hname
      exact ⟨data, hdata, s, hs⟩
  · rintro ⟨hne, hall⟩
    exact ⟨fun name hname => exists_tells_iff.2 (hall name hname), fun _ => hsymbol.2 hne⟩

theorem toInt64_toUInt64_eq_iff {address : UInt32} {value : Int64} :
    address.toUInt64.toInt64 = value ↔ value.toInt = address.toNat := by
  have hbound : address.toNat < 2 ^ 63 := Nat.lt_trans address.toNat_lt (by decide)
  rw [Database.toInt64_toUInt64, ← Int64.toInt_inj, Int64.toInt_ofNat_of_lt hbound]
  exact eq_comm

theorem answers_iff {addresses : AddressMap} {wanted : NameSet} {records : List Bytes}
    {m : SymbolMap} :
    Answers addresses wanted records m ↔
      m = firstAddresses addresses wanted (records.filterMap symbol?) := by
  have hfirst : ∀ name value,
      (firstAddresses addresses wanted (records.filterMap symbol?)).get? name = some value ↔
        wanted.contains name = true ∧
          ∃ address, FirstTells addresses name address records ∧ value.toInt = address.toNat := by
    intro name value
    rw [get?_firstAddresses]
    by_cases hwanted : wanted.contains name
    · simp only [hwanted, if_true, true_and, Option.map_eq_some_iff, firstTells_iff,
        toInt64_toUInt64_eq_iff]
    · simp [hwanted]
  constructor
  · intro h
    refine NameMap.ext_get? fun name => Option.ext fun value => ?_
    exact (h name value).trans (hfirst name value).symm
  · rintro rfl
    exact hfirst

/-- A scan answers when the stream ends well or its records suffice, with what they first tell. -/
theorem Iterates.collect_eq_ok_iff {stream : Bytes} {records : List Bytes}
    {ending : Option DatabaseDefect} (h : Iterates stream records ending) (addresses : AddressMap)
    (wanted : NameSet) (m : SymbolMap) :
    collect addresses wanted stream = .ok m ↔
      (ending = none ∨ Suffice addresses wanted records) ∧ Answers addresses wanted records m := by
  rw [SymbolStream.collect_eq_ok_iff, h.symbols_eq, h.defect?_eq, suffice_iff, answers_iff]

-- A stream that breaks off behind a symbol: whether that shows depends on what is wanted.
example :
    let stream := Builder.framed (Builder.placeData 0x110E "a" 0 1 4) ++ [0xFF]
    let entries names := (collect ⟨#[0x1000], none⟩ (NameSet.ofNames names) stream).map (·.entries)
    entries ["a"] = .ok [("a", 0x1004)] ∧ entries ["a", "b"] = .error .unexpectedEnd :=
  ⟨by cbv, by cbv⟩

end SymbolStream

/-! ## Symbols of a database -/

namespace Database

open SymbolStream

/-- A query for symbols succeeds when there are symbols and sections to scan and the scan does. -/
theorem outcome_symbols_eq_ok_iff {db : Database} {wanted : NameSet} {m : SymbolMap} :
    (db.symbols wanted).outcome = .ok m ↔
      ∃ stream addresses, db.symbolRecords = .ok stream ∧ db.addressMap = .ok addresses ∧
        collect addresses wanted stream = .ok m := by
  rw [outcome_symbols_eq_mapError]
  cases db.symbolRecords with
  | error defect =>
    simp [bind, Except.bind, Except.mapError]
  | ok stream =>
    cases db.addressMap with
    | error defect =>
      simp [bind, Except.bind, Except.mapError]
    | ok addresses =>
      simp only [bind, Except.bind, Except.ok.injEq, exists_eq_left', exists_and_left]
      cases collect addresses wanted stream <;> simp [Except.mapError]

end Database

namespace SymbolStream

/-- The scan for wanted names answers exactly as a full scan of the stream does, also as a query on a
database, and a collector is complete exactly when the names that it has are the wanted ones. -/
theorem symbols_agree_with_full_scan :
    (∀ stream, ∃ records ending, Iterates stream records ending ∧ ∀ addresses wanted m,
      collect addresses wanted stream = .ok m ↔
        (ending = none ∨ Suffice addresses wanted records) ∧
          Answers addresses wanted records m) ∧
    (∀ (db : Database) wanted m, (db.symbols wanted).outcome = .ok m ↔
      ∃ stream addresses records ending, db.symbolRecords = .ok stream ∧
        db.addressMap = .ok addresses ∧ Iterates stream records ending ∧
          (ending = none ∨ Suffice addresses wanted records) ∧
            Answers addresses wanted records m) ∧
    ∀ wanted offers, ((Collector.start wanted).offerAll offers).isComplete = true ↔
      ∀ name, ((Collector.start wanted).offerAll offers).found.contains name
        = wanted.contains name := by
  refine ⟨fun stream => ?_, fun db wanted m => ?_, Collector.isComplete_offerAll_iff⟩
  · obtain ⟨records, ending, h⟩ := exists_iterates stream
    exact ⟨records, ending, h, h.collect_eq_ok_iff⟩
  · rw [Database.outcome_symbols_eq_ok_iff]
    refine exists_congr fun stream => exists_congr fun addresses => ?_
    constructor
    · rintro ⟨hstream, haddresses, hcollect⟩
      obtain ⟨records, ending, h⟩ := exists_iterates stream
      exact ⟨records, ending, hstream, haddresses, h,
        (h.collect_eq_ok_iff addresses wanted m).1 hcollect⟩
    · rintro ⟨records, ending, hstream, haddresses, h, hanswer⟩
      exact ⟨hstream, haddresses, (h.collect_eq_ok_iff addresses wanted m).2 hanswer⟩

end SymbolStream

end OffsetService
