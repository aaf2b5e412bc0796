import OffsetService.AddressMap
import OffsetService.Container.Records
import OffsetService.Decoder
import OffsetService.Resolve.Collector
import OffsetService.Text.Utf8

/-!
# The symbol stream

The symbol stream is a sequence of records behind their lengths. Two kinds of record name an
address: public symbols and global data. A scan offers each of them to a collector, in order, and
stops after the first such record at which every wanted name has its address; records of other kinds
and records that cannot be decoded are passed over without that test.
-/

namespace OffsetService.SymbolStream

/-- A symbol with a place. -/
structure Symbol where
  name : String
  sectionNumber : Nat
  offset : UInt32
  deriving DecidableEq, Repr

/-- The kinds of record that give the place of a public symbol or of global data. -/
def placeKinds : List Nat := [0x110E, 0x1009, 0x110D, 0x1008, 0x111D, 0x1021]

/-- Kinds below this have counted names. -/
def firstTerminated : Nat := 0x1100

/-- The symbol in the data of a record, if it is one with a place. Public symbols and global data
have the same form: four bytes, an offset, a section and a name. -/
def symbol? (data : Bytes) : Option Symbol :=
  let decoder : Decoder (Option Symbol) := do
    let kind ← Decoder.number 2
    if placeKinds.contains kind then
      discard <| Decoder.take 4
      let offset ← Decoder.word
      let sectionNumber ← Decoder.number 2
      let name ← Decoder.name (kind < firstTerminated)
      return some { name := Utf8.lossy name, sectionNumber, offset }
    else
      return none
  match decoder.run' data with
  | .ok found => found
  | .error _ => none

/-- The collector after a symbol. One without an address is not offered. -/
def offer (addresses : AddressMap) (c : Collector) (s : Symbol) : Collector :=
  match addresses.address? s.sectionNumber s.offset with
  | some address => c.offer s.name address.toUInt64
  | none => c

/-- Scan a stream until every wanted name has its address. -/
def scan (addresses : AddressMap) : (fuel : Nat) → Collector → Bytes →
    Except DatabaseDefect Collector
  | 0, c, _ => .ok c
  | fuel + 1, c, stream => do
    match ← Container.nextRecord .symbolTooShort stream with
    | none => return c
    | some (data, rest) =>
      match symbol? data with
      | none => scan addresses fuel c rest
      | some s =>
        let c := offer addresses c s
        if c.isComplete then return c else scan addresses fuel c rest

/-- The addresses of the wanted names in a stream. -/
def collect (addresses : AddressMap) (wanted : NameSet) (stream : Bytes) :
    Except DatabaseDefect SymbolMap :=
  (scan addresses (stream.length + 1) (Collector.start wanted) stream).map (·.found)

end OffsetService.SymbolStream
