import OffsetService.AddressMap
import OffsetService.Container.Write
import OffsetService.Numeric
import OffsetService.Record
import OffsetService.Text.Utf8
import OffsetService.TypeStream

/-!
# Building databases

A builder collects type records, symbol records and sections one step at a time and writes the
database that holds them. Type records are numbered from `TypeIndex.firstRecord` in the order of the
steps, so a step knows its own index before the later ones refer to it.

Every record begins at a multiple of four bytes. A type record and each entry of a field list are
filled up with bytes that count down to the boundary (`padding`); a symbol record is filled up with
zeros. The length in front of a record counts towards its alignment and not towards itself.

A section is labelled with its number in eight bytes. A builder with a section whose label is longer
writes no database.
-/

namespace OffsetService

/-- An entry of a field list to be written. -/
inductive NewEntry where
  | member (name : String) (type : TypeIndex) (offset : UInt64)
  | enumerator (name : String) (value : Int64)
  deriving DecidableEq, Repr

/-- One step of building. -/
inductive BuildStep where
  /-- A section at an address. -/
  | addSection (address : UInt32)
  | struct (name : String) (fields : Option TypeIndex) (size : UInt64) (count : UInt16)
  /-- A reference to a structure that is defined elsewhere. -/
  | forward (name : String)
  | enum (name : String) (underlying fields : TypeIndex) (count : UInt16)
  | fieldList (entries : List NewEntry) (continuation : Option TypeIndex)
  | bitfield (base : TypeIndex) (length position : UInt8)
  /-- A constant form of a type. -/
  | constant (type : TypeIndex)
  | publicSymbol (name : String) (sectionNumber : UInt16) (offset : UInt32)
  | globalData (name : String) (type : TypeIndex) (sectionNumber : UInt16) (offset : UInt32)
  | localData (name : String) (type : TypeIndex) (sectionNumber : UInt16) (offset : UInt32)
  deriving DecidableEq, Repr

/-- The records and sections collected so far. The data of a record includes its padding and not
its length. -/
structure Builder where
  types : Array Bytes
  symbols : Array Bytes
  sections : Array UInt32

namespace Builder

/-- Nothing collected yet. -/
def empty : Builder := ⟨#[], #[], #[]⟩

/-! ## Fields -/

/-- A name up to a zero byte. -/
def nameField (name : String) : Bytes :=
  Utf8.encode name ++ [0]

/-- The number of bytes from `size` up to a multiple of four. -/
def gap (size : Nat) : Nat :=
  (4 - size % 4) % 4

/-- Padding of `count` bytes: each byte counts the bytes up to the boundary, itself included. -/
def padding : (count : Nat) → Bytes
  | 0 => []
  | count + 1 => UInt8.ofNat (0xF0 + (count + 1)) :: padding count

/-- The mark of a public member or constant. -/
def publicAttribute : Nat := 3

/-- An entry of a field list, with its padding. -/
def entry (body : Bytes) : Bytes :=
  body ++ padding (gap body.length)

/-- An entry to be written. -/
def entryOf : NewEntry → Bytes
  | .member name type offset =>
    entry (Bytes.word 2 0x150D ++ Bytes.word 2 publicAttribute ++ Bytes.word 4 type.toNat
      ++ NumericLeaf.encodeUnsigned offset ++ nameField name)
  | .enumerator name value =>
    entry (Bytes.word 2 0x1502 ++ Bytes.word 2 publicAttribute ++ NumericLeaf.encodeSigned value
      ++ nameField name)

/-- The entry that continues a field list in another record. -/
def continuationOf : Option TypeIndex → Bytes
  | none => []
  | some next => entry (Bytes.word 2 0x1404 ++ Bytes.word 4 next.toNat)

/-! ## Records -/

/-- The data of a type record: its leaf, its fields and its padding. -/
def typeData (leaf : Nat) (body : Bytes) : Bytes :=
  let data := Bytes.word 2 leaf ++ body
  data ++ padding (gap (data.length + 2))

/-- The data of a symbol record: its kind, its fields, and zeros up to the boundary. -/
def symbolData (kind : Nat) (body : Bytes) : Bytes :=
  let data := Bytes.word 2 kind ++ body
  data ++ List.replicate (gap (data.length + 2)) 0

/-- The data of a structure record. -/
def structData (name : String) (fields : TypeIndex) (size : UInt64) (count properties : Nat) :
    Bytes :=
  typeData 0x1505 (Bytes.word 2 count ++ Bytes.word 2 properties ++ Bytes.word 4 fields.toNat
    ++ Bytes.word 4 0 ++ Bytes.word 4 0 ++ NumericLeaf.encodeUnsigned size ++ nameField name)

/-- The property bit of a forward reference. -/
def forwardProperty : Nat := 0x80

/-- The data of a symbol with a place, behind four bytes of attributes or of a type. -/
def placeData (kind : Nat) (name : String) (first : TypeIndex) (sectionNumber : UInt16)
    (offset : UInt32) : Bytes :=
  symbolData kind (Bytes.word 4 first.toNat ++ Bytes.word 4 offset.toNat
    ++ Bytes.word 2 sectionNumber.toNat ++ nameField name)

/-- The data of the type record that a step adds, if it adds one. -/
def typeOf? : BuildStep → Option Bytes
  | .struct name fields size count => some (structData name (fields.getD 0) size count.toNat 0)
  | .forward name => some (structData name 0 0 0 forwardProperty)
  | .enum name underlying fields count =>
    some (typeData 0x1507 (Bytes.word 2 count.toNat ++ Bytes.word 2 0
      ++ Bytes.word 4 underlying.toNat ++ Bytes.word 4 fields.toNat ++ nameField name))
  | .fieldList entries continuation =>
    some (typeData 0x1203 (entries.flatMap entryOf ++ continuationOf continuation))
  | .bitfield base length position =>
    some (typeData 0x1205 (Bytes.word 4 base.toNat ++ [length, position]))
  | .constant type => some (typeData 0x1001 (Bytes.word 4 type.toNat ++ Bytes.word 2 1))
  | _ => none

/-- The data of the symbol record that a step adds, if it adds one. -/
def symbolOf? : BuildStep → Option Bytes
  | .publicSymbol name sectionNumber offset => some (placeData 0x110E name 0 sectionNumber offset)
  | .globalData name type sectionNumber offset =>
    some (placeData 0x110D name type sectionNumber offset)
  | .localData name type sectionNumber offset =>
    some (placeData 0x110C name type sectionNumber offset)
  | _ => none

/-- The section that a step adds, if it adds one. -/
def sectionOf? : BuildStep → Option UInt32
  | .addSection address => some address
  | _ => none

/-! ## Steps -/

/-- The builder after a step. -/
def add (b : Builder) (step : BuildStep) : Builder where
  types := (typeOf? step).elim b.types b.types.push
  symbols := (symbolOf? step).elim b.symbols b.symbols.push
  sections := (sectionOf? step).elim b.sections b.sections.push

/-- The number that a step is known by: the index of its type record or the number of its section,
counted from one in 16 bits. A symbol has no number. -/
def number? (b : Builder) (step : BuildStep) : Option Nat :=
  if (typeOf? step).isSome then
    some (TypeIndex.firstRecord.toNat + b.types.size)
  else if (sectionOf? step).isSome then
    some ((b.sections.size + 1) % 0x10000)
  else
    none

/-- The builder after some steps. -/
def ofSteps (steps : List BuildStep) : Builder :=
  steps.foldl add empty

/-- The numbers of some steps, taken one after the other. -/
def numbers (steps : List BuildStep) : List (Option Nat) :=
  go empty steps
where
  go : Builder → List BuildStep → List (Option Nat)
    | _, [] => []
    | b, step :: steps => b.number? step :: go (b.add step) steps

/-! ## Streams -/

/-- A record behind the length of its data. -/
def framed (data : Bytes) : Bytes :=
  Bytes.word 2 data.length ++ data

/-- The type stream. -/
def typeStream (b : Builder) : Bytes :=
  let records := b.types.toList.flatMap framed
  Bytes.word 4 20040203 ++ Bytes.word 4 TypeStream.headerSize
    ++ Bytes.word 4 TypeIndex.firstRecord.toNat
    ++ Bytes.word 4 (TypeIndex.firstRecord.toNat + b.types.size)
    ++ Bytes.word 4 records.length ++ Bytes.word 2 noStream ++ Bytes.word 2 noStream
    ++ Bytes.word 4 4 ++ Bytes.word 4 0x3FFFF ++ List.replicate 24 0 ++ records

/-- The stream that holds the symbol records. -/
def symbolStreamNumber : Nat := 5

/-- The stream that holds the section headers. -/
def sectionStreamNumber : Nat := 6

/-- The list of streams in the debug stream. Only one slot is in use. -/
def slots : Bytes :=
  (List.range 11).flatMap fun slot =>
    Bytes.word 2 (if slot = AddressMap.slotSections then sectionStreamNumber else noStream)

/-- The debug stream. -/
def debugStream : Bytes :=
  Bytes.word 4 0xFFFFFFFF ++ Bytes.word 4 19990903 ++ Bytes.word 4 1
    ++ Bytes.word 2 noStream ++ Bytes.word 2 0 ++ Bytes.word 2 noStream ++ Bytes.word 2 0
    ++ Bytes.word 2 symbolStreamNumber ++ Bytes.word 2 0 ++ List.replicate 24 0
    ++ Bytes.word 4 slots.length ++ Bytes.word 4 0 ++ Bytes.word 2 0 ++ Bytes.word 2 0x8664
    ++ Bytes.word 4 0 ++ slots

/-- The label of the section with a number, in eight bytes. It is missing where it does not fit. -/
def sectionLabel? (number : Nat) : Option Bytes :=
  let label := Utf8.encode s!".sec{number}"
  if label.length ≤ 8 then some (label ++ List.replicate (8 - label.length) 0) else none

/-- The header of the section with a number. -/
def sectionHeader? (number : Nat) (address : UInt32) : Option Bytes :=
  (sectionLabel? number).map fun label =>
    label ++ Bytes.word 4 0x1000 ++ Bytes.word 4 address.toNat ++ List.replicate 20 0
      ++ Bytes.word 4 0x40000040

/-- The headers of the sections at some addresses, numbered from here on. -/
def sectionHeaders? : (number : Nat) → List UInt32 → Option Bytes
  | _, [] => some []
  | number, address :: addresses => do
    let header ← sectionHeader? number address
    let rest ← sectionHeaders? (number + 1) addresses
    return header ++ rest

/-- The stream of section headers. -/
def sectionStream? (b : Builder) : Option Bytes :=
  sectionHeaders? 1 b.sections.toList

/-- The streams of the database, of which the section headers are given. -/
def streams (b : Builder) (sections : Bytes) : List (Option Bytes) :=
  [none, none, some b.typeStream, some debugStream, none,
   some (b.symbols.toList.flatMap framed), some sections]

/-- The database that holds what was collected. There is none if a section has no label. -/
def build? (b : Builder) : Option Bytes :=
  b.sectionStream?.map fun sections => Container.write (b.streams sections)

end Builder

end OffsetService
