import OffsetService.Container.Read

/-!
# Section addresses

A symbol gives its place as a section, counted from one, and an offset in it. Its address is the
address of the section plus the offset. When a module was rearranged after it was built, the
sections are those from before, and a relocation takes each address to where it is now: the last
entry that begins at or before the address says how far it moved, and an entry whose target is 0
marks what was removed.

The debug stream says which streams hold all this: a header, substreams whose sizes the header
gives, and then a list of stream numbers.
-/

namespace OffsetService

/-- The value of a stream number that stands for no stream. -/
def noStream : Nat := 0xFFFF

/-! ## The debug stream -/

/-- What the header of the debug stream says. -/
structure DebugHeader where
  /-- The stream of symbol records. -/
  symbolStream : Nat
  /-- The sizes of the substreams between the header and the list of streams, added up. -/
  substreams : Nat
  /-- The size in bytes of the list of streams. -/
  listSize : Nat
  deriving DecidableEq, Repr

namespace DebugHeader

/-- The number of the debug stream. -/
def streamNumber : Nat := 3

/-- The size of the header. -/
def size : Nat := 64

/-- The number in the `width` bytes at `offset` of a header. -/
def field (header : Bytes) (offset width : Nat) : Nat :=
  Bytes.littleEndian ((header.drop offset).take width)

/-- The header of a debug stream. -/
def ofBytes (stream : Bytes) : Except DatabaseDefect DebugHeader :=
  match stream.chop? size with
  | none => .error .unexpectedEnd
  | some (header, _) =>
    if field header 0 4 ≠ 0xFFFFFFFF then
      .error (.unimplemented "ancient DBI header")
    else
      .ok {
        symbolStream := field header 20 2
        substreams := field header 24 4 + field header 28 4 + field header 32 4
          + field header 36 4 + field header 40 4 + field header 52 4
        listSize := field header 48 4 }

/-- The list of stream numbers in a debug stream, two bytes each. -/
def streamList (header : DebugHeader) (stream : Bytes) : Except DatabaseDefect Bytes := do
  let rest ← Container.skip (size + header.substreams) stream
  match rest.chop? header.listSize with
  | none => throw .unexpectedEnd
  | some (list, _) =>
    if list.length % 2 = 1 then
      throw (.misalignedStream "DbgDataHdr")
    return list

/-- The stream in a slot of the list; a slot past its end holds none. -/
def slot (list : Bytes) (index : Nat) : Nat :=
  match Bytes.chop? 2 (list.drop (2 * index)) with
  | some (entry, _) => Bytes.littleEndian entry
  | none => noStream

end DebugHeader

/-! ## Addresses -/

/-- Entries of a relocation: where a range began, and where it begins now. -/
abbrev Relocation := List (UInt32 × UInt32)

/-- The addresses of the sections, and how to relocate an address in them. -/
structure AddressMap where
  sections : Array UInt32
  relocation : Option Relocation

namespace AddressMap

/-- Where an address is now: by the last entry that begins at or before it. -/
def relocate? (entries : Relocation) (address : UInt32) : Option UInt32 :=
  match (entries.takeWhile (·.1 ≤ address)).getLast? with
  | none => none
  | some (source, target) => if target = 0 then none else some (address - source + target)

/-- The address of an offset in a section. -/
def address? (m : AddressMap) (sectionNumber : Nat) (offset : UInt32) : Option UInt32 :=
  if sectionNumber = 0 then none
  else
    match m.sections[sectionNumber - 1]? with
    | none => none
    | some start =>
      match m.relocation with
      | none => some (start + offset)
      | some entries => relocate? entries (start + offset)

/-! ## Reading -/

/-- The size of a section header. -/
def sectionHeaderSize : Nat := 40

/-- The addresses in a stream of section headers, behind those `found` before, newest first. -/
def takeSections : (fuel : Nat) → (found : List UInt32) → Bytes →
    Except DatabaseDefect (List UInt32)
  | 0, found, _ => .ok found.reverse
  | fuel + 1, found, stream =>
    if stream.isEmpty then
      .ok found.reverse
    else
      match stream.chop? sectionHeaderSize with
      | none => .error .unexpectedEnd
      | some (header, rest) =>
        takeSections fuel ((DebugHeader.field header 12 4).toUInt32 :: found) rest

/-- The addresses of the sections in a stream. -/
def sectionsOf (stream : Bytes) : Except DatabaseDefect (List UInt32) :=
  takeSections (stream.length + 1) [] stream

/-- The entries of a relocation. -/
def takeEntries : (fuel : Nat) → (found : Relocation) → Bytes → Relocation
  | 0, found, _ => found.reverse
  | fuel + 1, found, stream =>
    match stream.chop? 8 with
    | none => found.reverse
    | some (entry, rest) =>
      takeEntries fuel
        (((DebugHeader.field entry 0 4).toUInt32, (DebugHeader.field entry 4 4).toUInt32) :: found)
        rest

/-- The relocation in a stream. -/
def relocationOf (stream : Bytes) : Except DatabaseDefect Relocation :=
  if stream.length % 8 ≠ 0 then
    .error (.misalignedStream "OMAP")
  else
    .ok (takeEntries (stream.length + 1) [] stream)

/-- The stream in a slot, or none when the slot holds no stream. -/
def slotStream (c : Container) (list : Bytes) (index : Nat) :
    Except DatabaseDefect (Option Bytes) :=
  let number := DebugHeader.slot list index
  if number = noStream then .ok none else (c.stream number).map some

/-- The slot of the relocation from rearranged addresses back. -/
def slotToSource : Nat := 3

/-- The slot of the relocation to rearranged addresses. -/
def slotFromSource : Nat := 4

/-- The slot of the section headers. -/
def slotSections : Nat := 5

/-- The slot of the section headers from before a rearrangement. -/
def slotSourceSections : Nat := 10

/-- The sections in a slot. -/
def slotSectionList (c : Container) (list : Bytes) (index : Nat) :
    Except DatabaseDefect (Option (List UInt32)) := do
  match ← slotStream c list index with
  | none => return none
  | some stream => return some (← sectionsOf stream)

/-- The relocation in a slot, which has to be there. -/
def slotRelocation (c : Container) (list : Bytes) (index : Nat) :
    Except DatabaseDefect Relocation := do
  match ← slotStream c list index with
  | none => throw .addressMapNotFound
  | some stream => relocationOf stream

/-- The address map of a container whose debug stream has this list. A rearranged module needs the
relocations in both directions, though only one is used. -/
def ofSlots (c : Container) (list : Bytes) : Except DatabaseDefect AddressMap := do
  let sections := (← slotSectionList c list slotSections).getD []
  match ← slotSectionList c list slotSourceSections with
  | none => return { sections := sections.toArray, relocation := none }
  | some source =>
    let relocation ← slotRelocation c list slotFromSource
    let _ ← slotRelocation c list slotToSource
    return { sections := source.toArray, relocation := some relocation }

end AddressMap

end OffsetService
