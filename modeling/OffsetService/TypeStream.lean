import OffsetService.Container.Records
import OffsetService.Record.Decode
import OffsetService.Resolve.Types

/-!
# The type stream

The type stream holds a header and then records, numbered from the header's least index on. Records
that cannot be decoded keep their number and count as absent.

Records are found by their index through blocks of `blockSize`: a pass over the stream notes where
each block begins, and a block that was not reached cannot be entered. The first block is noted only
when the header promises at least one record, and without it no other block is noted. An index above
the header's limit is absent; the limit itself, one past the last record, is still looked up.
-/

namespace OffsetService

/-- The records of a type stream, with the bounds that its header states. -/
structure TypeStream where
  least : Nat
  limit : Nat
  records : Array Bytes

namespace TypeStream

/-- The number of the type stream. -/
def streamNumber : Nat := 2

/-- The bytes of the header that are always there. -/
def headerSize : Nat := 56

/-- The type stream without a header. -/
def empty : TypeStream := ⟨0, 0, #[]⟩

/-- The header's size and bounds, and the stream behind the header. -/
def readHeader (stream : Bytes) : Except DatabaseDefect (Nat × Nat × Bytes) := do
  let (_, rest) ← Container.takeNumber 4 stream
  let (size, rest) ← Container.takeNumber 4 rest
  let (least, rest) ← Container.takeNumber 4 rest
  let (limit, rest) ← Container.takeNumber 4 rest
  let rest ← Container.skip (headerSize - 16) rest
  if size < headerSize then
    throw (.invalidTypeHeader "header size is impossibly small")
  if 1024 < size then
    throw (.invalidTypeHeader "header size is unreasonably large")
  let rest ← Container.skip (size - headerSize) rest
  if least < 4096 then
    throw (.invalidTypeHeader "minimum type index is < 4096")
  if limit < least then
    throw (.invalidTypeHeader "maximum type index is < minimum type index")
  return (least, limit, rest)

/-- The records that a stream holds. An empty stream holds none. -/
def ofBytes (stream : Bytes) : Except DatabaseDefect TypeStream :=
  if stream.isEmpty then
    .ok empty
  else do
    let (least, limit, rest) ← readHeader stream
    return { least, limit, records := (← Container.records .typeTooShort rest).toArray }

/-- The records of a type stream that can be decoded, in order. -/
def decoded (t : TypeStream) : List TypeRecord :=
  t.records.toList.filterMap fun data => (Record.decode data).toOption

/-! ## Finding a record -/

/-- The number of records in a block. -/
def blockSize : Nat := 8

/-- The number of blocks whose beginning is known after a pass over the stream. -/
def knownBlocks (t : TypeStream) : Nat :=
  if t.least < t.limit then t.records.size / blockSize + 1 else 0

/-- The last index in a known block, or 0 when no block is known. -/
def covered (t : TypeStream) : Nat :=
  if t.knownBlocks = 0 then 0 else t.knownBlocks * blockSize + t.least - 1

/-- The data of the record at an index from `least` on. -/
def find (t : TypeStream) (index : Nat) : Except DatabaseDefect (Option Bytes) :=
  let place := index - t.least
  if t.limit < index then
    .ok none
  else if place / blockSize < t.knownBlocks then
    match t.records[place]? with
    | some data => .ok (some data)
    | none => .error .unexpectedEnd
  else
    .error (.typeNotIndexed index t.covered)

/-- The record at an index, and why it cannot be decoded. -/
def decodeAt (t : TypeStream) (index : TypeIndex) :
    Except DatabaseDefect (Option (Except RecordDefect TypeRecord)) :=
  if index.toNat < t.least then
    match if index < TypeIndex.firstRecord then index.builtIn? else none with
    | some record => .ok (some (.ok record))
    | none => .ok (some (.error (.noSuchType index)))
  else do
    return (← t.find index.toNat).map Record.decode

/-- Look up the record at an index. One that cannot be decoded is reported and counts as absent. -/
def lookup (t : TypeStream) : Lookup := fun index => do
  match ← .ofExcept ((t.decodeAt index).mapError (.malformedDatabase none)) with
  | none => return none
  | some (.ok record) => return some record
  | some (.error defect) =>
    Traced.report (.undecodableType index defect)
    return none

end TypeStream

end OffsetService
