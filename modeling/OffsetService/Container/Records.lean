import OffsetService.Container.Read

/-!
# Streams of records

The type stream and the symbol stream are sequences of records, each behind a 16-bit length of its
data. `nextRecord` takes one off the front; the data of a record holds at least its 16-bit kind.
-/

namespace OffsetService.Container

/-- The data of the next record and what follows it; nothing at the end of the stream. A length that
leaves no room for a kind is the defect `tooShort`. -/
def nextRecord (tooShort : DatabaseDefect) (stream : Bytes) :
    Except DatabaseDefect (Option (Bytes × Bytes)) :=
  if stream.isEmpty then
    .ok none
  else do
    let (size, rest) ← takeNumber 2 stream
    if size < 2 then
      throw tooShort
    match rest.chop? size with
    | some (data, rest) => return some (data, rest)
    | none => throw .unexpectedEnd

/-- The data of the records up to the end of the stream, behind those `found` before, newest first.
Every record takes at least one of the bytes that `fuel` counts. -/
def takeRecords (tooShort : DatabaseDefect) : (fuel : Nat) → (found : List Bytes) → Bytes →
    Except DatabaseDefect (List Bytes)
  | 0, found, _ => .ok found.reverse
  | fuel + 1, found, stream => do
    match ← nextRecord tooShort stream with
    | none => return found.reverse
    | some (data, rest) => takeRecords tooShort fuel (data :: found) rest

/-- The data of all records of a stream. -/
def records (tooShort : DatabaseDefect) (stream : Bytes) : Except DatabaseDefect (List Bytes) :=
  takeRecords tooShort (stream.length + 1) [] stream

end OffsetService.Container
