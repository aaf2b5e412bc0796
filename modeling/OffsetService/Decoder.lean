import OffsetService.Bytes
import OffsetService.Fault

/-!
# Decoders of type records

A decoder takes fields off the front of a record, one after the other, and fails where the record
ends too early. Names are texts up to a zero byte, or, in the older kinds of record, texts behind a
byte that counts them.
-/

namespace OffsetService

/-- A computation that consumes the bytes of a record. -/
abbrev Decoder := StateT Bytes (Except RecordDefect)

namespace Decoder

/-- The next `n` bytes. -/
def take (n : Nat) : Decoder Bytes := fun data =>
  match data.chop? n with
  | some (head, rest) => .ok (head, rest)
  | none => .error .unexpectedEnd

/-- The next `width` bytes as a little-endian number. -/
def number (width : Nat) : Decoder Nat := do
  return Bytes.littleEndian (← take width)

/-- A word of one byte. -/
def byte : Decoder UInt8 := do
  return (← number 1).toUInt8

/-- A word of two bytes. -/
def half : Decoder UInt16 := do
  return (← number 2).toUInt16

/-- A word of four bytes. -/
def word : Decoder UInt32 := do
  return (← number 4).toUInt32

/-- A word of eight bytes. -/
def double : Decoder UInt64 := do
  return (← number 8).toUInt64

/-- The next two bytes as a number, left in place. -/
def peekHalf : Decoder UInt16 := fun data =>
  match data.chop? 2 with
  | some (head, _) => .ok ((Bytes.littleEndian head).toUInt16, data)
  | none => .error .unexpectedEnd

/-- Whether no byte is left. -/
def atEnd : Decoder Bool := fun data =>
  .ok (data.isEmpty, data)

/-- A name up to a zero byte, which is consumed with it. -/
def terminatedName : Decoder Bytes := fun data =>
  match data.terminated? with
  | some (name, rest) => .ok (name, rest)
  | none => .error .unexpectedEnd

/-- A name behind a byte that holds its length. -/
def countedName : Decoder Bytes := do
  take (← byte).toNat

/-- A name in the form of its record. -/
def name (counted : Bool) : Decoder Bytes :=
  if counted then countedName else terminatedName

end Decoder

end OffsetService
