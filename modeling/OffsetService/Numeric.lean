import OffsetService.Decoder

/-!
# Numeric leaves

A number inside a record takes as many bytes as it needs. A number below `0x8000` is a plain 16-bit
word; any other stands behind a 16-bit mark that names its width and signedness. `encodeUnsigned`
and `encodeSigned` choose the shortest form that holds the value, and `readUnsigned` and `read`
take one leaf off the front, whatever form it has.
-/

namespace OffsetService

/-- A stored number, with the width and signedness of its leaf. -/
inductive NumericLeaf where
  | u8 (v : UInt8)
  | u16 (v : UInt16)
  | u32 (v : UInt32)
  | u64 (v : UInt64)
  | i8 (v : Int8)
  | i16 (v : Int16)
  | i32 (v : Int32)
  | i64 (v : Int64)
  deriving DecidableEq, Repr

namespace NumericLeaf

/-- The stored number in 64 bits, widened by its own signedness. -/
def widen : NumericLeaf → Int64
  | .u8 v => v.toUInt64.toInt64
  | .u16 v => v.toUInt64.toInt64
  | .u32 v => v.toUInt64.toInt64
  | .u64 v => v.toInt64
  | .i8 v => v.toInt64
  | .i16 v => v.toInt64
  | .i32 v => v.toInt64
  | .i64 v => v

/-! ## Marks -/

def markByte : UInt16 := 0x8000
def markShort : UInt16 := 0x8001
def markUnsignedShort : UInt16 := 0x8002
def markLong : UInt16 := 0x8003
def markUnsignedLong : UInt16 := 0x8004
def markQuad : UInt16 := 0x8009
def markUnsignedQuad : UInt16 := 0x800A

/-! ## Reading -/

/-- An unsigned number: a plain word, or an unsigned leaf. -/
def readUnsigned : Decoder UInt64 := do
  let mark ← Decoder.half
  if mark < 0x8000 then return mark.toUInt64
  else if mark = markByte then return (← Decoder.byte).toUInt64
  else if mark = markUnsignedShort then return (← Decoder.half).toUInt64
  else if mark = markUnsignedLong then return (← Decoder.word).toUInt64
  else if mark = markUnsignedQuad then Decoder.double
  else throw (.unknownNumeric mark)

/-- A number of any leaf. -/
def read : Decoder NumericLeaf := do
  let mark ← Decoder.half
  if mark < 0x8000 then return .u16 mark
  else if mark = markByte then return .u8 (← Decoder.byte)
  else if mark = markShort then return .i16 (← Decoder.half).toInt16
  else if mark = markUnsignedShort then return .u16 (← Decoder.half)
  else if mark = markLong then return .i32 (← Decoder.word).toInt32
  else if mark = markUnsignedLong then return .u32 (← Decoder.word)
  else if mark = markQuad then return .i64 (← Decoder.double).toInt64
  else if mark = markUnsignedQuad then return .u64 (← Decoder.double)
  else throw (.unknownNumeric mark)

/-! ## Writing -/

/-- A mark and the bytes behind it. -/
def marked (mark : UInt16) (width value : Nat) : Bytes :=
  Bytes.word 2 mark.toNat ++ Bytes.word width value

/-- The shortest form of an unsigned number. -/
def encodeUnsigned (v : UInt64) : Bytes :=
  if v < 0x8000 then Bytes.word 2 v.toNat
  else if v < 0x10000 then marked markUnsignedShort 2 v.toNat
  else if v < 0x100000000 then marked markUnsignedLong 4 v.toNat
  else marked markUnsignedQuad 8 v.toNat

/-- The shortest form of a signed number: one that is not negative is written as unsigned. -/
def encodeSigned (v : Int64) : Bytes :=
  if 0 ≤ v then encodeUnsigned v.toUInt64
  else if -0x8000 ≤ v then marked markShort 2 v.toInt16.toUInt16.toNat
  else if -0x80000000 ≤ v then marked markLong 4 v.toInt32.toUInt32.toNat
  else marked markQuad 8 v.toUInt64.toNat

end NumericLeaf

end OffsetService
