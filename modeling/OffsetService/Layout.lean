/-!
# Integer layouts

A constant is stored in 64 bits and belongs to a type of some width. `extend` reads it at that
width: the bits above are replaced by copies of the sign bit, or by zeros when the type is unsigned.
Both are a shift up that drops the bits above and a shift down that fills them.
-/

namespace OffsetService

/-- The width in bytes and the signedness of an integer type. -/
structure IntegerLayout where
  size : UInt8
  signed : Bool
  deriving DecidableEq, Repr

namespace IntegerLayout

/-- A constant read at the width of the layout. Widths of no byte and of eight or more change
nothing. -/
def extend (layout : IntegerLayout) (raw : Int64) : Int64 :=
  let bits := layout.size.toNat * 8
  if bits = 0 ∨ 64 ≤ bits then
    raw
  else if layout.signed then
    (raw <<< Int64.ofNat (64 - bits)) >>> Int64.ofNat (64 - bits)
  else
    ((raw.toUInt64 <<< UInt64.ofNat (64 - bits)) >>> UInt64.ofNat (64 - bits)).toInt64

end IntegerLayout

end OffsetService
