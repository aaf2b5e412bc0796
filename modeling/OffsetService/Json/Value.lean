import OffsetService.Decimal.Shortest

/-!
# JSON values

A value of the JSON data format. Numbers without a fraction or an exponent are whole while they fit
into 64 bits, with or without a sign; all other numbers are 64-bit binary numbers. The members of an
object keep the order in which they are written.
-/

namespace OffsetService.Json

/-- A number of a JSON text. -/
inductive Number where
  | natural (n : UInt64)
  /-- A whole number below zero. -/
  | negative (n : Int64)
  | decimal (isNegative : Bool) (magnitude : Binary64)
  deriving DecidableEq, Repr

/-- A value of a JSON text. -/
inductive Value where
  | null
  | boolean (b : Bool)
  | number (n : Number)
  | text (s : String)
  | sequence (items : List Value)
  | object (members : List (String × Value))

/-- The text of a decimal. -/
def decimalText (isNegative : Bool) (magnitude : Binary64) : String :=
  let shown := (Decimal.ofBinary64 magnitude).text
  if isNegative then "-" ++ shown else shown

end OffsetService.Json
