import OffsetService.Json.Value
import OffsetService.Text.Quoted

/-!
# Why a text is refused

A text that is no JSON is malformed, and nothing more is said about it. A text that is JSON, as far
as it was read, but not what was asked for is unfit, and the message says what was found.
-/

namespace OffsetService.Json

/-- What was found in place of what was asked for. -/
inductive Found where
  | null
  | boolean (b : Bool)
  | integer (n : Int)
  | decimal (isNegative : Bool) (magnitude : Binary64)
  | text (s : String)
  | sequence
  | map
  deriving DecidableEq, Repr

/-- The wording of what was found. -/
def Found.message : Found → String
  | .null => "null"
  | .boolean b => "boolean \x60" ++ (if b then "true" else "false") ++ "\x60"
  | .integer n => "integer \x60" ++ toString n ++ "\x60"
  | .decimal isNegative magnitude =>
    "floating point \x60" ++ decimalText isNegative magnitude ++ "\x60"
  | .text s => "string " ++ Quoted.quote s
  | .sequence => "sequence"
  | .map => "map"

/-- What a number is found to be. -/
def Number.found : Number → Found
  | .natural n => .integer n.toNat
  | .negative n => .integer n.toInt
  | .decimal isNegative magnitude => .decimal isNegative magnitude

/-- What a value is found to be. -/
def Value.found : Value → Found
  | .null => .null
  | .boolean b => .boolean b
  | .number n => n.found
  | .text s => .text s
  | .sequence _ => .sequence
  | .object _ => .map

/-- What does not fit in a text that is JSON. -/
inductive Misfit where
  /-- A value of another type than asked for. -/
  | type (found : Found) (expected : String)
  /-- A value of the right type and out of range. -/
  | range (found : Found) (expected : String)
  | missingField (name : String)
  | duplicateField (name : String)
  /-- A sequence with too few items. -/
  | length (found : Nat) (expected : String)
  /-- An age that is neither a number nor a text. -/
  | ageType
  /-- An age that is a number, but no whole number of 32 bits. -/
  | ageNumber
  | noDigits
  | invalidDigit
  | tooLarge
  deriving DecidableEq, Repr

/-- The wording of a misfit. -/
def Misfit.message : Misfit → String
  | .type found expected => s!"invalid type: {found.message}, expected {expected}"
  | .range found expected => s!"invalid value: {found.message}, expected {expected}"
  | .missingField name => s!"missing field \x60{name}\x60"
  | .duplicateField name => s!"duplicate field \x60{name}\x60"
  | .length found expected => s!"invalid length {found}, expected {expected}"
  | .ageType => "expected number or string for age"
  | .ageNumber => "age must be an unsigned 32-bit integer"
  | .noDigits => "cannot parse integer from empty string"
  | .invalidDigit => "invalid digit found in string"
  | .tooLarge => "number too large to fit in target type"

/-- Why a text is refused. -/
inductive Refusal where
  | malformed
  | unfit (misfit : Misfit)
  deriving DecidableEq, Repr

/-- The wording of a refusal. -/
def Refusal.message : Refusal → String
  | .malformed => "malformed JSON text"
  | .unfit misfit => misfit.message

end OffsetService.Json
