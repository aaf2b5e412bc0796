import OffsetService.Json.Reader
import OffsetService.Wire
import OffsetService.Wire.Age

/-!
# Reading requests and answers

Texts are read member by member, in the order in which they stand, and the first thing that does not
fit decides. The members of an identity stand beside the query of a request, so they are kept as
values until the object ends and only then decoded, in the order in which they stood; the query is
decoded where it stands. An identity or a place by itself is decoded member by member; members with
other names are skipped. It may also be a sequence of its members in the order of declaration.
-/

namespace OffsetService.Wire

open Json

/-- Refuse what does not fit. -/
def fit {α : Type} : Except Misfit α → Reader α
  | .ok a => return a
  | .error misfit => Reader.unfit misfit

/-! ## Names and numbers -/

/-- A set of names. -/
def nameSet (budget : Nat) : Reader NameSet := do
  if (← Reader.peek?) = some '[' then
    Reader.drop
    return NameSet.ofNames (← Reader.items Reader.text budget)
  else
    Reader.mismatch "a sequence"

/-- What is found by name; of several members of one name, the last one counts. -/
def nameMap {α : Type} (item : Reader α) (budget : Nat) : Reader (NameMap α) := do
  if (← Reader.peek?) = some '\x7b' then
    Reader.drop
    return NameMap.ofList (← Reader.members (Reader.collectMember item) budget []).reverse
  else
    Reader.mismatch "a map"

/-- A query for members of types. -/
def nestedQuery (budget : Nat) : Reader NestedQuery :=
  nameMap (nameSet budget) budget

/-- A number of 64 bits with a sign. -/
def int64 : Reader Int64 := do
  match ← Reader.peek? with
  | some c =>
    if c = '-' ∨ isDigit c then
      match ← Reader.number with
      | .natural n =>
        if n < 0x8000000000000000 then return n.toInt64
        else Reader.unfit (.range (.integer n.toNat) "i64")
      | .negative n => return n
      | n => Reader.unfit (.type n.found "i64")
    else
      Reader.mismatch "i64"
  | none => Reader.malformed

/-! ## Objects with known members -/

/-- Note the value of a member, which must not have one already. -/
def once {α : Type} (name : String) (known : Option α) (value : Reader α) : Reader (Option α) := do
  if known.isSome then
    Reader.unfit (.duplicateField name)
  return some (← value)

/-- The value of a member that has to be there. -/
def required {α : Type} (name : String) : Option α → Reader α
  | some a => return a
  | none => Reader.unfit (.missingField name)

/-- Move on to the item with a number in a sequence; a sequence that ends before it is too short. -/
def nextItem (number : Nat) (expected : String) : Reader Unit := do
  match ← Reader.peek? with
  | some ']' => Reader.unfit (.length number expected)
  | some ',' =>
    if number = 0 then
      return
    Reader.drop
    if (← Reader.peek?) = some ']' then
      Reader.malformed
  | _ =>
    if number ≠ 0 then
      Reader.malformed

/-! ## Identities -/

/-- How deep a kept value inside an object or a sequence may be nested. -/
def innerDepth : Nat := Reader.maxDepth - 1

/-- A unique id. Its letters are taken as upper case. -/
def uniqueIdOf (s : String) : String :=
  s.map Char.toUpper

/-- The members of an identity that have been read. -/
structure PartialIdentity where
  name : Option String
  uniqueId : Option String
  age : Option UInt32

/-- No member yet. -/
def PartialIdentity.none : PartialIdentity := ⟨.none, .none, .none⟩

/-- The identity, once all members are there. -/
def PartialIdentity.close (found : PartialIdentity) : Reader Identity := do
  let name ← required "name" found.name
  let uniqueId ← required "guid" found.uniqueId
  let age ← required "age" found.age
  return { name, uniqueId, age }

/-- The age in a value that comes next. -/
def age (budget : Nat) : Reader UInt32 := do
  fit (ageOf (← Reader.value budget innerDepth))

/-- Read the member of an identity with this name. -/
def identityMember (budget : Nat) (found : PartialIdentity) (name : String) :
    Reader PartialIdentity :=
  match name with
  | "name" => do
    let value ← once name found.name (Reader.colon Reader.text)
    return { found with name := value }
  | "guid" => do
    let value ← once name found.uniqueId (Reader.colon (uniqueIdOf <$> Reader.text))
    return { found with uniqueId := value }
  | "age" => do
    let value ← once name found.age (Reader.colon (age budget))
    return { found with age := value }
  | _ => do
    Reader.colon (Reader.skip budget)
    return found

/-- What a sequence has to be to stand for an identity. -/
def identitySequence : String := "struct DebugIdentity with 3 elements"

/-- An identity. -/
def identity (budget : Nat) : Reader Identity := do
  match ← Reader.peek? with
  | some '\x7b' =>
    Reader.drop
    (← Reader.members (identityMember budget) budget PartialIdentity.none).close
  | some '[' =>
    Reader.drop
    nextItem 0 identitySequence
    let name ← Reader.text
    nextItem 1 identitySequence
    let uniqueId ← uniqueIdOf <$> Reader.text
    nextItem 2 identitySequence
    let age ← age budget
    Reader.token ']'
    return { name, uniqueId, age }
  | _ => Reader.mismatch "struct DebugIdentity"

/-! ## Requests -/

/-- The text in a kept value. -/
def textIn : Value → Reader String
  | .text s => return s
  | v => Reader.unfit (.type v.found "a string")

/-- Take in a kept member of a request: one of an identity, or one that says nothing. -/
def keptMember (found : PartialIdentity) (member : String × Value) : Reader PartialIdentity :=
  match member with
  | ("name", v) => do
    let value ← once "name" found.name (textIn v)
    return { found with name := value }
  | ("guid", v) => do
    let value ← once "guid" found.uniqueId (uniqueIdOf <$> textIn v)
    return { found with uniqueId := value }
  | ("age", v) => do
    let value ← once "age" found.age (fit (ageOf v))
    return { found with age := value }
  | _ => return found

/-- The members of a request that have been read: its query, and the others, newest first. -/
structure PartialRequest (α : Type) where
  query : Option α
  others : List (String × Value)

/-- Read the member of a request with this name. -/
def requestMember {α : Type} (query : Reader α) (budget : Nat) (found : PartialRequest α)
    (name : String) : Reader (PartialRequest α) :=
  match name with
  | "query" => do
    let value ← once name found.query (Reader.colon query)
    return { found with query := value }
  | _ => do
    let others ← Reader.collectMember (Reader.value budget innerDepth) found.others name
    return { found with others }

/-- A request with this kind of query. -/
def request {α : Type} (expected : String) (query : Nat → Reader α) (budget : Nat) :
    Reader (Request α) := do
  if (← Reader.peek?) = some '\x7b' then
    Reader.drop
    let found ← Reader.members (requestMember (query budget) budget) budget ⟨none, []⟩
    let query ← required "query" found.query
    let members ← found.others.reverse.foldlM keptMember PartialIdentity.none
    let identity ← members.close
    return { identity, query }
  else
    Reader.mismatch expected

/-- A request for symbols. -/
def symbolRequest : Nat → Reader (Request NameSet) :=
  request "struct SymbolRequest" nameSet

/-- A request for members of types. -/
def nestedRequest : Nat → Reader (Request NestedQuery) :=
  request "struct NestedRequest" nestedQuery

/-! ## Answers -/

/-- The members of a place that have been read. -/
structure PartialPlace where
  offset : Option Int64
  bit : Option Int64

/-- Read the member of a place with this name. -/
def placeMember (budget : Nat) (found : PartialPlace) (name : String) : Reader PartialPlace :=
  match name with
  | "offset" => do
    let value ← once name found.offset (Reader.colon int64)
    return { found with offset := value }
  | "bitfield_offset" => do
    let value ← once name found.bit (Reader.colon int64)
    return { found with bit := value }
  | _ => do
    Reader.colon (Reader.skip budget)
    return found

/-- What a sequence has to be to stand for a place. -/
def placeSequence : String := "struct FieldInfo with 2 elements"

/-- The place of a member. -/
def place (budget : Nat) : Reader FieldPlace := do
  match ← Reader.peek? with
  | some '\x7b' =>
    Reader.drop
    let found ← Reader.members (placeMember budget) budget ⟨none, none⟩
    let offset ← required "offset" found.offset
    let bit ← required "bitfield_offset" found.bit
    return { offset, bit }
  | some '[' =>
    Reader.drop
    nextItem 0 placeSequence
    let offset ← int64
    nextItem 1 placeSequence
    let bit ← int64
    Reader.token ']'
    return { offset, bit }
  | _ => Reader.mismatch "struct FieldInfo"

/-- Addresses by name. -/
def symbolMap (budget : Nat) : Reader SymbolMap :=
  nameMap int64 budget

/-- Places of members by structure. -/
def structMap (budget : Nat) : Reader StructMap :=
  nameMap (nameMap (place budget) budget) budget

/-- Values of constants by enumeration. -/
def enumMap (budget : Nat) : Reader EnumMap :=
  nameMap (nameMap int64 budget) budget

/-- Read a whole text. -/
def ofText {α : Type} (reader : Nat → Reader α) (text : String) : Except Refusal α :=
  Reader.whole reader text.toList false

end OffsetService.Wire
