import OffsetService.Identity
import OffsetService.Json.Render
import OffsetService.Query

/-!
# Requests and answers as JSON

A request is an object with the members of an identity and a query, side by side. An answer is an
object of what was found by name. Names are written in ascending order; an identity and a place are
written with their members in the order in which they are declared.
-/

namespace OffsetService

/-- A query about the module with an identity. -/
structure Request (α : Type) where
  identity : Identity
  query : α
  deriving DecidableEq

namespace Wire

open Json

/-- A number of 64 bits with a sign. -/
def ofInt64 (n : Int64) : Value :=
  .number (if n < 0 then .negative n else .natural n.toUInt64)

/-- The members of an identity. -/
def identityMembers (id : Identity) : List (String × Value) :=
  [("name", .text id.name), ("guid", .text id.uniqueId),
   ("age", .number (.natural id.age.toUInt64))]

/-- An identity. -/
def ofIdentity (id : Identity) : Value :=
  .object (identityMembers id)

/-- A set of names. -/
def ofNames (names : NameSet) : Value :=
  .sequence (names.names.map .text)

/-- What is found by name. -/
def ofMap {α : Type} (item : α → Value) (m : NameMap α) : Value :=
  .object (m.entries.map fun e => (e.1, item e.2))

/-- A query for members of types. -/
def ofNestedQuery (query : NestedQuery) : Value :=
  ofMap ofNames query

/-- A request. -/
def ofRequest {α : Type} (query : α → Value) (r : Request α) : Value :=
  .object (identityMembers r.identity ++ [("query", query r.query)])

/-- The place of a member. -/
def ofPlace (p : FieldPlace) : Value :=
  .object [("offset", ofInt64 p.offset), ("bitfield_offset", ofInt64 p.bit)]

/-- Addresses by name. -/
def ofSymbols (m : SymbolMap) : Value := ofMap ofInt64 m

/-- Places of members by structure. -/
def ofStructs (m : StructMap) : Value := ofMap (ofMap ofPlace) m

/-- Values of constants by enumeration. -/
def ofEnums (m : EnumMap) : Value := ofMap (ofMap ofInt64) m

/-- A value as text. -/
def textOf (v : Value) : String :=
  String.ofList (render v)

end Wire

end OffsetService
