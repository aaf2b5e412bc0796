import OffsetService.NameMap

/-!
# Queries and answers

A query asks for symbols by name, or for members of named types. Its answer holds what was found;
a name that was not found is left out.
-/

namespace OffsetService

/-- Where a member of a structure lies: its byte offset, and the bit at which a bitfield begins
inside the unit at that offset. A member that is no bitfield has bit 0. -/
structure FieldPlace where
  offset : Int64
  bit : Int64
  deriving DecidableEq, Repr

/-- The members asked for, by type name. -/
abbrev NestedQuery := NameMap NameSet

/-- Addresses by symbol name. -/
abbrev SymbolMap := NameMap Int64

/-- Places of members by structure name. -/
abbrev StructMap := NameMap (NameMap FieldPlace)

/-- Values of constants by enumeration name. -/
abbrev EnumMap := NameMap (NameMap Int64)

end OffsetService
