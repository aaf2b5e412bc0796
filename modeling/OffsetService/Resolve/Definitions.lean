import OffsetService.Query
import OffsetService.Record

/-!
# Complete definitions

A name may occur in many records of a type stream: forward references, and more than one definition.
One pass over the stream notes, for each name that a query asks for, the first structure and the
first enumeration of that name that is no forward reference.
-/

namespace OffsetService

/-- The definition of an enumeration: its underlying type and its field list. -/
structure EnumDefinition where
  underlying : TypeIndex
  fields : TypeIndex
  deriving DecidableEq, Repr

/-- The first complete definition of each name that a query asks for. A structure may have no field
list. -/
structure Definitions where
  structs : NameMap (Option TypeIndex)
  enums : NameMap EnumDefinition
  deriving DecidableEq

namespace Definitions

/-- No definition yet. -/
def empty : Definitions := ⟨NameMap.empty, NameMap.empty⟩

/-- The definitions after one more record. -/
def observe (query : NestedQuery) (known : Definitions) : TypeRecord → Definitions
  | .struct name false fields _ =>
    if query.contains name then
      { known with structs := known.structs.addNew name fields }
    else known
  | .enum name false underlying fields =>
    if query.contains name then
      { known with enums := known.enums.addNew name ⟨underlying, fields⟩ }
    else known
  | _ => known

/-- The definitions after a stream of records. -/
def ofRecords (query : NestedQuery) (records : List TypeRecord) : Definitions :=
  records.foldl (observe query) empty

end Definitions

end OffsetService
