import OffsetService.Resolve.Definitions
import OffsetService.Resolve.FieldList

/-!
# Answering type queries

Given the complete definitions of the names asked for and a way to look up records by index, a query
is answered name by name, in ascending order: the field list of the definition is walked, and the
first entry of each wanted name gives the answer. A name without a definition is left out; a look-up
that fails ends the query with its fault.
-/

namespace OffsetService

/-- Look up a record by its index; absent records and those that cannot be decoded are `none`. -/
abbrev Lookup := TypeIndex → Traced (Option TypeRecord)

namespace Resolve

/-! ## Structures -/

/-- The bit at which a member of this type begins. -/
def bitPosition (lookup : Lookup) (type : TypeIndex) : Traced Int64 := do
  match ← lookup type with
  | some (.bitfield _ position _) => return position.toUInt64.toInt64
  | _ => return 0

/-- Note the place of an entry that is the first wanted member of its name. -/
def noteMember (lookup : Lookup) (wanted : NameSet) (found : NameMap FieldPlace) :
    FieldEntry → Traced (NameMap FieldPlace)
  | .member name type offset =>
    if wanted.contains name && !found.contains name then do
      let bit ← bitPosition lookup type
      return found.addNew name ⟨offset.toInt64, bit⟩
    else
      return found
  | _ => return found

/-- The places of the wanted members of a definition. -/
def memberPlaces (lookup : Lookup) (wanted : NameSet) : Option TypeIndex →
    Traced (NameMap FieldPlace)
  | none => return NameMap.empty
  | some fields =>
    FieldList.walk lookup Traced.report (noteMember lookup wanted) fields NameMap.empty

/-- Answer a query for members of structures. -/
def structs (lookup : Lookup) (known : Definitions) (query : NestedQuery) : Traced StructMap :=
  query.entries.foldlM (fun found (name, wanted) => do
    match known.structs.get? name with
    | none =>
      Traced.report (.noDefinition .struct name)
      return found
    | some fields => return found.addNew name (← memberPlaces lookup wanted fields))
    NameMap.empty

/-! ## Enumerations -/

/-- The longest chain of qualified types and enumerations that is followed to an integer type. -/
def maxChain : Nat := 16

/-- The layout of an enumeration whose underlying type is not known. -/
def defaultLayout : IntegerLayout := ⟨4, true⟩

/-- The integer type that `index` leads to within `steps` look-ups. -/
def integerType (lookup : Lookup) : (steps : Nat) → TypeIndex → Traced (Option IntegerLayout)
  | 0, _ => return none
  | steps + 1, index => do
    match ← lookup index with
    | some (.integer layout) => return some layout
    | some (.modifier underlying) => integerType lookup steps underlying
    | some (.enum _ _ underlying _) => integerType lookup steps underlying
    | _ => return none

/-- The layout of an enumeration with this underlying type. -/
def enumLayout (lookup : Lookup) (underlying : TypeIndex) : Traced IntegerLayout := do
  match ← integerType lookup maxChain underlying with
  | some layout => return layout
  | none =>
    Traced.report (.defaultLayout underlying)
    return defaultLayout

/-- Note the value of an entry that is the first wanted constant of its name. -/
def noteConstant (layout : IntegerLayout) (wanted : NameSet) (found : NameMap Int64) :
    FieldEntry → Traced (NameMap Int64)
  | .enumerator name value =>
    if wanted.contains name then
      return found.addNew name (layout.extend value)
    else
      return found
  | _ => return found

/-- The values of the wanted constants of a definition. -/
def constants (lookup : Lookup) (wanted : NameSet) (definition : EnumDefinition) :
    Traced (NameMap Int64) := do
  let layout ← enumLayout lookup definition.underlying
  FieldList.walk lookup Traced.report (noteConstant layout wanted) definition.fields NameMap.empty

/-- Answer a query for constants of enumerations. -/
def enums (lookup : Lookup) (known : Definitions) (query : NestedQuery) : Traced EnumMap :=
  query.entries.foldlM (fun found (name, wanted) => do
    match known.enums.get? name with
    | none =>
      Traced.report (.noDefinition .enum name)
      return found
    | some definition => return found.addNew name (← constants lookup wanted definition))
    NameMap.empty

end Resolve

end OffsetService
