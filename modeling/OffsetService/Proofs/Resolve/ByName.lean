import OffsetService.Proofs.Names
import OffsetService.Proofs.Resolve.Chain

/-!
# Answers name by name

What a query answers, said for each name on its own: the first complete definition of the name among
the records, and for each member or constant the first entry of that name on the trail of its field
list. `structAnswer` and `enumAnswer` say this, and `structLookups` and `enumLookups` list what has to
be looked up for it, in order.

What is noted of the records while they pass is the first complete definition of each name of the
query (`Definitions.get?_ofRecords`).
-/

namespace OffsetService

open FieldList (Station trail entriesOf)

namespace Resolve

/-! ## Definitions -/

/-- The field list of a record that is a complete structure of this name. -/
def structure? (name : String) : TypeRecord → Option (Option TypeIndex)
  | .struct other false fields _ => if other = name then some fields else none
  | _ => none

/-- The definition in a record that is a complete enumeration of this name. -/
def enumeration? (name : String) : TypeRecord → Option EnumDefinition
  | .enum other false underlying fields => if other = name then some ⟨underlying, fields⟩ else none
  | _ => none

/-! ## Members -/

/-- The type and the offset of an entry that is a member of this name. -/
def member? (name : String) : FieldEntry → Option (TypeIndex × UInt64)
  | .member other type offset => if other = name then some (type, offset) else none
  | _ => none

/-- The bit position that a record found at the type of a member gives it. -/
def bitOf : Option TypeRecord → Int64
  | some (.bitfield _ position _) => position.toUInt64.toInt64
  | _ => 0

/-- The place of the first member of this name. -/
def place? (record? : TypeIndex → Option TypeRecord) (entries : List FieldEntry) (name : String) :
    Option FieldPlace :=
  (entries.findSome? (member? name)).map fun (type, offset) =>
    ⟨offset.toInt64, bitOf (record? type)⟩

/-- The places of the first members of these names. -/
def placesOf (record? : TypeIndex → Option TypeRecord) (entries : List FieldEntry)
    (wanted : NameSet) : NameMap FieldPlace :=
  wanted.select fun member _ => place? record? entries member

/-- The trail of a structure, which may have no field list. -/
def structTrail (record? : TypeIndex → Option TypeRecord) (fields : Option TypeIndex) :
    List Station :=
  fields.elim [] (trail record?)

/-- The indices that are looked up for these members on a trail: those of its field lists, and the
type of the first member of each name. -/
def memberLookups (wanted : NameSet) : List Station → List TypeIndex
  | [] => []
  | .list index :: rest => index :: memberLookups wanted rest
  | .entry (.member name type _) :: rest =>
    if wanted.contains name then type :: memberLookups (wanted.erase name) rest
    else memberLookups wanted rest
  | .entry _ :: rest => memberLookups wanted rest

/-- The answer to a query for members of structures, name by name. -/
def structAnswer (record? : TypeIndex → Option TypeRecord) (records : List TypeRecord)
    (query : NestedQuery) : StructMap :=
  query.select fun name wanted => (records.findSome? (structure? name)).map fun fields =>
    placesOf record? (entriesOf (structTrail record? fields)) wanted

/-- What is looked up for members of structures, name after name. -/
def structLookups (record? : TypeIndex → Option TypeRecord) (records : List TypeRecord)
    (query : NestedQuery) : List TypeIndex :=
  query.entries.flatMap fun (name, wanted) =>
    (records.findSome? (structure? name)).elim [] fun fields =>
      memberLookups wanted (structTrail record? fields)

/-! ## Constants -/

/-- The stored value of an entry that is a constant of this name. -/
def enumerator? (name : String) : FieldEntry → Option Int64
  | .enumerator other value => if other = name then some value else none
  | _ => none

/-- The type that a qualified type or an enumeration is made from. -/
def underlying? : TypeRecord → Option TypeIndex
  | .modifier underlying => some underlying
  | .enum _ _ underlying _ => some underlying
  | _ => none

/-- The layout of a built-in integer type. -/
def integer? : TypeRecord → Option IntegerLayout
  | .integer layout => some layout
  | _ => none

/-- The index reached from another through so many qualified types and enumerations. -/
def reached (record? : TypeIndex → Option TypeRecord) (index : TypeIndex) :
    Nat → Option TypeIndex
  | 0 => some index
  | n + 1 => (reached record? index n).bind fun last => (record? last).bind underlying?

/-- The indices reached through at most fifteen qualified types and enumerations. -/
def underlyingPath (record? : TypeIndex → Option TypeRecord) (index : TypeIndex) :
    List TypeIndex :=
  (List.range (15 + 1)).filterMap (reached record? index)

/-- The layout of an enumeration: that of the integer type on the path from its underlying type, and
four bytes with a sign when there is none. -/
def layoutOf (record? : TypeIndex → Option TypeRecord) (underlying : TypeIndex) : IntegerLayout :=
  ((underlyingPath record? underlying).findSome? fun index =>
    (record? index).bind integer?).getD ⟨4, true⟩

/-- The values, in this layout, of the first constants of these names. -/
def valuesOf (layout : IntegerLayout) (entries : List FieldEntry) (wanted : NameSet) :
    NameMap Int64 :=
  wanted.select fun key _ => (entries.findSome? (enumerator? key)).map layout.extend

/-- The answer to a query for constants of enumerations, name by name. -/
def enumAnswer (record? : TypeIndex → Option TypeRecord) (records : List TypeRecord)
    (query : NestedQuery) : EnumMap :=
  query.select fun name wanted => (records.findSome? (enumeration? name)).map fun definition =>
    valuesOf (layoutOf record? definition.underlying)
      (entriesOf (trail record? definition.fields)) wanted

/-- The indices of the field lists on a trail. -/
def listsOf (stations : List Station) : List TypeIndex :=
  stations.filterMap fun
    | .list index => some index
    | .entry _ => none

/-- What is looked up for constants of enumerations, name after name: first the path to the integer
type, then the field lists. -/
def enumLookups (record? : TypeIndex → Option TypeRecord) (records : List TypeRecord)
    (query : NestedQuery) : List TypeIndex :=
  query.entries.flatMap fun (name, _) =>
    (records.findSome? (enumeration? name)).elim [] fun definition =>
      underlyingPath record? definition.underlying ++ listsOf (trail record? definition.fields)

theorem exists_structure?_iff {name : String} {records : List TypeRecord} :
    (∃ fields, records.findSome? (structure? name) = some fields) ↔
      ∃ fields size, .struct name false fields size ∈ records := by
  rw [← Option.isSome_iff_exists, List.findSome?_isSome_iff]
  constructor
  · rintro ⟨record, hrecord, hsome⟩
    unfold structure? at hsome
    split at hsome
    next other fields size =>
      split at hsome
      next heq => exact ⟨fields, size, heq ▸ hrecord⟩
      next => cases hsome
    next => cases hsome
  · rintro ⟨fields, size, hrecord⟩
    exact ⟨_, hrecord, by simp [structure?]⟩

theorem exists_enumeration?_iff {name : String} {records : List TypeRecord} :
    (∃ definition, records.findSome? (enumeration? name) = some definition) ↔
      ∃ underlying fields, .enum name false underlying fields ∈ records := by
  rw [← Option.isSome_iff_exists, List.findSome?_isSome_iff]
  constructor
  · rintro ⟨record, hrecord, hsome⟩
    unfold enumeration? at hsome
    split at hsome
    next other underlying fields =>
      split at hsome
      next heq => exact ⟨underlying, fields, heq ▸ hrecord⟩
      next => cases hsome
    next => cases hsome
  · rintro ⟨underlying, fields, hrecord⟩
    exact ⟨_, hrecord, by simp [enumeration?]⟩

end Resolve

/-! ## First definitions -/

namespace Definitions

open Resolve (structure? enumeration?)

theorem get?_observe (query : NestedQuery) (known : Definitions) (record : TypeRecord)
    (name : String) (hname : query.contains name = true) :
    (observe query known record).structs.get? name
        = (known.structs.get? name).or (structure? name record) ∧
      (observe query known record).enums.get? name
        = (known.enums.get? name).or (enumeration? name record) := by
  cases record with
  | struct other forward fields size =>
    cases forward with
    | true => simp [observe, structure?, enumeration?]
    | false =>
      by_cases hother : query.contains other
      · simp [observe, structure?, enumeration?, hother, NameMap.get?_addNew, eq_comm]
      · have hne : other ≠ name := fun heq => hother (heq ▸ hname)
        simp [observe, structure?, enumeration?, hother, hne]
  | enum other forward underlying fields =>
    cases forward with
    | true => simp [observe, structure?, enumeration?]
    | false =>
      by_cases hother : query.contains other
      · simp [observe, structure?, enumeration?, hother, NameMap.get?_addNew, eq_comm]
      · have hne : other ≠ name := fun heq => hother (heq ▸ hname)
        simp [observe, structure?, enumeration?, hother, hne]
  | _ => simp [observe, structure?, enumeration?]

/-- What is noted for a name of the query is its first definition among the records. -/
theorem get?_ofRecords (query : NestedQuery) (records : List TypeRecord) (name : String)
    (hname : query.contains name = true) :
    (ofRecords query records).structs.get? name = records.findSome? (structure? name) ∧
      (ofRecords query records).enums.get? name = records.findSome? (enumeration? name) := by
  have hfold : ∀ known : Definitions,
      (records.foldl (observe query) known).structs.get? name
          = (known.structs.get? name).or (records.findSome? (structure? name)) ∧
        (records.foldl (observe query) known).enums.get? name
          = (known.enums.get? name).or (records.findSome? (enumeration? name)) := by
    induction records with
    | nil => simp
    | cons record rest ih =>
      intro known
      obtain ⟨hstructs, henums⟩ := get?_observe query known record name hname
      rw [List.foldl_cons, (ih _).1, (ih _).2, hstructs, henums, Option.or_assoc, Option.or_assoc,
        List.findSome?_cons, List.findSome?_cons]
      constructor
      · cases structure? name record <;> rfl
      · cases enumeration? name record <;> rfl
  exact hfold empty

end Definitions

end OffsetService
