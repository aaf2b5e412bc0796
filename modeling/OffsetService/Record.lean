import OffsetService.Layout

/-!
# Type records

The records of a type stream as the queries see them. A record refers to others by their index.
Records and field-list entries of kinds that no query asks for are `other`. The built-in types are
encoded in their index alone, below `TypeIndex.firstRecord`; `TypeIndex.builtIn?` says what each of
those indices stands for.
-/

namespace OffsetService

/-- The index of a record. -/
abbrev TypeIndex := UInt32

/-- An entry of a field list. -/
inductive FieldEntry where
  | member (name : String) (type : TypeIndex) (offset : UInt64)
  /-- A named constant; the value is widened by its own leaf. -/
  | enumerator (name : String) (value : Int64)
  | other
  deriving DecidableEq, Repr

/-- A record of the type stream. -/
inductive TypeRecord where
  /-- A class, structure, interface or union. A forward reference has no definition of its own. -/
  | struct (name : String) (forward : Bool) (fields : Option TypeIndex) (size : UInt64)
  | fieldList (entries : List FieldEntry) (continuation : Option TypeIndex)
  | bitfield (base : TypeIndex) (position length : UInt8)
  | enum (name : String) (forward : Bool) (underlying fields : TypeIndex)
  /-- A type with a qualifier such as `const`. -/
  | modifier (underlying : TypeIndex)
  /-- A built-in integer type. -/
  | integer (layout : IntegerLayout)
  | other
  deriving DecidableEq, Repr

namespace TypeIndex

/-- The least index of a record; those below it are built-in types. -/
def firstRecord : TypeIndex := 0x1000

/-- The built-in integer types, by the low byte of their index. -/
def integerKinds : List (List Nat × IntegerLayout) :=
  [([0x10, 0x70, 0x68], ⟨1, true⟩),
   ([0x20, 0x69, 0x30], ⟨1, false⟩),
   ([0x11, 0x72], ⟨2, true⟩),
   ([0x21, 0x73, 0x31, 0x71, 0x7A], ⟨2, false⟩),
   ([0x12, 0x74, 0x08], ⟨4, true⟩),
   ([0x22, 0x75, 0x32, 0x7B], ⟨4, false⟩),
   ([0x13, 0x76], ⟨8, true⟩),
   ([0x23, 0x77, 0x33], ⟨8, false⟩)]

/-- The built-in types that are no integers, by the low byte of their index. -/
def otherKinds : List Nat :=
  [0x00, 0x03, 0x14, 0x24, 0x78, 0x79, 0x40, 0x41, 0x42, 0x43, 0x44, 0x45, 0x46,
   0x50, 0x51, 0x52, 0x53]

/-- What an index below `firstRecord` stands for. Bits 8 to 11 make a pointer of the kind in the low
byte; an index of an unknown kind, or of a pointer form above 7, stands for nothing. -/
def builtIn? (index : TypeIndex) : Option TypeRecord :=
  let kind := index.toNat % 0x100
  let pointer := index.toNat / 0x100 % 0x10
  if 8 ≤ pointer then none
  else
    match integerKinds.find? (·.1.contains kind) with
    | some (_, layout) => some (if pointer = 0 then .integer layout else .other)
    | none => if otherKinds.contains kind then some .other else none

end TypeIndex

end OffsetService
