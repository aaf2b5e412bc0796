import OffsetService.Numeric
import OffsetService.Record
import OffsetService.Text.Utf8

/-!
# Decoding type records

A record opens with a 16-bit leaf that names its kind; the fields of the kind follow, and bytes
after them are ignored. The entries of a field list are written by the same rules, one after the
other with padding between them, so that any kind of record may stand among them: `decodeLeaf`
decodes what is not a list, and `decodeEntries` walks a list. Names in kinds up to `lastCounted` are
counted, in later kinds they end in a zero byte.
-/

namespace OffsetService.Record

/-! ## Kinds -/

/-- The kinds of leaf that can be decoded. -/
inductive Kind where
  | struct
  /-- A structure whose properties take four bytes. -/
  | wideStruct
  | union
  | enum
  | bitfield
  | modifier
  | fieldList
  | member
  | enumerator
  /-- A nested type, a group of methods or a static member: attributes, a type and a name. -/
  | namedType
  | method
  | baseClass
  | virtualBase
  /-- The table of a class's virtual functions. -/
  | functionTable
  | pointer
  | procedure
  | memberFunction
  | argumentList
  | methodList
  | array
  | strideArray
  deriving DecidableEq, Repr

/-- The leaves of each kind. -/
def kinds : List (Kind × List UInt16) :=
  [(.struct, [0x1504, 0x1505, 0x1519, 0x1004, 0x1005]),
   (.wideStruct, [0x1609]),
   (.union, [0x1506, 0x1006]),
   (.enum, [0x1507, 0x1007]),
   (.bitfield, [0x1205]),
   (.modifier, [0x1001]),
   (.fieldList, [0x1203]),
   (.member, [0x150D, 0x1405]),
   (.enumerator, [0x1502, 0x0403]),
   (.namedType, [0x1510, 0x1408, 0x1512, 0x140D, 0x150F, 0x1407, 0x150E, 0x1406]),
   (.method, [0x1511, 0x140B]),
   (.baseClass, [0x1400, 0x151A]),
   (.virtualBase, [0x1401, 0x1402]),
   (.functionTable, [0x1409]),
   (.pointer, [0x1002]),
   (.procedure, [0x1008]),
   (.memberFunction, [0x1009]),
   (.argumentList, [0x1201]),
   (.methodList, [0x1206]),
   (.array, [0x1503, 0x1003]),
   (.strideArray, [0x1516])]

/-- The kind of a leaf. -/
def kind? (leaf : UInt16) : Option Kind :=
  (kinds.find? (·.2.contains leaf)).map (·.1)

/-- The leaf that continues a field list in another record. -/
def continuationLeaf : UInt16 := 0x1404

/-- The leaf of a field list. -/
def fieldListLeaf : UInt16 := 0x1203

/-- The last leaf whose names are counted. -/
def lastCounted : UInt16 := 0x1500

/-! ## Leaves -/

/-- What a leaf decodes to: a record, or an entry of a field list. -/
inductive Decoded where
  | record (r : TypeRecord)
  | entry (e : FieldEntry)
  deriving DecidableEq, Repr

/-- As a record of the stream. An entry outside a list is of no interest. -/
def Decoded.toRecord : Decoded → TypeRecord
  | .record r => r
  | .entry _ => .other

/-- As an entry of a list. A record inside a list is of no interest. -/
def Decoded.toEntry : Decoded → FieldEntry
  | .record _ => .other
  | .entry e => e

/-- The property bit of a forward reference. -/
def isForward (properties : Nat) : Bool := properties.testBit 7

/-- The property bit of a second, decorated name after the first. -/
def hasSecondName (properties : Nat) : Bool := properties.testBit 9

/-- The name of a type and, where the properties say so, its decorated name, which is dropped. -/
def typeName (counted : Bool) (properties : Nat) : Decoder String := do
  let name ← Decoder.name counted
  if hasSecondName properties then
    discard <| Decoder.name counted
  return Utf8.lossy name

/-- The index of a field list; two values stand for none. -/
def fieldsOf (index : TypeIndex) : Option TypeIndex :=
  if index = 0 ∨ index = 0xFFFF then none else some index

/-- Whether a method introduces a place in the table of virtual functions. -/
def introducesPlace (attributes : Nat) : Bool :=
  let how := attributes / 4 % 8
  how = 4 || how = 6

/-- Methods up to the end of the record. -/
def decodeMethods : (fuel : Nat) → Decoder Unit
  | 0 => throw .unexpectedEnd
  | fuel + 1 => do
    if ← Decoder.atEnd then return
    let attributes ← Decoder.number 2
    discard <| Decoder.take 6
    if introducesPlace attributes then
      discard <| Decoder.take 4
    decodeMethods fuel

/-- The dimensions of an array, of which a zero byte ends the last. -/
def decodeDimensions : (fuel : Nat) → Decoder Unit
  | 0 => throw .unexpectedEnd
  | fuel + 1 => do
    if 0xFFFFFFFF < (← NumericLeaf.readUnsigned) then
      throw .oversizedArray
    match ← get with
    | [] => throw .unexpectedEnd
    | 0 :: rest => set rest
    | _ => decodeDimensions fuel

/-- The fields of a leaf that is no field list. -/
def decodeLeaf (leaf : UInt16) : Decoder Decoded := do
  let counted : Bool := leaf ≤ lastCounted
  match kind? leaf with
  | some .struct =>
    discard <| Decoder.take 2
    let properties ← Decoder.number 2
    let fields ← Decoder.word
    discard <| Decoder.take 8
    let size ← NumericLeaf.readUnsigned
    let name ← typeName counted properties
    return .record (.struct name (isForward properties) (fieldsOf fields) size)
  | some .wideStruct =>
    let properties ← Decoder.number 4
    let fields ← Decoder.word
    discard <| Decoder.take 10
    let size ← NumericLeaf.readUnsigned
    let name ← typeName counted (properties % 0x10000)
    return .record (.struct name (isForward properties) (fieldsOf fields) size)
  | some .union =>
    discard <| Decoder.take 2
    let properties ← Decoder.number 2
    let fields ← Decoder.word
    let size ← NumericLeaf.readUnsigned
    let name ← typeName counted properties
    return .record (.struct name (isForward properties) (some fields) size)
  | some .enum =>
    discard <| Decoder.take 2
    let properties ← Decoder.number 2
    let underlying ← Decoder.word
    let fields ← Decoder.word
    let name ← typeName counted properties
    return .record (.enum name (isForward properties) underlying fields)
  | some .bitfield =>
    let base ← Decoder.word
    let length ← Decoder.byte
    let position ← Decoder.byte
    return .record (.bitfield base position length)
  | some .modifier =>
    let underlying ← Decoder.word
    discard <| Decoder.take 2
    return .record (.modifier underlying)
  | some .member =>
    discard <| Decoder.take 2
    let type ← Decoder.word
    let offset ← NumericLeaf.readUnsigned
    let name ← Decoder.name counted
    return .entry (.member (Utf8.lossy name) type offset)
  | some .enumerator =>
    discard <| Decoder.take 2
    let value ← NumericLeaf.read
    let name ← Decoder.name counted
    return .entry (.enumerator (Utf8.lossy name) value.widen)
  | some .namedType =>
    discard <| Decoder.take 6
    discard <| Decoder.name counted
    return .entry .other
  | some .method =>
    let attributes ← Decoder.number 2
    discard <| Decoder.take 4
    if introducesPlace attributes then
      discard <| Decoder.take 4
    discard <| Decoder.name counted
    return .entry .other
  | some .baseClass =>
    discard <| Decoder.take 6
    discard <| NumericLeaf.readUnsigned
    return .entry .other
  | some .virtualBase =>
    discard <| Decoder.take 10
    discard <| NumericLeaf.readUnsigned
    discard <| NumericLeaf.readUnsigned
    return .entry .other
  | some .functionTable =>
    discard <| Decoder.take 6
    return .entry .other
  | some .pointer =>
    discard <| Decoder.take 4
    let attributes ← Decoder.number 4
    let mode := attributes / 32 % 8
    if mode = 2 ∨ mode = 3 then
      discard <| Decoder.take 6
    return .record .other
  | some .procedure =>
    discard <| Decoder.take 12
    return .record .other
  | some .memberFunction =>
    discard <| Decoder.take 24
    return .record .other
  | some .argumentList =>
    let count ← Decoder.number 4
    discard <| Decoder.take (4 * count)
    return .record .other
  | some .methodList =>
    decodeMethods ((← get).length + 1)
    return .record .other
  | some .array =>
    discard <| Decoder.take 8
    decodeDimensions ((← get).length + 1)
    return .record .other
  | some .strideArray =>
    discard <| Decoder.take 12
    decodeDimensions ((← get).length + 1)
    return .record .other
  | some .fieldList | none => throw (.unsupportedKind leaf)

/-! ## Field lists -/

/-- Padding between entries: a byte from `0xF0` on, whose low four bits count the bytes up to the
next entry, itself included. -/
def skipPadding : (fuel : Nat) → Decoder Unit
  | 0 => pure ()
  | fuel + 1 => do
    match ← get with
    | b :: rest =>
      if 0xF0 ≤ b then
        set rest
        discard <| Decoder.take (b.toNat % 16 - 1)
        skipPadding fuel
    | [] => pure ()

/-- What has been read of a field list: its entries, newest first, and its last continuation. -/
structure Entries where
  reversed : List FieldEntry
  continuation : Option TypeIndex

/-- The entries up to the end of the record. A list among them takes all that is left; it counts as
one entry of no interest, but every entry of it has to decode. -/
def decodeEntries : (fuel : Nat) → Entries → Decoder Entries
  | 0, _ => throw .unexpectedEnd
  | fuel + 1, found => do
    if ← Decoder.atEnd then return found
    let leaf ← Decoder.peekHalf
    discard <| Decoder.take 2
    if leaf = continuationLeaf then
      let next ← Decoder.word
      skipPadding fuel
      decodeEntries fuel { found with continuation := some next }
    else if leaf = fieldListLeaf then
      discard <| decodeEntries fuel ⟨[], none⟩
      return { found with reversed := .other :: found.reversed }
    else
      let decoded ← decodeLeaf leaf
      skipPadding fuel
      decodeEntries fuel { found with reversed := decoded.toEntry :: found.reversed }

/-! ## Records -/

/-- The fields of a record behind its leaf. -/
def decodeBody (leaf : UInt16) : Decoder TypeRecord := do
  if leaf = fieldListLeaf then
    let found ← decodeEntries ((← get).length + 1) ⟨[], none⟩
    return .fieldList found.reversed.reverse found.continuation
  else
    return (← decodeLeaf leaf).toRecord

/-- The record that the bytes spell. -/
def decode (data : Bytes) : Except RecordDefect TypeRecord :=
  (do decodeBody (← Decoder.half) : Decoder TypeRecord).run' data

end OffsetService.Record
