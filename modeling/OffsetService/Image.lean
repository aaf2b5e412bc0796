import OffsetService.Bytes
import OffsetService.Identity
import OffsetService.Image.Arithmetic
import OffsetService.Text.Utf8
import OffsetService.Traced

/-!
# The debug identity of an executable image

An image holds a file header, an optional header with a table of data directories, and a section
table. Data directory 6 gives the address of the debug directory, whose entries say where in the
file a debug record lies. A record in one of two formats names the database:

- `RSDS`: a 16-byte unique id, an age, and a path up to a zero byte;
- `NB10`: a 32-bit signature, an age, and a path up to a zero byte.

Nothing is read before `window` has found it inside the image, so a field that lies outside is a
defect that names the field, and every other outcome is decided by the bytes alone. An image without
a usable record is no fault: it has `Identity.none`. `locate` finds the record, `ofRecord` decodes
it, and `identityBy` is one after the other.

Places are computed by an `Arithmetic`, which everything on the way to the record takes as its first
argument; `identity` is the reading with natural numbers.
-/

namespace OffsetService.Image

/-! ## Reading fields -/

/-- The `length` bytes at `offset`. -/
def window (image : Bytes) (field : ImageField) (offset length : Nat) : Except Fault Bytes :=
  let found := (image.drop offset).take length
  if found.length = length then
    .ok found
  else
    .error (.malformedImage (.outside field offset length image.length))

/-- The little-endian number in the `width` bytes at `offset`. -/
def number (image : Bytes) (field : ImageField) (offset width : Nat) : Except Fault Nat :=
  (window image field offset width).map Bytes.littleEndian

/-! ## Sections -/

/-- A part of the image: its place in memory and its place in the file. -/
structure Section where
  virtualSize : Nat
  virtualAddress : Nat
  rawSize : Nat
  rawPointer : Nat
  deriving DecidableEq, Repr

/-- The size of one entry of the section table. -/
def sectionHeaderSize : Nat := 40

/-- The entry of the section table at `offset`. -/
def readSection (a : Arithmetic) (image : Bytes) (offset : Nat) : Except Fault Section := do
  let virtualSize ← number image .sectionVirtualSize (a.add offset 8) 4
  let virtualAddress ← number image .sectionVirtualAddress (a.add offset 12) 4
  let rawSize ← number image .sectionRawSize (a.add offset 16) 4
  let rawPointer ← number image .sectionRawPointer (a.add offset 20) 4
  return { virtualSize, virtualAddress, rawSize, rawPointer }

/-- The first `count` entries of the section table that begins at `offset`. -/
def readSections (a : Arithmetic) (image : Bytes) (offset count : Nat) :
    Except Fault (List Section) :=
  (List.range count).mapM fun i => readSection a image (a.add offset (a.mul i sectionHeaderSize))

/-- Whether a section holds an address: it extends over the larger of its two sizes. -/
def Section.holds (a : Arithmetic) (s : Section) (address : Nat) : Bool :=
  s.virtualAddress ≤ address && address < a.add s.virtualAddress (max s.virtualSize s.rawSize)

/-- The place in the file of an address, by the first section that holds it. -/
def fileOffset? (a : Arithmetic) (sections : List Section) (address : Nat) : Option Nat :=
  (sections.find? (·.holds a address)).map fun s =>
    a.add (a.sub address s.virtualAddress) s.rawPointer

/-! ## Headers -/

/-- Where the optional header of a machine keeps the number of its data directories and the
directories themselves; a machine that is not listed is not supported. -/
def directoryPlaces? (machine : Nat) : Option (Nat × Nat) :=
  if machine = 0x014C then some (92, 96)
  else if machine = 0x8664 ∨ machine = 0xAA64 then some (108, 112)
  else none

/-- The place of the debug directory among the data directories. -/
def debugDirectoryIndex : Nat := 6

/-- The size of one entry of the debug directory. -/
def debugEntrySize : Nat := 28

/-- The type of a debug entry whose record names a database. -/
def databaseEntryType : Nat := 2

/-- The first of the entries from `entry` on whose record names a database. Of a directory without
one, the `fallback` is taken. -/
def selectEntry (a : Arithmetic) (image : Bytes) (fallback : Nat) :
    (remaining entry : Nat) → Except Fault Nat
  | 0, _ => .ok fallback
  | remaining + 1, entry => do
    if (← number image .debugEntryType (a.add entry 12) 4) = databaseEntryType then
      return entry
    else
      selectEntry a image fallback remaining (a.add entry debugEntrySize)

/-- What the file header says, with the places of the tables that follow it. -/
structure FileHeader where
  machine : Nat
  sectionCount : Nat
  /-- The place of the optional header. -/
  optionalHeader : Nat
  /-- The place of the section table. -/
  sectionTable : Nat
  deriving DecidableEq, Repr

/-- The file header: the image opens with one signature, which leads to another before the
header. -/
def readFileHeader (a : Arithmetic) (image : Bytes) : Except Fault FileHeader := do
  if (← window image .dosHeader 0 2) ≠ [0x4D, 0x5A] then
    throw (.malformedImage .noDosSignature)
  let newHeader ← number image .newHeaderOffset 0x3C 4
  if (← window image .peSignature newHeader 4) ≠ [0x50, 0x45, 0, 0] then
    throw (.malformedImage (.noPeSignature newHeader))
  let machine ← number image .machine (a.add newHeader 4) 2
  let sectionCount ← number image .sectionCount (a.add newHeader 6) 2
  let optionalSize ← number image .optionalHeaderSize (a.add newHeader 20) 2
  let optionalHeader := a.add newHeader 24
  let sectionTable := a.add optionalHeader optionalSize
  return { machine, sectionCount, optionalHeader, sectionTable }

/-- The entry of the debug directory at `address` and of `size` bytes whose record is wanted, as a
place in the file. -/
def findEntry (a : Arithmetic) (image : Bytes) (header : FileHeader) (address size : Nat) :
    Except Fault Nat := do
  let sections ← readSections a image header.sectionTable header.sectionCount
  match fileOffset? a sections address with
  | none => throw (.malformedImage (.unmappedDirectory address))
  | some offset => selectEntry a image offset (max (size / debugEntrySize) 1) offset

/-- The pointer and the size of the debug record; nothing when the image has none. -/
def locate (a : Arithmetic) (image : Bytes) : Traced (Option (Nat × Nat)) := do
  let header ← .ofExcept (readFileHeader a image)
  match directoryPlaces? header.machine with
  | none => throw (.unsupportedImage header.machine.toUInt16)
  | some (countPlace, directoriesPlace) =>
    let directories ← .ofExcept
      (number image .directoryCount (a.add header.optionalHeader countPlace) 4)
    if directories ≤ debugDirectoryIndex then
      Traced.report (.noDebugDirectory directories)
      return none
    let place := a.add (a.add header.optionalHeader directoriesPlace) (a.mul debugDirectoryIndex 8)
    let address ← .ofExcept (number image .debugDirectoryAddress place 4)
    let size ← .ofExcept (number image .debugDirectorySize (a.add place 4) 4)
    if address = 0 ∨ size = 0 then
      Traced.report .emptyDebugDirectory
      return none
    let entry ← .ofExcept (findEntry a image header address size)
    let dataSize ← .ofExcept (number image .debugDataSize (a.add entry 16) 4)
    let dataPointer ← .ofExcept (number image .debugDataPointer (a.add entry 24) 4)
    if dataSize = 0 then
      Traced.report .emptyDebugEntry
      return none
    return some (dataPointer, dataSize)

/-! ## Debug records -/

/-- Bytes as two upper-case digits each. -/
def upperHex (bytes : Bytes) : String :=
  String.ofList (bytes.flatMap fun b => Hex.fixed .upper 2 b.toNat)

/-- The text of a 16-byte unique id: a 32-bit and two 16-bit little-endian words, then eight bytes
as they stand. -/
def uniqueId (id : Bytes) : String :=
  upperHex ((id.take 4).reverse ++ ((id.drop 4).take 2).reverse ++ ((id.drop 6).take 2).reverse
    ++ id.drop 8)

/-- Whether a character ends a folder name in a path. -/
def isSeparator (c : Char) : Bool :=
  c = '\\' || c = '/'

/-- The last component of a path. -/
def lastComponent (path : List Char) : List Char :=
  (path.reverse.takeWhile (!isSeparator ·)).reverse

/-- The file name at the end of the path that stands before the first zero byte. -/
def fileName (bytes : Bytes) : String :=
  String.ofList (lastComponent (Utf8.lossy (bytes.takeWhile (· ≠ 0))).toList)

/-- The identity that a debug record spells. -/
def ofRecord (record : Bytes) : Traced Identity :=
  let signature := if record.length < 4 then [] else record.take 4
  if signature = [0x52, 0x53, 0x44, 0x53] then
    if record.length < 24 then
      throw (.malformedImage (.truncatedRecord .rsds record.length))
    else
      return {
        name := fileName (record.drop 24)
        uniqueId := uniqueId ((record.drop 4).take 16)
        age := (Bytes.littleEndian ((record.drop 20).take 4)).toUInt32 }
  else if signature = [0x4E, 0x42, 0x31, 0x30] then
    if record.length < 16 then
      throw (.malformedImage (.truncatedRecord .nb10 record.length))
    else
      return {
        name := fileName (record.drop 16)
        uniqueId := upperHex ((record.drop 8).take 4).reverse
        age := (Bytes.littleEndian ((record.drop 12).take 4)).toUInt32 }
  else do
    Traced.report (.unknownRecordFormat signature)
    return Identity.none

/-- The record of `size` bytes at `pointer`, cut at the end of the image. -/
def recordAt (image : Bytes) (pointer size : Nat) : Except Fault Bytes :=
  match image.drop pointer with
  | [] => .error (.malformedImage (.recordOutside pointer))
  | rest => .ok (rest.take size)

/-- The debug identity of an image, with its places computed by an arithmetic. -/
def identityBy (a : Arithmetic) (image : Bytes) : Traced Identity := do
  match ← locate a image with
  | none => return Identity.none
  | some (pointer, size) => ofRecord (← .ofExcept (recordAt image pointer size))

/-- The debug identity of an image. -/
def identity (image : Bytes) : Traced Identity :=
  identityBy .exact image

end OffsetService.Image
