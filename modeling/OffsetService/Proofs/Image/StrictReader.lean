import OffsetService.Proofs.Image.Layout
import OffsetService.Proofs.Image.Strict

/-!
# The reader of images on a machine

`Image.identity` is written with operations that always have a result: a slice is cut at the end of
its bytes, and a number is as large as it comes out. This is the same reader with the operations of
`Strict`, in the order in which a machine does them. It asks first in three places: `window` refuses
a field that is not inside the image, `recordAt` a record that begins behind the image, and
`ofRecord` one that ends before its path begins. Everywhere else it relies on what it has read.
-/

namespace OffsetService.Image

namespace Strict

/-! ## Fields -/

/-- The `length` bytes at `offset`. A field outside of the image, or of the words, is a defect. -/
def window (image : Bytes) (field : ImageField) (offset length : Nat) : Strict Bytes :=
  match sum? offset length >>= part? image offset with
  | some bytes => pure bytes
  | none => sure (.error (.malformedImage (.outside field offset length image.length)))

/-- The little-endian number in the `width` bytes at `offset`. -/
def number (image : Bytes) (field : ImageField) (offset width : Nat) : Strict Nat := do
  let found ← window image field offset width
  return Bytes.littleEndian (← bytesFrom found 0 width)

/-! ## Sections -/

/-- The entry of the section table at `offset`. -/
def readSection (image : Bytes) (offset : Nat) : Strict Section := do
  let virtualSize ← number image .sectionVirtualSize (← sum offset 8) 4
  let virtualAddress ← number image .sectionVirtualAddress (← sum offset 12) 4
  let rawSize ← number image .sectionRawSize (← sum offset 16) 4
  let rawPointer ← number image .sectionRawPointer (← sum offset 20) 4
  return { virtualSize, virtualAddress, rawSize, rawPointer }

/-- The first `count` entries of the section table at `table`. -/
def readSections (image : Bytes) (table count : Nat) : Strict (List Section) :=
  (List.range count).mapM fun i => do
    readSection image (← sum table (← product i sectionHeaderSize))

/-- Whether a section holds an address. The end of a section above the address is not computed. -/
def holds (s : Section) (address : Nat) : Strict Bool :=
  if s.virtualAddress ≤ address then do
    return address < (← sum s.virtualAddress (max s.virtualSize s.rawSize))
  else
    return false

/-- The place in the file of an address, by the first section that holds it. -/
def fileOffset? (sections : List Section) (address : Nat) : Strict (Option Nat) := do
  match ← sections.findM? (holds · address) with
  | none => return none
  | some s => return some (← sum (← difference address s.virtualAddress) s.rawPointer)

/-! ## Headers -/

/-- The first of the entries from number `i` on whose record names a database, or else the very
first entry, at `offset`. -/
def selectEntry (image : Bytes) (offset : Nat) : (remaining i : Nat) → Strict Nat
  | 0, _ => return offset
  | remaining + 1, i => do
    let entry ← sum offset (← product i debugEntrySize)
    if (← number image .debugEntryType (← sum entry 12) 4) = databaseEntryType then
      return entry
    else
      selectEntry image offset remaining (i + 1)

/-- The file header. -/
def readFileHeader (image : Bytes) : Strict FileHeader := do
  if (← window image .dosHeader 0 2) ≠ [0x4D, 0x5A] then
    sure (throw (.malformedImage .noDosSignature))
  let newHeader ← number image .newHeaderOffset 0x3C 4
  if (← window image .peSignature newHeader 4) ≠ [0x50, 0x45, 0, 0] then
    sure (throw (.malformedImage (.noPeSignature newHeader)))
  let fileHeader ← sum newHeader 4
  let machine ← number image .machine fileHeader 2
  let sectionCount ← number image .sectionCount (← sum fileHeader 2) 2
  let optionalSize ← number image .optionalHeaderSize (← sum fileHeader 16) 2
  let optionalHeader ← sum fileHeader 20
  let sectionTable ← sum optionalHeader optionalSize
  return { machine, sectionCount, optionalHeader, sectionTable }

/-- The entry of the debug directory whose record is wanted. -/
def findEntry (image : Bytes) (header : FileHeader) (address size : Nat) : Strict Nat := do
  let sections ← readSections image header.sectionTable header.sectionCount
  match ← fileOffset? sections address with
  | none => sure (throw (.malformedImage (.unmappedDirectory address)))
  | some offset => selectEntry image offset (max (size / debugEntrySize) 1) 0

/-- The pointer and the size of the debug record; nothing when the image has none. -/
def locate (image : Bytes) : Strict (Option (Nat × Nat)) := do
  let header ← readFileHeader image
  match directoryPlaces? header.machine with
  | none => safe (throw (.unsupportedImage header.machine.toUInt16))
  | some (countPlace, directoriesPlace) =>
    let directories ← number image .directoryCount (← sum header.optionalHeader countPlace) 4
    if directories ≤ debugDirectoryIndex then
      safe (Traced.report (.noDebugDirectory directories))
      return none
    let place ← sum (← sum header.optionalHeader directoriesPlace) (← product debugDirectoryIndex 8)
    let address ← number image .debugDirectoryAddress place 4
    let size ← number image .debugDirectorySize (← sum place 4) 4
    if address = 0 ∨ size = 0 then
      safe (Traced.report .emptyDebugDirectory)
      return none
    let entry ← findEntry image header address size
    let dataSize ← number image .debugDataSize (← sum entry 16) 4
    let dataPointer ← number image .debugDataPointer (← sum entry 24) 4
    if dataSize = 0 then
      safe (Traced.report .emptyDebugEntry)
      return none
    return some (dataPointer, dataSize)

/-! ## Debug records -/

/-- The text of a unique id of 16 bytes. -/
def uniqueId (id : Bytes) : Strict String := do
  let first ← bytesFrom id 0 4
  let second ← bytesFrom id 4 2
  let third ← bytesFrom id 6 2
  let rest ← part id 8 id.length
  return guidText (Bytes.littleEndian first) (Bytes.littleEndian second) (Bytes.littleEndian third)
    rest

/-- The file name at the end of the path that stands before the first zero byte. -/
def fileName (bytes : Bytes) : Strict String := do
  let path ← part bytes 0 ((bytes.findIdx? (· = 0)).getD bytes.length)
  let text := (Utf8.lossy path).toList
  match lastSeparator? text 0 with
  | some place => return String.ofList (← textFrom text (← sum place 1))
  | none => return String.ofList text

/-- The identity that a debug record spells. -/
def ofRecord (record : Bytes) : Strict Identity :=
  let signature := (part? record 0 4).getD []
  if signature = [0x52, 0x53, 0x44, 0x53] then
    match part? record 0 24 with
    | none => safe (throw (.malformedImage (.truncatedRecord .rsds record.length)))
    | some header => do
      let id ← sized 16 (← part header 4 20)
      let age ← bytesFrom header 20 4
      let name ← fileName (← part record 24 record.length)
      return { name, uniqueId := ← uniqueId id, age := (Bytes.littleEndian age).toUInt32 }
  else if signature = [0x4E, 0x42, 0x31, 0x30] then
    match part? record 0 16 with
    | none => safe (throw (.malformedImage (.truncatedRecord .nb10 record.length)))
    | some header => do
      let number ← bytesFrom header 8 4
      let age ← bytesFrom header 12 4
      let name ← fileName (← part record 16 record.length)
      return {
        name
        uniqueId := String.ofList (Hex.fixed .upper 8 (Bytes.littleEndian number))
        age := (Bytes.littleEndian age).toUInt32 }
  else do
    safe (Traced.report (.unknownRecordFormat signature))
    return Identity.none

/-- The record of `size` bytes at `pointer`, cut at the end of the image. A sum that is no word is
replaced by the largest word. -/
def recordAt (image : Bytes) (pointer size : Nat) : Strict Bytes :=
  if image.length ≤ pointer then
    sure (.error (.malformedImage (.recordOutside pointer)))
  else
    part image pointer (min ((sum? pointer size).getD 0xFFFFFFFFFFFFFFFF) image.length)

/-- The debug identity of an image. -/
def identity (image : Bytes) : Strict Identity := do
  match ← locate image with
  | none => return Identity.none
  | some (pointer, size) => ofRecord (← recordAt image pointer size)

end Strict

end OffsetService.Image
