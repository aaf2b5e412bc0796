import OffsetService.Bytes
import OffsetService.Fault

/-!
# Reading a container

A container is a file of equal pages that holds numbered streams. Its first page is the header: a
magic text, the page size, the number of pages, and the size of the directory. The pages of the
directory are listed in list pages, whose numbers follow the header. The directory holds the number
of streams, the size of each (one value stands for an absent stream), and then the page numbers of
each stream in order.

`ofFile` checks the header alone. The directory and the streams are read when they are asked for;
each page number is checked against the range of the container before a page is read, and a page
past the end of the file is a defect of its own.
-/

namespace OffsetService

/-- A file with a well-formed container header. -/
structure Container where
  file : Bytes
  pageSize : Nat
  /-- The number of pages in use; page numbers go from 1 to this. -/
  pageCount : Nat
  directorySize : Nat
  /-- The pages that list the pages of the directory. -/
  listPages : List Nat

namespace Container

/-- The text that opens a container. -/
def magic : Bytes :=
  "Microsoft C/C++ MSF 7.00\x0d\x0a\x1aDS".toList.map (fun c => UInt8.ofNat c.toNat)
    ++ [0, 0, 0]

/-- The text that opens a container of the earlier format with small pages. -/
def smallMagic : Bytes :=
  "Microsoft C/C++ program database 2.00\x0d\x0a\x1aJG".toList.map fun c => UInt8.ofNat c.toNat

/-- How much of the file is read for the header. -/
def headerArea : Nat := 4096

/-- The size that stands for an absent stream. -/
def absent : Nat := 0xFFFFFFFF

/-- The number of pages that hold `size` bytes. -/
def pagesFor (pageSize size : Nat) : Nat :=
  (size + pageSize - 1) / pageSize

/-- A page size is a power of two within bounds. -/
def isPageSize (n : Nat) : Bool :=
  0x100 ≤ n && n ≤ 0x800000 && n &&& (n - 1) == 0

/-- The next `width` bytes as a number, and what follows. -/
def takeNumber (width : Nat) (data : Bytes) : Except DatabaseDefect (Nat × Bytes) :=
  match data.chop? width with
  | some (head, rest) => .ok (Bytes.littleEndian head, rest)
  | none => .error .unexpectedEnd

/-- What follows the next `n` bytes. -/
def skip (n : Nat) (data : Bytes) : Except DatabaseDefect Bytes :=
  match data.chop? n with
  | some (_, rest) => .ok rest
  | none => .error .unexpectedEnd

/-- The next `count` page numbers, each within the `pageCount` pages of the container. -/
def takePages (pageCount : Nat) : (count : Nat) → Bytes → Except DatabaseDefect (List Nat)
  | 0, _ => .ok []
  | count + 1, data => do
    let (page, rest) ← takeNumber 4 data
    if page = 0 ∨ pageCount < page then
      throw (.pageOutOfRange page)
    return page :: (← takePages pageCount count rest)

/-- The container in a file. -/
def ofFile (file : Bytes) : Except DatabaseDefect Container := do
  let header := file.take headerArea
  if header.length < headerArea then
    throw .unrecognizedFormat
  if smallMagic.isPrefixOf header then
    throw (.unimplemented "small MSF file format")
  if !magic.isPrefixOf header then
    throw .unrecognizedFormat
  let (pageSize, rest) ← takeNumber 4 (header.drop magic.length)
  let (_, rest) ← takeNumber 4 rest
  let (pageCount, rest) ← takeNumber 4 rest
  let (directorySize, rest) ← takeNumber 4 rest
  let (_, rest) ← takeNumber 4 rest
  if !isPageSize pageSize then
    throw (.invalidPageSize pageSize)
  let listCount := pagesFor pageSize (4 * pagesFor pageSize directorySize)
  let listPages ← takePages pageCount listCount rest
  return { file, pageSize, pageCount, directorySize, listPages }

/-- The first `size` bytes of the given pages, one page after the other. -/
def readPages (c : Container) : (pages : List Nat) → (size : Nat) → Except DatabaseDefect Bytes
  | [], _ => .ok []
  | page :: pages, size => do
    let wanted := min size c.pageSize
    let data := (c.file.drop (page * c.pageSize)).take wanted
    if data.length < wanted then
      throw .shortFile
    return data ++ (← readPages c pages (size - wanted))

/-- The directory. -/
def directory (c : Container) : Except DatabaseDefect Bytes := do
  let count := pagesFor c.pageSize c.directorySize
  let list ← c.readPages c.listPages (4 * count)
  c.readPages (← takePages c.pageCount count list) c.directorySize

/-- The number of pages of the next `count` streams, and what follows their sizes. -/
def pagesBefore (pageSize : Nat) : (count : Nat) → Bytes → Except DatabaseDefect (Nat × Bytes)
  | 0, data => .ok (0, data)
  | count + 1, data => do
    let (size, rest) ← takeNumber 4 data
    let (pages, rest) ← pagesBefore pageSize count rest
    return ((if size = absent then 0 else pagesFor pageSize size) + pages, rest)

/-- The size and the pages of a stream, by the directory. -/
def find (c : Container) (directory : Bytes) (stream : Nat) :
    Except DatabaseDefect (Nat × List Nat) := do
  let (count, sizes) ← takeNumber 4 directory
  if count ≤ stream then
    throw (.streamNotFound stream)
  let (before, rest) ← pagesBefore c.pageSize stream sizes
  let (size, rest) ← takeNumber 4 rest
  if size = absent then
    throw (.streamNotFound stream)
  let rest ← skip (4 * (count - stream - 1)) rest
  let rest ← skip (4 * before) rest
  return (size, ← takePages c.pageCount (pagesFor c.pageSize size) rest)

/-- The bytes of a stream. -/
def stream (c : Container) (number : Nat) : Except DatabaseDefect Bytes := do
  let (size, pages) ← c.find (← c.directory) number
  c.readPages pages size

end Container

end OffsetService
