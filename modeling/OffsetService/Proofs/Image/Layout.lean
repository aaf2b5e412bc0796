import OffsetService.Image

/-!
# The layout of an image with a debug identity

What an image must hold, and where, for a debug record in it to name a database: `Describes` says it
field by field, without reading anything. The numbers that the fields of one image give are a
`Layout`; each of them is pinned by what the bytes at its place spell (`Spells.eq`), so an image has
one layout at most.

How much of each section header has to lie inside the image is a parameter. A header has
`Image.sectionHeaderSize` bytes, and its fields of interest end after `sectionFieldsEnd`.
-/

namespace OffsetService.Image

/-- These bytes stand at a place of the image. -/
def Holds (image : Bytes) (place : Nat) (bytes : Bytes) : Prop :=
  bytes <+: image.drop place

/-- The bytes at a place of the image spell a number, least significant byte first. -/
def Spells (image : Bytes) (place width n : Nat) : Prop :=
  n < Bytes.capacity width ∧ Holds image place (Bytes.word width n)

instance (image : Bytes) (place : Nat) (bytes : Bytes) : Decidable (Holds image place bytes) :=
  inferInstanceAs (Decidable (bytes <+: image.drop place))

instance (image : Bytes) (place width n : Nat) : Decidable (Spells image place width n) :=
  inferInstanceAs (Decidable (n < Bytes.capacity width ∧ Holds image place (Bytes.word width n)))

/-- One place spells one number. -/
theorem Spells.eq {image : Bytes} {place width n m : Nat} (h : Spells image place width n)
    (h' : Spells image place width m) : n = m := by
  obtain ⟨hn, hword⟩ := h
  obtain ⟨hm, hword'⟩ := h'
  have hsame : Bytes.word width n = Bytes.word width m := by
    refine (List.prefix_of_prefix_length_le hword hword' ?_).eq_of_length ?_ <;> simp
  have hvalue := congrArg Bytes.littleEndian hsame
  rwa [Bytes.littleEndian_word, Bytes.littleEndian_word, Nat.mod_eq_of_lt hn,
    Nat.mod_eq_of_lt hm] at hvalue

/-- The numbers that the fields of an image give. -/
structure Layout where
  /-- The place of the signature before the file header. -/
  newHeader : Nat
  machine : Nat
  sectionCount : Nat
  optionalSize : Nat
  /-- How many data directories there are. -/
  directories : Nat
  /-- The address of the debug directory. -/
  address : Nat
  /-- The size of the debug directory. -/
  size : Nat
  sections : List Section
  /-- The place of the debug directory in the file. -/
  offset : Nat
  /-- The place of the debug entry that counts. -/
  entry : Nat
  dataSize : Nat
  dataPointer : Nat

namespace Layout

/-- The place of the optional header. -/
def optionalHeader (l : Layout) : Nat := l.newHeader + 24

/-- The place of the section table. -/
def sectionTable (l : Layout) : Nat := l.optionalHeader + l.optionalSize

/-- How many entries the debug directory has. -/
def entryCount (l : Layout) : Nat := max 1 (l.size / 28)

end Layout

/-- Where a machine keeps the number of its data directories, and the directories. -/
def Keeps (machine countPlace directoriesPlace : Nat) : Prop :=
  (machine = 0x014C ∧ countPlace = 92 ∧ directoriesPlace = 96) ∨
  ((machine = 0x8664 ∨ machine = 0xAA64) ∧ countPlace = 108 ∧ directoriesPlace = 112)

/-- The last byte that is read of a section header, and all before it. -/
def sectionFieldsEnd : Nat := 24

/-- A section header stands at a place, with so many bytes of it inside the image. -/
structure HasSection (extent : Nat) (image : Bytes) (place : Nat) (s : Section) : Prop where
  inside : place + extent ≤ image.length
  virtualSize : Spells image (place + 8) 4 s.virtualSize
  virtualAddress : Spells image (place + 12) 4 s.virtualAddress
  rawSize : Spells image (place + 16) 4 s.rawSize
  rawPointer : Spells image (place + 20) 4 s.rawPointer

/-- A section holds an address: it extends over the larger of its two sizes. -/
def Section.Maps (s : Section) (address : Nat) : Prop :=
  s.virtualAddress ≤ address ∧ address < s.virtualAddress + max s.virtualSize s.rawSize

/-- An address is at a place in the file, by the first section that holds it. -/
def MappedTo (sections : List Section) (address offset : Nat) : Prop :=
  ∃ before s after, sections = before ++ s :: after ∧ s.Maps address ∧
    (∀ earlier ∈ before, ¬earlier.Maps address) ∧
    offset = address - s.virtualAddress + s.rawPointer

/-- Of so many debug entries from `offset` on, the one that counts is the first of type 2, or the
very first if all have other types. -/
def Selected (image : Bytes) (offset count entry : Nat) : Prop :=
  (∃ k < count, entry = offset + 28 * k ∧ Spells image (entry + 12) 4 2 ∧
    ∀ j < k, ∃ type, type ≠ 2 ∧ Spells image (offset + 28 * j + 12) 4 type) ∨
  (entry = offset ∧ ∀ j < count, ∃ type, type ≠ 2 ∧ Spells image (offset + 28 * j + 12) 4 type)

/-- A name is the last component of the text before the first zero byte. -/
def NamedBy (path : Bytes) (name : String) : Prop :=
  ∃ text folder, 0 ∉ text ∧ (path = text ∨ ∃ rest, path = text ++ 0 :: rest) ∧
    (Utf8.lossy text).toList = folder ++ name.toList ∧
    (∀ c ∈ name.toList, c ≠ '\\' ∧ c ≠ '/') ∧
    (folder = [] ∨ ∃ above, folder = above ++ ['\\'] ∨ folder = above ++ ['/'])

/-- Numbers and bytes in upper-case hexadecimal, each with all its digits. -/
def guidText (first second third : Nat) (rest : Bytes) : String :=
  String.ofList (Hex.fixed .upper 8 first ++ Hex.fixed .upper 4 second ++ Hex.fixed .upper 4 third
    ++ rest.flatMap fun b => Hex.fixed .upper 2 b.toNat)

/-- A debug record names a database, in one of its two formats. -/
inductive Names : Bytes → Identity → Prop where
  | rsds {first second third : Nat} {rest path : Bytes} {name : String} {age : UInt32}
      (hfirst : first < 0x100000000) (hsecond : second < 0x10000) (hthird : third < 0x10000)
      (hrest : rest.length = 8) (named : NamedBy path name) :
    Names ([0x52, 0x53, 0x44, 0x53] ++ Bytes.word 4 first ++ Bytes.word 2 second
        ++ Bytes.word 2 third ++ rest ++ Bytes.word 4 age.toNat ++ path)
      ⟨name, guidText first second third rest, age⟩
  | nb10 {skipped path : Bytes} {signature : Nat} {name : String} {age : UInt32}
      (hskipped : skipped.length = 4) (hsignature : signature < 0x100000000)
      (named : NamedBy path name) :
    Names ([0x4E, 0x42, 0x31, 0x30] ++ skipped ++ Bytes.word 4 signature
        ++ Bytes.word 4 age.toNat ++ path)
      ⟨name, String.ofList (Hex.fixed .upper 8 signature), age⟩

/-- An image has this layout, with so many bytes of each section header inside it. -/
structure LaidOut (extent : Nat) (image : Bytes) (l : Layout) : Prop where
  dosSignature : Holds image 0 [0x4D, 0x5A]
  newHeader : Spells image 0x3C 4 l.newHeader
  peSignature : Holds image l.newHeader [0x50, 0x45, 0, 0]
  machine : Spells image (l.newHeader + 4) 2 l.machine
  sectionCount : Spells image (l.newHeader + 6) 2 l.sectionCount
  optionalSize : Spells image (l.newHeader + 20) 2 l.optionalSize
  directory : ∃ countPlace directoriesPlace, Keeps l.machine countPlace directoriesPlace ∧
    Spells image (l.optionalHeader + countPlace) 4 l.directories ∧
    Spells image (l.optionalHeader + directoriesPlace + 48) 4 l.address ∧
    Spells image (l.optionalHeader + directoriesPlace + 52) 4 l.size
  hasDirectory : 6 < l.directories
  address_ne_zero : l.address ≠ 0
  size_ne_zero : l.size ≠ 0
  sections : l.sections.length = l.sectionCount ∧ ∀ i s, l.sections[i]? = some s →
    HasSection extent image (l.sectionTable + 40 * i) s
  mapped : MappedTo l.sections l.address l.offset
  selected : Selected image l.offset l.entryCount l.entry
  dataSize : Spells image (l.entry + 16) 4 l.dataSize
  dataSize_ne_zero : l.dataSize ≠ 0
  dataPointer : Spells image (l.entry + 24) 4 l.dataPointer

/-- An image has this layout, and the debug record that it leads to, cut at the end of the image,
names this database. -/
structure Describes (extent : Nat) (image : Bytes) (l : Layout) (id : Identity) : Prop
    extends LaidOut extent image l where
  pointsInside : l.dataPointer < image.length
  names : Names ((image.drop l.dataPointer).take l.dataSize) id

end OffsetService.Image
