import OffsetService.Builder

/-!
# A sample database

A small database in the shape of that of an operating system kernel. It has a forward reference
before its definition, a bitfield, a field list that goes on in another record, enumerations over
several integer types, two public symbols of one name, global data, and local data that no query
finds.
-/

namespace OffsetService.Builder.Sample

/-- The sections, types and symbols of the sample. -/
def steps : List BuildStep :=
  [.forward "_KPROCESS",
   .bitfield 0x22 1 4,
   .fieldList [.member "ProcessListEntry" 0x23 0x350] none,
   .fieldList
     [.member "Header" 0x74 0,
      .member "DirectoryTableBase" 0x23 0x28,
      .member "AutoAlignment" 0x1001 0x278]
     (some 0x1002),
   .struct "_KPROCESS" (some 0x1003) 0x438 4,
   .fieldList
     [.member "Pcb" 0x1004 0,
      .member "UniqueProcessId" 0x0603 0x440,
      .member "ActiveProcessLinks" 0x23 0x448]
     none,
   .struct "_EPROCESS" (some 0x1005) 0xA40 3,
   .fieldList
     [.enumerator "NonPagedPool" 0,
      .enumerator "PagedPool" 1,
      .enumerator "NonPagedPoolNx" 512,
      .enumerator "Invalid" (-1)]
     none,
   .enum "_POOL_TYPE" 0x74 0x1007 4,
   .fieldList [.enumerator "Low" 1, .enumerator "High" 0xFF] none,
   .enum "_BYTE_FLAGS" 0x69 0x1009 2,
   .enum "_CHAR_FLAGS" 0x70 0x1009 2,
   .constant 0x75,
   .fieldList [.enumerator "All" 0xFFFFFFFF] none,
   .enum "_MASK" 0x100C 0x100D 1,
   .addSection 0x1000,
   .addSection 0x200000,
   .publicSymbol "PsActiveProcessHead" 2 0x10,
   .globalData "KiServiceTable" 0x0603 1 0x800,
   .localData "KiLocalOnly" 0x75 2 0x20,
   .publicSymbol "PsActiveProcessHead" 2 0x90]

/-- The sample database. -/
def database? : Option Bytes :=
  (ofSteps steps).build?

end OffsetService.Builder.Sample
