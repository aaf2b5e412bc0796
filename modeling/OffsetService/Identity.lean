/-!
# Debug identities

A debug identity names the one database that describes a module: the file name of the database, a
unique id in upper-case hexadecimal, and an age that counts the times the database was written.
-/

namespace OffsetService

/-- The name, unique id and age of a debug database. -/
structure Identity where
  name : String
  uniqueId : String
  age : UInt32
  deriving DecidableEq, Repr

namespace Identity

/-- The identity of a module without a usable debug record. -/
def none : Identity := ⟨"", "", 0⟩

/-- An identity can be looked up only when it has a name and a unique id. -/
def isComplete (id : Identity) : Bool :=
  !id.name.isEmpty && !id.uniqueId.isEmpty

end Identity

end OffsetService
