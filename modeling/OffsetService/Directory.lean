import OffsetService.Bytes
import OffsetService.Entries
import OffsetService.Fault

/-!
# Folder trees

A `Directory` is what stands below the root of a cache: a folder or a file by path, a path being its
components. `node?_put` and `node?_erase` say what each change does to what stands at every path;
the other operations are built from these two.

Making a chain of folders goes from the top and stops at the first that cannot be made, so the
folders above it stay. Why a folder cannot be made is a parameter: a tree on its own refuses only
names that are too long.
-/

namespace OffsetService

/-- The components of a path below the root. -/
abbrev Path := List String

/-- What stands at a path. -/
inductive Node where
  | folder
  | file (bytes : Bytes)
  deriving DecidableEq, Repr

/-- The folders and files below a root, which is itself a folder. -/
structure Directory where
  nodes : List (Path × Node)
  deriving DecidableEq, Repr

namespace Directory

/-- The root alone. -/
def empty : Directory := ⟨[]⟩

/-- What stands at a path. -/
def node? (d : Directory) (path : Path) : Option Node :=
  if path = [] then some .folder else d.nodes.lookup path

/-- The bytes of the file at a path. -/
def file? (d : Directory) (path : Path) : Option Bytes :=
  match d.node? path with
  | some (.file bytes) => some bytes
  | _ => none

/-- Whether a file stands at a path. -/
def isFile (d : Directory) (path : Path) : Bool :=
  (d.file? path).isSome

/-- The tree without what stands at a path. -/
def erase (d : Directory) (path : Path) : Directory :=
  ⟨Entries.erase path d.nodes⟩

/-- The tree with a folder or file at a path, in place of what stood there. -/
def put (d : Directory) (path : Path) (node : Node) : Directory :=
  ⟨Entries.put path node d.nodes⟩

theorem node?_erase (d : Directory) (path other : Path) (h : path ≠ []) :
    (d.erase path).node? other = if other = path then none else d.node? other := by
  simp only [node?, erase, Entries.lookup_erase]
  by_cases ho : other = []
  · simp [ho, Ne.symm h]
  · simp [ho]

theorem node?_put (d : Directory) (path other : Path) (node : Node) (h : path ≠ []) :
    (d.put path node).node? other = if other = path then some node else d.node? other := by
  simp only [node?, put, Entries.lookup_put]
  by_cases ho : other = []
  · simp [ho, Ne.symm h]
  · simp [ho]

/-! ## Folders -/

/-- The longest name of a folder or file, in bytes of UTF-8. -/
def nameLimit : Nat := 255

/-- Why a tree on its own makes no folder at a path. -/
def refusal (path : Path) : Option FileCause :=
  match path.getLast? with
  | some name => if name.utf8ByteSize > nameLimit then some .nameTooLong else none
  | none => none

/-- Make the folders on a path that are not there, from the top, below the folder `above`. -/
def createFolders (refuses : Path → Option FileCause) (d : Directory) (above : Path) :
    Path → Directory × Except FileCause Unit
  | [] => (d, .ok ())
  | name :: rest =>
    let path := above ++ [name]
    match d.node? path with
    | some .folder => createFolders refuses d path rest
    | some (.file _) => (d, .error .notFolder)
    | none =>
      match refuses path with
      | some cause => (d, .error cause)
      | none => createFolders refuses (d.put path .folder) path rest

/-- Write a file, after the folders above it. -/
def write (d : Directory) (path : Path) (bytes : Bytes) : Directory × Except FileCause Unit :=
  match createFolders refusal d [] path.dropLast with
  | (made, .error cause) => (made, .error cause)
  | (made, .ok ()) =>
    match made.node? path, refusal path with
    | some .folder, _ => (made, .error .isFolder)
    | _, some cause => (made, .error cause)
    | _, none => (made.put path (.file bytes), .ok ())

/-- Remove what stands at a path, and all below it. -/
def remove (d : Directory) (path : Path) : Directory × Except FileCause Unit :=
  match d.node? path with
  | none => (d, .error .noSuchFile)
  | some _ => (⟨d.nodes.filter fun entry => !path.isPrefixOf entry.1⟩, .ok ())

/-- Move a file to another path, in place of a file that stands there. -/
def rename (d : Directory) (source target : Path) : Directory × Except FileCause Unit :=
  match d.file? source, d.node? target with
  | none, _ => (d, .error .noSuchFile)
  | some _, some .folder => (d, .error .isFolder)
  | some bytes, _ => ((d.erase source).put target (.file bytes), .ok ())

/-- A name for a temporary file in a folder, which no node and no file named `taken` has. -/
def unusedName (d : Directory) (folder : Path) (taken : String) : String :=
  let names := (List.range (d.nodes.length + 2)).map fun k => s!".download-{k}.tmp"
  let unused (name : String) : Bool := name != taken && (d.node? (folder ++ [name])).isNone
  (names.find? unused).getD ".download.tmp"

end Directory

end OffsetService
