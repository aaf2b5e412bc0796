import OffsetService.Fault
import OffsetService.Identity
import OffsetService.Text.Fields
import OffsetService.Text.Hex

/-!
# Places in an archive

An archive keeps the database of an identity under `name/uniqueIdAge/name`: the age follows the
unique id directly, in upper-case hexadecimal without leading zeros. The same relative path is the
key of the local cache and the end of the download URL.

Identities come from outside, so `check` refuses those whose parts are not fit to be single
components of a path: a name must not climb, split or end a path, and a unique id has digits and
upper-case letters only, so that one database has one place.
-/

namespace OffsetService.Archive

/-- The folder of an identity below its name: the unique id followed by the age. -/
def folder (id : Identity) : String :=
  id.uniqueId ++ Hex.upper id.age.toNat

/-- The path of the database of an identity, relative to the archive. -/
def relativePath (id : Identity) : String :=
  id.name ++ "/" ++ folder id ++ "/" ++ id.name

/-- A text without the slashes at its end. -/
def trimSlashes (text : String) : String :=
  String.ofList (text.toList.reverse.dropWhile (· = '/')).reverse

/-- The URL of the database of an identity, with one slash behind the base of the archive. -/
def downloadUrl (base : String) (id : Identity) : String :=
  trimSlashes base ++ "/" ++ relativePath id

/-- Whether a character cannot be in a name. -/
def isUnsafe (c : Char) : Bool :=
  c = '/' || c = '\\' || c = ':' || c = '\x00'

/-- Whether a name can be a component of a path. -/
def isSafeName (name : String) : Bool :=
  name != "." && name != ".." && !name.toList.any isUnsafe

/-- Whether a character is an upper-case hexadecimal digit. -/
def isUpperHex (c : Char) : Bool :=
  ('0' ≤ c && c ≤ '9') || ('A' ≤ c && c ≤ 'F')

/-- Whether a unique id is upper-case hexadecimal. -/
def isSafeUniqueId (uniqueId : String) : Bool :=
  uniqueId.toList.all isUpperHex

/-- Refuse an identity that has no place in an archive. -/
def check (id : Identity) : Except Fault Unit :=
  if !id.isComplete then .error .invalidIdentity
  else if !isSafeName id.name then .error (.unsafePath id.name)
  else if !isSafeUniqueId id.uniqueId then .error (.unsafePath id.uniqueId)
  else .ok ()

/-- A relative path below a folder. A path that begins with a slash stands for itself, as does every
path below the folder without a name, the current one. -/
def join (root relative : String) : String :=
  if root = "" ∨ relative.toList.head? = some '/' then relative
  else if root.toList.getLast? = some '/' then root ++ relative
  else root ++ "/" ++ relative

/-- Whether a path is in a folder. The path without a character is in none, and neither is the root,
however it is spelled. -/
def hasFolder (path : String) : Bool :=
  match path.toList with
  | [] => false
  | '/' :: rest => (Fields.split (· = '/') rest).any fun part => part ≠ [] && part ≠ ['.']
  | _ => true

end OffsetService.Archive
