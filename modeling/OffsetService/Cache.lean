import OffsetService.Archive
import OffsetService.Cache.Download
import OffsetService.Cache.Locks

/-!
# The cache of databases

A cache keeps the database of an identity at the place that it has in an archive. `ensureLocal`
answers with the path of the file: a file that is there is never fetched again, whatever it holds,
and one that is not is downloaded. Identities without a place in an archive are refused before
anything is looked at.

What a call meets on the way is a parameter (`Circumstances`), so that statements about calls hold
for every failure of a step on files and everything that an archive delivers; `ensureLocal` is a
call that meets no failure but for the archive's. Both are one call from start to end; calls that
run at the same time are in `OffsetService.Cache.Crowd`.
-/

namespace OffsetService

/-- A cache: its folder tree, the locks of the calls under way, and how often the archive was
asked. -/
structure Cache where
  root : String
  directory : Directory
  locks : Locks
  fetches : Nat

/-- What calls meet, by the cache that they find and the identity that they are for: which steps on
files fail, and what the archive delivers if it comes to a download. -/
abbrev Circumstances := Cache → Identity → Conditions × Delivery

namespace Cache

/-- An empty cache below a folder. -/
def empty (root : String) : Cache := ⟨root, .empty, .empty, 0⟩

/-- The place of the database of an identity in the folder tree. -/
def place (id : Identity) : Path := [id.name, Archive.folder id, id.name]

/-- The path of the database of an identity, whether or not it is there. -/
def localPath (cache : Cache) (id : Identity) : String :=
  Archive.join cache.root (Archive.relativePath id)

/-- Download a database to its place. There is none for a path that is in no folder. -/
def download (conditions : Conditions) (delivery : Delivery) (cache : Cache) (id : Identity) :
    Cache × Traced Unit :=
  let path := cache.localPath id
  if Archive.hasFolder path then
    let got := Download.receive conditions delivery id.name cache.directory (place id)
    let asked := if got.asked then cache.fetches + 1 else cache.fetches
    match got.outcome with
    | .error fault =>
      ({ cache with directory := got.directory, fetches := asked }, ⟨got.events, .error fault⟩)
    | .ok size =>
      let temporary := conditions.temporary (place id)
      match Download.settle conditions.rename got.directory temporary (place id) with
      | (directory, .error fault) =>
        ({ cache with directory := directory, fetches := asked }, ⟨got.events, .error fault⟩)
      | (directory, .ok ()) =>
        ({ cache with directory := directory, fetches := asked },
          ⟨got.events ++ [.cached path size], .ok ()⟩)
  else
    (cache, .fail (.unsafePath path))

/-- One call for the database of an identity, under given conditions and with a given delivery if
it comes to a download. -/
def ensureUnder (conditions : Conditions) (delivery : Delivery) (cache : Cache) (id : Identity) :
    Cache × Traced String :=
  match Archive.check id with
  | .error fault => (cache, .fail fault)
  | .ok () =>
    let key := Archive.relativePath id
    let path := cache.localPath id
    if cache.directory.isFile (place id) then
      (cache, ⟨[.cacheHit key], .ok path⟩)
    else
      let (locks, number) := cache.locks.join key
      let (after, done) := download conditions delivery { cache with locks := locks } id
      ({ after with locks := after.locks.leave key number }, done.map fun _ => path)

/-- One call for the database of an identity, in given circumstances. -/
def ensureIn (meets : Circumstances) (cache : Cache) (id : Identity) : Cache × Traced String :=
  ensureUnder (meets cache id).1 (meets cache id).2 cache id

/-- The circumstances in which no step on files fails but for names that are too long, and this
archive delivers. -/
def usual (source : Source) : Circumstances := fun cache id =>
  (.usual cache.directory (place id), source cache.fetches id)

/-- The path of the database of an identity, after a download if it is not there. -/
def ensureLocal (source : Source) : Cache → Identity → Cache × Traced String :=
  ensureIn (usual source)

end Cache

end OffsetService
