import OffsetService.Cache.Crowd

/-!
# Calls on a machine

A call for a database is one program on every machine. What it needs of a machine is a `Machinery`,
whose operations run in a monad of its own; `Call.advance` is one step of the program, and
`Call.complete` all steps from a stage on. Every step leads to a later stage, so a call comes to its
end on every machine whose operations do.

The machine of the service is in `OffsetService.Machine`. On the folder trees and locks of a cache
the steps are those of `Call.step`, which `OffsetService.Proofs.Machinery` shows.
-/

namespace OffsetService

/-- What a call needs of the machine that it runs on. Paths are below the root of the cache. -/
structure Machinery (m : Type → Type) where
  isFile : Path → m Bool
  /-- The bytes of the file at a path. -/
  file? : Path → m (Option Bytes)
  /-- Take a share in the lock of a key. -/
  join : (key : String) → m Nat
  /-- Wait until nobody holds a lock, and hold it. -/
  acquire : (lock : Nat) → m Unit
  release : (lock : Nat) → m Unit
  /-- Give back a share in the lock of a key. -/
  leave : (key : String) → (lock : Nat) → m Unit
  makeFolders : Path → m (Except FileCause Unit)
  /-- Make a file of a new name in a folder. -/
  makeTemporary : (folder : Path) → m (Except FileCause Path)
  /-- Ask the archive for the database of an identity, and write what it delivers to a file. The
  result is the size of the file. -/
  fill : Path → Identity → m (Traced Nat)
  /-- See that what was written to a file is on the disk. -/
  secure : Path → m (Except FileCause Unit)
  rename : (source target : Path) → m (Except FileCause Unit)
  erase : Path → m Unit

variable {m : Type → Type} [Monad m]

namespace Download

/-- Make the folders and the temporary file, and fill it from the archive. The result is the path of
the complete file and its size. -/
def receiveBy (machine : Machinery m) (id : Identity) (target : Path) :
    m (Traced (Path × Nat)) := do
  match ← machine.makeFolders target.dropLast with
  | .error cause => return .fail (.file cause)
  | .ok () =>
    match ← machine.makeTemporary target.dropLast with
    | .error cause => return .fail (.file cause)
    | .ok temporary =>
      let filled ← machine.fill temporary id
      match filled.outcome with
      | .error fault =>
        machine.erase temporary
        return ⟨filled.events ++ [.downloadFailed id.name fault], .error fault⟩
      | .ok size =>
        match ← machine.secure temporary with
        | .error cause =>
          machine.erase temporary
          return ⟨filled.events, .error (.file cause)⟩
        | .ok () => return ⟨filled.events, .ok (temporary, size)⟩

/-- Move the temporary file to its place. -/
def settleBy (machine : Machinery m) (temporary target : Path) : m (Except Fault Unit) := do
  match ← machine.rename temporary target with
  | .error cause =>
    machine.erase temporary
    return .error (.file cause)
  | .ok () => return .ok ()

end Download

namespace Cache

/-- A stage that comes after a stage. -/
abbrev Stage.Later (stage : Stage) : Type :=
  { later : Stage // stage.rank < later.rank }

/-- A stage as one that comes after another. -/
def Stage.Later.of {stage : Stage} (later : Stage) (h : (stage.rank + 1).ble later.rank = true) :
    stage.Later :=
  ⟨later, Nat.le_of_ble_eq_true h⟩

/-- How a call goes on: not at all, or by a step to a later stage. -/
inductive Onward (m : Type → Type) (stage : Stage) where
  | ended (outcome : Except Fault String)
  | goes (step : m (stage.Later × List Event))

namespace Call

/-- How a call for the database of an identity goes on, in a cache below `root`. -/
def advance (machine : Machinery m) (root : String) (id : Identity) :
    (stage : Stage) → Onward m stage
  | .arriving =>
    .goes do
      match Archive.check id with
      | .error fault => return (.of (.done (.error fault)) rfl, [])
      | .ok () =>
        if ← machine.isFile (place id) then
          return (.of (.done (.ok path)) rfl, [.cacheHit key])
        else
          return (.of .joining rfl, [])
  | .joining =>
    .goes do
      let lock ← machine.join key
      return (.of (.waiting lock) rfl, [])
  | .waiting lock =>
    .goes do
      machine.acquire lock
      return (.of (.checking lock) rfl, [])
  | .checking lock =>
    .goes do
      if ← machine.isFile (place id) then
        return (.of (.releasing lock (.ok path)) rfl, [.cacheFilled key])
      else
        return (.of (.fetching lock) rfl, [])
  | .fetching lock =>
    .goes do
      if Archive.hasFolder path then
        let got ← Download.receiveBy machine id (place id)
        match got.outcome with
        | .error fault => return (.of (.releasing lock (.error fault)) rfl, got.events)
        | .ok (temporary, size) => return (.of (.placing lock temporary size) rfl, got.events)
      else
        return (.of (.releasing lock (.error (.unsafePath path))) rfl, [])
  | .placing lock temporary size =>
    .goes do
      match ← Download.settleBy machine temporary (place id) with
      | .error fault => return (.of (.releasing lock (.error fault)) rfl, [])
      | .ok () => return (.of (.releasing lock (.ok path)) rfl, [.cached path size])
  | .releasing lock outcome =>
    .goes do
      machine.release lock
      return (.of (.leaving lock outcome) rfl, [])
  | .leaving lock outcome =>
    .goes do
      machine.leave key lock
      return (.of (.done outcome) rfl, [])
  | .done outcome => .ended outcome
where
  key : String := Archive.relativePath id
  path : String := Archive.join root (Archive.relativePath id)

/-- All steps of a call from a stage on, after these events. -/
def complete (machine : Machinery m) (root : String) (id : Identity) (stage : Stage)
    (before : List Event) : m (Traced String) :=
  match advance machine root id stage with
  | .ended outcome => return ⟨before, outcome⟩
  | .goes step => do
    let (later, events) ← step
    complete machine root id later.1 (before ++ events)
termination_by 8 - stage.rank
decreasing_by
  have hlast := later.1.rank_le
  omega

end Call

end Cache

end OffsetService
