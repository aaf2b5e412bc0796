import OffsetService.Delivery
import OffsetService.Directory

/-!
# One download

A database arrives in a temporary file in the folder of its place and is moved there when it is
complete, so a file at the place of a database is never part of one. `receive` goes up to the
complete temporary file, `settle` moves it. Wherever one of the steps fails, the temporary file is
taken away again and the fault is reported; only folders on the way to the place may stay.

Which steps on files fail is a parameter (`Conditions`), so that statements about downloads hold
for every failure.
-/

namespace OffsetService

/-- The name of the temporary file of a download, and which of its steps on files fail. -/
structure Conditions where
  tempName : String
  /-- Why the folder at a path cannot be made. -/
  folder : Path → Option FileCause
  temp : Option FileCause
  flush : Option FileCause
  sync : Option FileCause
  rename : Option FileCause

namespace Conditions

/-- An unused name, and no failure but for names that are too long. -/
def usual (d : Directory) (target : Path) : Conditions :=
  ⟨d.unusedName target.dropLast (target.getLastD ""), Directory.refusal, none, none, none, none⟩

/-- The path of the temporary file. -/
def temporary (c : Conditions) (target : Path) : Path :=
  target.dropLast ++ [c.tempName]

/-- The temporary file is not the target itself. -/
def Fits (c : Conditions) (target : Path) : Prop :=
  c.temporary target ≠ target

end Conditions

namespace Download

/-- How far a download came before its file is moved to its place. -/
structure Reception where
  directory : Directory
  /-- Whether the archive was asked. -/
  asked : Bool
  events : List Event
  /-- The size of the complete temporary file. -/
  outcome : Except Fault Nat

/-- Make the folders and the temporary file, and fill it from the archive. -/
def receive (c : Conditions) (delivery : Delivery) (name : String) (d : Directory)
    (target : Path) : Reception :=
  match d.createFolders c.folder [] target.dropLast with
  | (made, .error cause) => ⟨made, false, [], .error (.file cause)⟩
  | (made, .ok ()) =>
    let temporary := c.temporary target
    let obstacle := c.temp <|> (made.node? temporary).map fun _ => .alreadyThere
    match obstacle with
    | some cause => ⟨made, false, [], .error (.file cause)⟩
    | none =>
      let filled := made.put temporary (.file delivery.written)
      match delivery.fault, c.flush <|> c.sync with
      | some fault, _ =>
        ⟨filled.erase temporary, true, delivery.events ++ [.downloadFailed name fault],
          .error fault⟩
      | none, some cause => ⟨filled.erase temporary, true, delivery.events, .error (.file cause)⟩
      | none, none => ⟨filled, true, delivery.events, .ok delivery.written.length⟩

/-- Move the temporary file to its place. -/
def settle (trouble : Option FileCause) (d : Directory) (temporary target : Path) :
    Directory × Except Fault Unit :=
  match trouble with
  | some cause => (d.erase temporary, .error (.file cause))
  | none =>
    match d.rename temporary target with
    | (moved, .ok ()) => (moved, .ok ())
    | (_, .error cause) => (d.erase temporary, .error (.file cause))

end Download

end OffsetService
