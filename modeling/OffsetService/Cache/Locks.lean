import OffsetService.Entries
import OffsetService.NameMap

/-!
# Locks by key

A call that may have to download takes the lock of its key, so that one download serves all calls
for that key while other keys go on. The locks are made on demand: the map has a lock for a key
while calls share it, and the last call to leave takes it out.

A lock is an object with a number. It counts its shares, one of the map and one of each call that
took it from there, and knows its holder. A call that leaves with two shares left, its own and the
map's, is the last one: no other call has the lock, and none can take it from the map meanwhile,
because joining and leaving are each one step.
-/

namespace OffsetService

/-- A lock, with the number of its shares and the call that holds it. -/
structure Lock where
  shares : Nat
  holder : Option Nat
  deriving DecidableEq, Repr

/-- The locks: the number of the lock of each key, and the locks by number. -/
structure Locks where
  inFlight : NameMap Nat
  objects : List (Nat × Lock)
  /-- The number of the next lock. -/
  next : Nat

namespace Locks

/-- No locks. -/
def empty : Locks := ⟨.empty, [], 0⟩

/-- The lock with a number. -/
def lock? (l : Locks) (number : Nat) : Option Lock := l.objects.lookup number

/-- Take a share in the lock of a key, which is made if the map has none. -/
def join (l : Locks) (key : String) : Locks × Nat :=
  match l.inFlight.get? key with
  | some number =>
    match l.lock? number with
    | some lock =>
      let more := { lock with shares := lock.shares + 1 }
      ({ l with objects := Entries.put number more l.objects }, number)
    | none => (l, number)
  | none =>
    (⟨l.inFlight.addNew key l.next, Entries.put l.next ⟨2, none⟩ l.objects, l.next + 1⟩, l.next)

/-- Hold a lock, unless a call holds it. -/
def acquire (l : Locks) (number caller : Nat) : Option Locks :=
  match l.lock? number with
  | some ⟨shares, none⟩ =>
    some { l with objects := Entries.put number ⟨shares, some caller⟩ l.objects }
  | _ => none

/-- Let go of a lock. -/
def release (l : Locks) (number : Nat) : Locks :=
  match l.lock? number with
  | some lock => { l with objects := Entries.put number { lock with holder := none } l.objects }
  | none => l

/-- Give back one share. A lock without shares is gone. -/
def drop (l : Locks) (number : Nat) : Locks :=
  match l.lock? number with
  | some lock =>
    if lock.shares ≤ 1 then { l with objects := Entries.erase number l.objects }
    else { l with objects := Entries.put number { lock with shares := lock.shares - 1 } l.objects }
  | none => l

/-- Leave a lock. The last call also takes the key out of the map. -/
def leave (l : Locks) (key : String) (number : Nat) : Locks :=
  match l.lock? number with
  | some lock =>
    let left := l.drop number
    if lock.shares = 2 then
      match left.inFlight.get? key with
      | some mapped => { left.drop mapped with inFlight := left.inFlight.erase key }
      | none => left
    else left
  | none => l

end Locks

end OffsetService
