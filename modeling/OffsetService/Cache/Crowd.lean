import OffsetService.Cache

/-!
# Calls at the same time

Several calls on one cache go on in steps, and the steps of different calls mix in any order. The
steps of one call are: look for the file; take a share in the lock of the key; hold the lock; look
again, because another call may have brought the file meanwhile; fetch into a temporary file; move
it to its place; let go of the lock; leave it. Each is atomic. A call has no step while it waits for
a lock that another call holds.

`Crowd.Next` is one step of some call under any conditions and with any delivery, and
`Crowd.Reaches` any number of them. `Crowd.finish` is the schedule in which the calls take turns.
-/

namespace OffsetService

namespace Cache

/-- The point that a call has come to. -/
inductive Stage where
  /-- Before the first look for the file. -/
  | arriving
  /-- The file was not there. -/
  | joining
  /-- The call shares the lock. -/
  | waiting (lock : Nat)
  /-- The call holds the lock and looks again. -/
  | checking (lock : Nat)
  /-- The file is still not there. -/
  | fetching (lock : Nat)
  /-- The temporary file is complete. -/
  | placing (lock : Nat) (temporary : Path) (size : Nat)
  /-- The outcome is known and the lock still held. -/
  | releasing (lock : Nat) (outcome : Except Fault String)
  /-- The call still shares the lock. -/
  | leaving (lock : Nat) (outcome : Except Fault String)
  | done (outcome : Except Fault String)

namespace Stage

/-- How far a call has come. -/
def rank : Stage → Nat
  | .arriving => 0
  | .joining => 1
  | .waiting _ => 2
  | .checking _ => 3
  | .fetching _ => 4
  | .placing _ _ _ => 5
  | .releasing _ _ => 6
  | .leaving _ _ => 7
  | .done _ => 8

theorem rank_le (stage : Stage) : stage.rank ≤ 8 := by
  cases stage <;> simp [rank]

end Stage

/-- A call for the database of an identity. -/
structure Call where
  identity : Identity
  stage : Stage

namespace Call

/-- A call that has not begun. -/
def new (id : Identity) : Call := ⟨id, .arriving⟩

/-- The outcome of a call that has ended. -/
def outcome? (call : Call) : Option (Except Fault String) :=
  match call.stage with
  | .done outcome => some outcome
  | _ => none

/-- The next step of a call, or nothing when it has ended or must wait. -/
def step (conditions : Conditions) (delivery : Delivery) (caller : Nat) (cache : Cache)
    (call : Call) : Option (Cache × Call × List Event) :=
  let key := Archive.relativePath call.identity
  let target := place call.identity
  let path := cache.localPath call.identity
  let at_ (stage : Stage) : Call := { call with stage := stage }
  match call.stage with
  | .arriving =>
    match Archive.check call.identity with
    | .error fault => some (cache, at_ (.done (.error fault)), [])
    | .ok () =>
      if cache.directory.isFile target then some (cache, at_ (.done (.ok path)), [.cacheHit key])
      else some (cache, at_ .joining, [])
  | .joining =>
    let (locks, lock) := cache.locks.join key
    some ({ cache with locks := locks }, at_ (.waiting lock), [])
  | .waiting lock =>
    (cache.locks.acquire lock caller).map fun locks =>
      ({ cache with locks := locks }, at_ (.checking lock), [])
  | .checking lock =>
    if cache.directory.isFile target then
      some (cache, at_ (.releasing lock (.ok path)), [.cacheFilled key])
    else
      some (cache, at_ (.fetching lock), [])
  | .fetching lock =>
    if Archive.hasFolder path then
      let got := Download.receive conditions delivery call.identity.name cache.directory target
      let asked := if got.asked then cache.fetches + 1 else cache.fetches
      let after := { cache with directory := got.directory, fetches := asked }
      match got.outcome with
      | .error fault => some (after, at_ (.releasing lock (.error fault)), got.events)
      | .ok size =>
        some (after, at_ (.placing lock (conditions.temporary target) size), got.events)
    else
      some (cache, at_ (.releasing lock (.error (.unsafePath path))), [])
  | .placing lock temporary size =>
    match Download.settle conditions.rename cache.directory temporary target with
    | (directory, .error fault) =>
      some ({ cache with directory := directory }, at_ (.releasing lock (.error fault)), [])
    | (directory, .ok ()) =>
      some ({ cache with directory := directory }, at_ (.releasing lock (.ok path)),
        [.cached path size])
  | .releasing lock outcome =>
    some ({ cache with locks := cache.locks.release lock }, at_ (.leaving lock outcome), [])
  | .leaving lock outcome =>
    some ({ cache with locks := cache.locks.leave key lock }, at_ (.done outcome), [])
  | .done _ => none

end Call

/-- Calls on one cache, and what has happened so far. -/
structure Crowd where
  cache : Cache
  calls : List Call
  events : List Event

namespace Crowd

/-- Calls that are about to begin. -/
def start (cache : Cache) (ids : List Identity) : Crowd := ⟨cache, ids.map Call.new, []⟩

/-- A step of one call. -/
def step (conditions : Conditions) (delivery : Delivery) (caller : Nat) (crowd : Crowd) :
    Option Crowd :=
  match crowd.calls[caller]? with
  | none => none
  | some call =>
    (call.step conditions delivery caller crowd.cache).map fun (cache, after, events) =>
      ⟨cache, crowd.calls.set caller after, crowd.events ++ events⟩

/-- Some call takes a step. -/
inductive Next : Crowd → Crowd → Prop where
  | step {crowd after : Crowd} {caller : Nat} {call : Call} {conditions : Conditions}
      {delivery : Delivery} (present : crowd.calls[caller]? = some call)
      (fits : conditions.Fits (place call.identity))
      (taken : crowd.step conditions delivery caller = some after) : Next crowd after

/-- Any number of steps. -/
inductive Reaches : Crowd → Crowd → Prop where
  | refl (crowd : Crowd) : Reaches crowd crowd
  | tail {crowd mid after : Crowd} : Reaches crowd mid → Next mid after → Reaches crowd after

theorem Next.reaches {crowd after : Crowd} (h : Next crowd after) : Reaches crowd after :=
  .tail (.refl crowd) h

theorem Reaches.trans {crowd mid after : Crowd} (h : Reaches crowd mid) (h' : Reaches mid after) :
    Reaches crowd after := by
  induction h' with
  | refl => exact h
  | tail _ next ih => exact .tail ih next

/-! ## Taking turns -/

/-- A turn of one call, which passes when it has no step. -/
def turn (source : Source) (crowd : Crowd) (caller : Nat) : Crowd :=
  match crowd.calls[caller]? with
  | none => crowd
  | some call =>
    let conditions := .usual crowd.cache.directory (place call.identity)
    (crowd.step conditions (source crowd.cache.fetches call.identity) caller).getD crowd

/-- A turn of every call. -/
def round (source : Source) (crowd : Crowd) : Crowd :=
  (List.range crowd.calls.length).foldl (turn source) crowd

/-- So many rounds. -/
def rounds (source : Source) : Nat → Crowd → Crowd
  | 0, crowd => crowd
  | n + 1, crowd => rounds source n (round source crowd)

/-- Rounds until all calls have ended: a call has eight steps, and in each round one is taken. -/
def finish (source : Source) (crowd : Crowd) : Crowd :=
  rounds source (8 * crowd.calls.length) crowd

end Crowd

end Cache

end OffsetService
