import OffsetService.Cache.Crowd
import OffsetService.Proofs.Places

/-!
# The steps of a call

`Transition` lists the thirteen steps that a call can take, each with what it found and what it
changed. Every step of a crowd is one of them (`exists_transition_of_step`), and a call without a
step has ended or waits for a lock (`step_eq_none_iff`), so statements about crowds are proved by
cases on the list and never look into `Call.step`.
-/

namespace OffsetService.Cache

namespace Stage

/-- The lock that a call shares. -/
def lock? : Stage → Option Nat
  | .waiting lock | .checking lock | .fetching lock | .placing lock _ _ | .releasing lock _
  | .leaving lock _ => some lock
  | .arriving | .joining | .done _ => none

/-- Whether a call holds the lock that it shares: it took it and did not let go of it yet. -/
def holds : Stage → Bool
  | .checking _ | .fetching _ | .placing _ _ _ | .releasing _ _ => true
  | .arriving | .joining | .waiting _ | .leaving _ _ | .done _ => false

/-- The outcome of a call that knows it. -/
def outcome? : Stage → Option (Except Fault String)
  | .releasing _ outcome | .leaving _ outcome | .done outcome => some outcome
  | _ => none

theorem exists_done_of_rank {stage : Stage} (h : stage.rank = 8) :
    ∃ outcome, stage = .done outcome := by
  cases stage <;> first | exact ⟨_, rfl⟩ | cases h

theorem exists_lock?_of_holds {stage : Stage} (h : stage.holds = true) :
    ∃ number, stage.lock? = some number := by
  cases stage <;> first | exact ⟨_, rfl⟩ | cases h

theorem holds_eq_false_of_lock?_eq_none {stage : Stage} (h : stage.lock? = none) :
    stage.holds = false := by
  cases stage <;> first | rfl | cases h

end Stage

/-- The key of the database that a call is for. -/
def Call.key (call : Call) : String := Archive.relativePath call.identity

/-- The cache after a reception. -/
def received (cache : Cache) (got : Download.Reception) : Cache :=
  { cache with
    directory := got.directory, fetches := if got.asked then cache.fetches + 1 else cache.fetches }

/-- One step of a call for the database of `id`: from a cache and a stage to a cache and a stage. -/
inductive Transition (conditions : Conditions) (delivery : Delivery) (caller : Nat)
    (id : Identity) : Cache → Stage → Cache → Stage → Prop where
  | refused {cache : Cache} {fault : Fault} (unfit : Archive.check id = .error fault) :
    Transition conditions delivery caller id cache .arriving cache (.done (.error fault))
  | hit {cache : Cache} {bytes : Bytes} (fit : Archive.check id = .ok ())
      (present : cache.directory.file? (place id) = some bytes) :
    Transition conditions delivery caller id cache .arriving
      cache (.done (.ok (cache.localPath id)))
  | miss {cache : Cache} (fit : Archive.check id = .ok ()) :
    Transition conditions delivery caller id cache .arriving cache .joining
  | join {cache : Cache} :
    Transition conditions delivery caller id cache .joining
      { cache with locks := (cache.locks.join (Archive.relativePath id)).1 }
      (.waiting (cache.locks.join (Archive.relativePath id)).2)
  | acquire {cache : Cache} {lock : Nat} {locks : Locks}
      (free : cache.locks.acquire lock caller = some locks) :
    Transition conditions delivery caller id cache (.waiting lock)
      { cache with locks := locks } (.checking lock)
  | filled {cache : Cache} {lock : Nat} {bytes : Bytes}
      (present : cache.directory.file? (place id) = some bytes) :
    Transition conditions delivery caller id cache (.checking lock)
      cache (.releasing lock (.ok (cache.localPath id)))
  | absent {cache : Cache} {lock : Nat} (missing : cache.directory.file? (place id) = none) :
    Transition conditions delivery caller id cache (.checking lock) cache (.fetching lock)
  | unreceived {cache : Cache} {lock : Nat} {fault : Fault}
      (failed : (Download.receive conditions delivery id.name cache.directory
        (place id)).outcome = .error fault) :
    Transition conditions delivery caller id cache (.fetching lock)
      (received cache (Download.receive conditions delivery id.name cache.directory (place id)))
      (.releasing lock (.error fault))
  | received {cache : Cache} {lock size : Nat}
      (whole : (Download.receive conditions delivery id.name cache.directory
        (place id)).outcome = .ok size) :
    Transition conditions delivery caller id cache (.fetching lock)
      (received cache (Download.receive conditions delivery id.name cache.directory (place id)))
      (.placing lock (conditions.temporary (place id)) size)
  | unplaced {cache : Cache} {lock size : Nat} {temporary : Path} {after : Directory}
      {fault : Fault} (failed : Download.settle conditions.rename cache.directory temporary
        (place id) = (after, .error fault)) :
    Transition conditions delivery caller id cache (.placing lock temporary size)
      { cache with directory := after } (.releasing lock (.error fault))
  | placed {cache : Cache} {lock size : Nat} {temporary : Path} {after : Directory}
      (moved : Download.settle conditions.rename cache.directory temporary
        (place id) = (after, .ok ())) :
    Transition conditions delivery caller id cache (.placing lock temporary size)
      { cache with directory := after } (.releasing lock (.ok (cache.localPath id)))
  | release {cache : Cache} {lock : Nat} {outcome : Except Fault String} :
    Transition conditions delivery caller id cache (.releasing lock outcome)
      { cache with locks := cache.locks.release lock } (.leaving lock outcome)
  | leave {cache : Cache} {lock : Nat} {outcome : Except Fault String} :
    Transition conditions delivery caller id cache (.leaving lock outcome)
      { cache with locks := cache.locks.leave (Archive.relativePath id) lock } (.done outcome)

variable {conditions : Conditions} {delivery : Delivery} {caller : Nat} {cache : Cache}

/-- Calls only go forward. -/
theorem Transition.rank_lt {id : Identity} {before stage : Stage} {after : Cache}
    (h : Transition conditions delivery caller id cache before after stage) :
    before.rank < stage.rank := by
  cases h <;> simp [Stage.rank]

/-- A step does not move the cache. -/
theorem Transition.root {id : Identity} {before stage : Stage} {after : Cache}
    (h : Transition conditions delivery caller id cache before after stage) :
    after.root = cache.root := by
  cases h <;> rfl

theorem exists_file?_of_isFile {d : Directory} {path : Path} (h : d.isFile path = true) :
    ∃ bytes, d.file? path = some bytes :=
  Option.isSome_iff_exists.1 h

theorem file?_of_not_isFile {d : Directory} {path : Path} (h : ¬d.isFile path = true) :
    d.file? path = none :=
  Option.not_isSome_iff_eq_none.1 h

namespace Call

/-- A step of a call is a transition, and does not change what the call is for. -/
theorem transition_of_step {call after : Call} {cache' : Cache} {events : List Event}
    (h : call.step conditions delivery caller cache = some (cache', after, events)) :
    ∃ stage, after = { call with stage := stage } ∧
      Transition conditions delivery caller call.identity cache call.stage cache' stage := by
  obtain ⟨id, stage⟩ := call
  unfold step at h
  cases stage with
  | arriving =>
    dsimp only at h
    split at h
    next fault hcheck => cases h; exact ⟨_, rfl, .refused hcheck⟩
    next hcheck =>
      split at h
      next hfile =>
        obtain ⟨bytes, hbytes⟩ := exists_file?_of_isFile hfile
        cases h
        exact ⟨_, rfl, .hit hcheck hbytes⟩
      next => cases h; exact ⟨_, rfl, .miss hcheck⟩
  | joining => cases h; exact ⟨_, rfl, .join⟩
  | waiting lock =>
    obtain ⟨locks, hfree, heq⟩ := Option.map_eq_some_iff.1 h
    cases heq
    exact ⟨_, rfl, .acquire hfree⟩
  | checking lock =>
    dsimp only at h
    split at h
    next hfile =>
      obtain ⟨bytes, hbytes⟩ := exists_file?_of_isFile hfile
      cases h
      exact ⟨_, rfl, .filled hbytes⟩
    next hfile => cases h; exact ⟨_, rfl, .absent (file?_of_not_isFile hfile)⟩
  | fetching lock =>
    dsimp only at h
    rw [if_pos (hasFolder_localPath cache id)] at h
    split at h
    next fault hfailed => cases h; exact ⟨_, rfl, .unreceived hfailed⟩
    next size hwhole => cases h; exact ⟨_, rfl, .received hwhole⟩
  | placing lock temporary size =>
    dsimp only at h
    split at h
    next directory fault hfailed => cases h; exact ⟨_, rfl, .unplaced hfailed⟩
    next directory hmoved => cases h; exact ⟨_, rfl, .placed hmoved⟩
  | releasing lock outcome => cases h; exact ⟨_, rfl, .release⟩
  | leaving lock outcome => cases h; exact ⟨_, rfl, .leave⟩
  | done outcome => cases h

/-- A call without a step has ended or waits for a lock that it cannot take. -/
theorem step_eq_none_iff {call : Call} :
    call.step conditions delivery caller cache = none ↔
      (∃ outcome, call.stage = .done outcome) ∨
        ∃ lock, call.stage = .waiting lock ∧ cache.locks.acquire lock caller = none := by
  obtain ⟨id, stage⟩ := call
  unfold step
  cases stage with
  | arriving =>
    dsimp only
    split
    next => simp
    next => split <;> simp
  | joining => simp
  | waiting lock => simp
  | checking lock => dsimp only; split <;> simp
  | fetching lock =>
    dsimp only
    rw [if_pos (hasFolder_localPath cache id)]
    split <;> simp
  | placing lock temporary size => dsimp only; split <;> simp
  | releasing lock outcome => simp
  | leaving lock outcome => simp
  | done outcome => simp

end Call

/-- A step of a crowd is a transition of one of its calls; the other calls stay where they are. -/
theorem Crowd.exists_transition_of_step {crowd after : Crowd}
    (h : crowd.step conditions delivery caller = some after) :
    ∃ call stage, crowd.calls[caller]? = some call ∧
      after.calls = crowd.calls.set caller { call with stage := stage } ∧
      Transition conditions delivery caller call.identity crowd.cache call.stage after.cache
        stage := by
  unfold step at h
  split at h
  next => cases h
  next call hcall =>
    obtain ⟨⟨cache, moved, events⟩, hstep, heq⟩ := Option.map_eq_some_iff.1 h
    obtain ⟨stage, rfl, htrans⟩ := Call.transition_of_step hstep
    cases heq
    exact ⟨call, stage, hcall, rfl, htrans⟩

end OffsetService.Cache
