import OffsetService.Proofs.Crowd.OneDownload

/-!
# The lock of the map of locks

The map that says which lock a key has is itself under a lock. `Guarded` puts this lock beside a
crowd: to join or to leave, a call takes the map, uses it, and gives it back, and meanwhile other
calls take every step that is not on the map. Nothing is lost or added by this: the crowds that
guarded calls come to are those of histories (`exists_history`, `History.guarded`).

`locks_follow_calls` is what holds of every guarded crowd. The map has the lock of a key exactly
while calls share it, those calls share that one lock, and its shares count them. Some call can
always go on: the map is had by a call that holds no lock of a key, and a lock of a key is held by a
call that needs nothing else, except for the map when it comes to leave, which it does only after it
has let go of the lock. So a call waits for the map or for a call of its own key, and never for a
fetch of another key.
-/

namespace OffsetService.Cache

/-- Who has the map of locks. -/
inductive MapLock where
  | free
  /-- A call has the map and has yet to use it. -/
  | taken (caller : Nat)
  /-- A call has used the map and has yet to give it back. -/
  | used (caller : Nat)
  deriving DecidableEq, Repr

/-- The call that has the map. -/
def MapLock.holder? : MapLock → Option Nat
  | .free => none
  | .taken caller | .used caller => some caller

/-- Whether the next step of a call is on the map. -/
def Stage.usesMap : Stage → Bool
  | .joining | .leaving _ _ => true
  | .arriving | .waiting _ | .checking _ | .fetching _ | .placing _ _ _ | .releasing _ _
  | .done _ => false

/-- A step on the map leads to a stage at which a call holds no lock: to waiting for one, or to the
end. -/
theorem Transition.idle_of_usesMap {conditions : Conditions} {delivery : Delivery} {caller : Nat}
    {id : Identity} {cache after : Cache} {before stage : Stage}
    (h : Transition conditions delivery caller id cache before after stage)
    (uses : before.usesMap = true) : stage.holds = false := by
  cases h with
  | join => rfl
  | leave => rfl
  | _ => cases uses

/-- Whether a call is between taking its share in a lock and having left the lock. -/
def Call.sharesLock (call : Call) : Bool := call.stage.lock?.isSome

/-- A crowd, and who has its map of locks. -/
structure Guarded where
  crowd : Crowd
  map : MapLock

namespace Guarded

/-- Calls that are about to begin. -/
def start (cache : Cache) (ids : List Identity) : Guarded := ⟨.start cache ids, .free⟩

/-- A step of one call, where a step on the map is three: to take the map, to use it, and to give it
back. -/
def step (conditions : Conditions) (delivery : Delivery) (caller : Nat) (g : Guarded) :
    Option Guarded :=
  match g.crowd.calls[caller]? with
  | none => none
  | some call =>
    if g.map = .used caller then some { g with map := .free }
    else if call.stage.usesMap then
      if g.map = .taken caller then
        (g.crowd.step conditions delivery caller).map fun after => ⟨after, .used caller⟩
      else if g.map = .free then some { g with map := .taken caller }
      else none
    else (g.crowd.step conditions delivery caller).map fun after => { g with crowd := after }

/-- What calls come to that take such steps, in any order, while somebody else may change the folder
tree. -/
inductive Reaches (first : Guarded) : Guarded → Prop where
  | start : Reaches first first
  | step {g after : Guarded} {caller : Nat} {call : Call} {conditions : Conditions}
      {delivery : Delivery} (before : Reaches first g)
      (present : g.crowd.calls[caller]? = some call) (fits : conditions.Fits (place call.identity))
      (taken : g.step conditions delivery caller = some after) : Reaches first after
  | outside {crowd : Crowd} {map : MapLock} (before : Reaches first ⟨crowd, map⟩)
      (directory : Directory) :
    Reaches first ⟨{ crowd with cache := { crowd.cache with directory := directory } }, map⟩

/-- The parts of a step of one call. -/
inductive Part (conditions : Conditions) (delivery : Delivery) (caller : Nat) (call : Call) :
    Guarded → Guarded → Prop where
  | take {crowd : Crowd} (uses : call.stage.usesMap = true) :
    Part conditions delivery caller call ⟨crowd, .free⟩ ⟨crowd, .taken caller⟩
  | use {crowd after : Crowd} (uses : call.stage.usesMap = true)
      (taken : crowd.step conditions delivery caller = some after) :
    Part conditions delivery caller call ⟨crowd, .taken caller⟩ ⟨after, .used caller⟩
  | giveBack {crowd : Crowd} :
    Part conditions delivery caller call ⟨crowd, .used caller⟩ ⟨crowd, .free⟩
  | apart {crowd after : Crowd} {map : MapLock} (apart : call.stage.usesMap = false)
      (clear : map ≠ .used caller) (taken : crowd.step conditions delivery caller = some after) :
    Part conditions delivery caller call ⟨crowd, map⟩ ⟨after, map⟩

variable {conditions : Conditions} {delivery : Delivery} {caller : Nat} {call : Call}
  {g after : Guarded}

/-- Every step of a guarded crowd is a part of a step of one of its calls. -/
theorem part_of_step (present : g.crowd.calls[caller]? = some call)
    (taken : g.step conditions delivery caller = some after) :
    Part conditions delivery caller call g after := by
  obtain ⟨crowd, map⟩ := g
  simp only [step, present] at taken
  split at taken
  next hused =>
    cases hused
    cases taken
    exact .giveBack
  next hclear =>
    split at taken
    next huses =>
      split at taken
      next htaken =>
        obtain ⟨stepped, hstep, rfl⟩ := Option.map_eq_some_iff.1 taken
        cases htaken
        exact .use huses hstep
      next =>
        split at taken
        next hfree =>
          cases hfree
          cases taken
          exact .take huses
        next => cases taken
    next hapart =>
      obtain ⟨stepped, hstep, rfl⟩ := Option.map_eq_some_iff.1 taken
      exact .apart (Bool.eq_false_iff.2 hapart) hclear hstep

/-! ## Guarded crowds and histories -/

/-- A guarded crowd has come to its crowd as calls do that use the map in one step. -/
theorem Reaches.exists_history {first : Guarded} (h : Reaches first g) :
    ∃ moments, History first.crowd moments g.crowd := by
  induction h with
  | start => exact ⟨[], .start⟩
  | step before present fits taken ih =>
    obtain ⟨moments, hist⟩ := ih
    cases part_of_step present taken with
    | take => exact ⟨moments, hist⟩
    | giveBack => exact ⟨moments, hist⟩
    | use uses stepped => exact ⟨_, hist.step present fits stepped⟩
    | apart apart clear stepped => exact ⟨_, hist.step present fits stepped⟩
  | outside before directory ih =>
    obtain ⟨moments, hist⟩ := ih
    exact ⟨_, hist.outside directory⟩

/-- A step of a call on a map that is free is a step or three of the guarded call. -/
theorem Reaches.of_crowd_step {first : Guarded} {crowd stepped : Crowd}
    (h : Reaches first ⟨crowd, .free⟩) (present : crowd.calls[caller]? = some call)
    (fits : conditions.Fits (place call.identity))
    (taken : crowd.step conditions delivery caller = some stepped) :
    Reaches first ⟨stepped, .free⟩ := by
  cases huses : call.stage.usesMap with
  | false =>
    have hstep : Guarded.step conditions delivery caller ⟨crowd, .free⟩ = some ⟨stepped, .free⟩ := by
      simp [Guarded.step, present, huses, taken]
    exact h.step present fits hstep
  | true =>
    have htake : Guarded.step conditions delivery caller ⟨crowd, .free⟩
        = some ⟨crowd, .taken caller⟩ := by
      simp [Guarded.step, present, huses]
    have huse : Guarded.step conditions delivery caller ⟨crowd, .taken caller⟩
        = some ⟨stepped, .used caller⟩ := by
      simp [Guarded.step, present, huses, taken]
    obtain ⟨before, stage, hbefore, hcalls, -⟩ := Crowd.exists_transition_of_step taken
    have hafter : stepped.calls[caller]? = some { before with stage := stage } := by
      rw [hcalls, getElem?_set_of_present hbefore, if_pos rfl]
    obtain rfl : before = call := by
      rw [hbefore] at present
      exact Option.some.inj present
    have hgiven : Guarded.step conditions delivery caller ⟨stepped, .used caller⟩
        = some ⟨stepped, .free⟩ := by
      simp [Guarded.step, hafter]
    exact ((h.step present fits htake).step present fits huse).step hafter fits hgiven

end Guarded

/-- Every history is one of guarded calls that find the map free and give it back at once. -/
theorem History.guarded {first crowd : Crowd} {moments : List Moment}
    (h : History first moments crowd) : Guarded.Reaches ⟨first, .free⟩ ⟨crowd, .free⟩ := by
  induction h with
  | start => exact .start
  | step before present fits taken ih => exact ih.of_crowd_step present fits taken
  | outside before directory ih => exact ih.outside directory

namespace Guarded

variable {conditions : Conditions} {delivery : Delivery} {caller : Nat} {call : Call}
  {g after first : Guarded}

/-! ## Who has the map -/

/-- A call that has the map is about to use it, or has just used it. It holds no lock of a key. -/
structure Orderly (g : Guarded) : Prop where
  taken : ∀ {i : Nat}, g.map = .taken i →
    ∃ call, g.crowd.calls[i]? = some call ∧ call.stage.usesMap = true
  used : ∀ {i : Nat}, g.map = .used i →
    ∃ call, g.crowd.calls[i]? = some call ∧ call.stage.holds = false

theorem Orderly.of_part (o : Orderly g) (present : g.crowd.calls[caller]? = some call)
    (part : Part conditions delivery caller call g after) : Orderly after := by
  cases part with
  | take uses =>
    constructor
    case taken =>
      intro i hi
      cases hi
      exact ⟨call, present, uses⟩
    case used => intro i hi; cases hi
  | giveBack => exact ⟨fun hi => (by cases hi), fun hi => (by cases hi)⟩
  | @use crowd after uses stepped =>
    constructor
    case taken => intro i hi; cases hi
    case used =>
      intro i hi
      cases hi
      obtain ⟨before, stage, hbefore, hcalls, htrans⟩ := Crowd.exists_transition_of_step stepped
      obtain rfl : before = call := by
        rw [present] at hbefore
        exact (Option.some.inj hbefore).symm
      refine ⟨_, by rw [hcalls, getElem?_set_of_present hbefore, if_pos rfl], ?_⟩
      exact htrans.idle_of_usesMap uses
  | @apart crowd after map apart clear stepped =>
    obtain ⟨before, stage, hbefore, hcalls, -⟩ := Crowd.exists_transition_of_step stepped
    obtain rfl : before = call := by
      rw [present] at hbefore
      exact (Option.some.inj hbefore).symm
    constructor
    case taken =>
      intro i hi
      obtain ⟨other, hother, huses⟩ := o.taken hi
      have hne : i ≠ caller := by
        rintro rfl
        rw [present] at hother
        cases hother
        rw [apart] at huses
        cases huses
      exact ⟨other, by rw [hcalls, getElem?_set_of_present hbefore, if_neg hne, hother], huses⟩
    case used =>
      intro i hi
      obtain ⟨other, hother, hidle⟩ := o.used hi
      have hne : i ≠ caller := by
        rintro rfl
        exact clear hi
      exact ⟨other, by rw [hcalls, getElem?_set_of_present hbefore, if_neg hne, hother], hidle⟩

theorem Reaches.orderly {crowd : Crowd} (h : Reaches ⟨crowd, .free⟩ g) : Orderly g := by
  induction h with
  | start => exact ⟨fun hi => (by cases hi), fun hi => (by cases hi)⟩
  | step before present fits taken ih => exact ih.of_part present (part_of_step present taken)
  | outside before directory ih => exact ⟨fun hi => ih.taken hi, fun hi => ih.used hi⟩

/-! ## Who has a step -/

/-- A call that has a step takes it, or a part of it, unless another call has the map that it
needs. -/
theorem isSome_step (present : g.crowd.calls[caller]? = some call)
    (map : call.stage.usesMap = true → ∀ j, g.map.holder? = some j → j = caller)
    (ready : call.step conditions delivery caller g.crowd.cache ≠ none) :
    (g.step conditions delivery caller).isSome = true := by
  have hcrowd : (g.crowd.step conditions delivery caller).isSome = true := by
    simp only [Crowd.step, present, Option.isSome_map]
    exact Option.isSome_iff_ne_none.2 ready
  simp only [step, present]
  split
  next => rfl
  next hclear =>
    split
    next huses =>
      split
      next => rw [Option.isSome_map]; exact hcrowd
      next htaken =>
        split
        next => rfl
        next hfree =>
          exfalso
          cases hmap : g.map with
          | free => exact hfree hmap
          | taken j => exact htaken (by rw [hmap, map huses j (by rw [hmap]; rfl)])
          | used j => exact hclear (by rw [hmap, map huses j (by rw [hmap]; rfl)])
    next => rw [Option.isSome_map]; exact hcrowd

/-- The call that has the map has a step. -/
theorem Orderly.isSome_step (o : Orderly g) (holder : g.map.holder? = some caller)
    (conditions : Conditions) (delivery : Delivery) :
    (g.step conditions delivery caller).isSome = true := by
  cases hmap : g.map with
  | free => rw [hmap] at holder; cases holder
  | taken j =>
    rw [hmap] at holder
    cases holder
    obtain ⟨call, hcall, huses⟩ := o.taken hmap
    refine Guarded.isSome_step hcall (fun _ i hi => ?_) fun hnone => ?_
    · rw [hmap] at hi
      exact (Option.some.inj hi).symm
    · -- neither a call that has ended nor one that waits for a lock is about to use the map
      rcases Call.step_eq_none_iff.1 hnone with ⟨outcome, hdone⟩ | ⟨number, hwaits, -⟩
      · rw [hdone] at huses
        cases huses
      · rw [hwaits] at huses
        cases huses
  | used j =>
    rw [hmap] at holder
    cases holder
    obtain ⟨call, hcall, -⟩ := o.used hmap
    simp only [step, hcall, hmap, if_pos]
    rfl

theorem Orderly.holder_idle (o : Orderly g) (holder : g.map.holder? = some caller) :
    ∃ call, g.crowd.calls[caller]? = some call ∧ call.stage.holds = false := by
  cases hmap : g.map with
  | free => rw [hmap] at holder; cases holder
  | taken j =>
    rw [hmap] at holder
    cases holder
    obtain ⟨call, hcall, huses⟩ := o.taken hmap
    refine ⟨call, hcall, ?_⟩
    generalize call.stage = stage at huses
    cases stage <;> first | rfl | cases huses
  | used j =>
    rw [hmap] at holder
    cases holder
    exact o.used hmap

end Guarded

/-! ## What the shares of a lock count -/

namespace Sharing

variable {locks : Locks} {calls : List Call}

/-- The calls that share the lock of a key are the calls for that key that share a lock. -/
theorem lock?_eq_some_iff (s : Sharing locks calls) {key : String} {number : Nat}
    (mapped : locks.inFlight.get? key = some number) {call : Call} (present : call ∈ calls) :
    call.stage.lock? = some number ↔ call.key = key ∧ call.sharesLock = true := by
  obtain ⟨i, hi⟩ := List.getElem?_of_mem present
  constructor
  · intro hlock
    exact ⟨s.injective (s.mapped hi hlock) mapped, by rw [Call.sharesLock, hlock]; rfl⟩
  · rintro ⟨rfl, hshares⟩
    obtain ⟨number', hlock⟩ := Option.isSome_iff_exists.1 hshares
    rw [s.mapped hi hlock] at mapped
    rw [hlock, Option.some.inj mapped]

/-- The map has a lock for a key exactly while a call for the key shares one. -/
theorem exists_get?_iff (s : Sharing locks calls) (key : String) :
    (∃ number, locks.inFlight.get? key = some number) ↔
      ∃ call ∈ calls, call.key = key ∧ call.sharesLock = true := by
  constructor
  · rintro ⟨number, hmap⟩
    obtain ⟨-, -, -, hpos⟩ := s.counted hmap
    obtain ⟨call, hmem, hlock⟩ := List.countP_pos_iff.1 hpos
    exact ⟨call, hmem, (s.lock?_eq_some_iff hmap hmem).1 (by simpa using hlock)⟩
  · rintro ⟨call, hmem, rfl, hshares⟩
    obtain ⟨i, hi⟩ := List.getElem?_of_mem hmem
    obtain ⟨number, hlock⟩ := Option.isSome_iff_exists.1 hshares
    exact ⟨number, s.mapped hi hlock⟩

theorem sharers_eq (s : Sharing locks calls) {key : String} {number : Nat}
    (mapped : locks.inFlight.get? key = some number) :
    sharers calls number = calls.countP fun call => call.key = key && call.sharesLock := by
  unfold sharers
  refine List.countP_congr fun call hmem => ?_
  simpa using s.lock?_eq_some_iff mapped hmem

/-- A call that waits for a lock can take it while no other call for its key holds one. -/
theorem acquire_ne_none (s : Sharing locks calls) {i number : Nat} {call : Call}
    (present : calls[i]? = some call) (waits : call.stage = .waiting number)
    (alone : ∀ j other, j ≠ i → calls[j]? = some other → other.stage.holds = true →
      other.key ≠ call.key) : locks.acquire number i ≠ none := by
  intro htaken
  have hlock : call.stage.lock? = some number := by rw [waits]; rfl
  have hmap := s.mapped present hlock
  obtain ⟨⟨shares, holder⟩, hfound, -⟩ := s.counted hmap
  cases holder with
  | none =>
    rw [Locks.acquire_eq_some_iff.2 ⟨shares, hfound, rfl⟩] at htaken
    cases htaken
  | some j =>
    obtain ⟨other, hj, hlock, hholds⟩ := s.holder hfound rfl
    have hne : j ≠ i := by
      rintro rfl
      rw [present] at hj
      cases hj
      rw [waits] at hholds
      cases hholds
    exact alone j other hne hj hholds (s.injective (s.mapped hj hlock) hmap)

end Sharing

/-! ## The whole -/

/-- What holds of the locks of a crowd, and of the calls that wait for them. -/
structure LocksFollowCalls (g : Guarded) : Prop where
  /-- The map has an entry for a key exactly while a call for the key is between taking its share
  and having left. -/
  entry : ∀ key, (∃ number, g.crowd.cache.locks.inFlight.get? key = some number) ↔
    ∃ call ∈ g.crowd.calls, call.key = key ∧ call.sharesLock = true
  /-- All these calls have the very lock of the map, and its shares are one more than they are. -/
  shared : ∀ key number, g.crowd.cache.locks.inFlight.get? key = some number →
    (∀ call ∈ g.crowd.calls, call.key = key → call.sharesLock = true →
      call.stage.lock? = some number) ∧
    ∃ lock, g.crowd.cache.locks.lock? number = some lock ∧
      lock.shares = (g.crowd.calls.countP fun call => call.key = key && call.sharesLock) + 1
  /-- The map is empty when no call is under way. -/
  empty : (∀ call ∈ g.crowd.calls, call.stage = .arriving ∨ ∃ outcome, call.stage = .done outcome) →
    g.crowd.cache.locks.inFlight = .empty
  /-- Some call has a step while a call has not ended or has not given the map back. -/
  lively : ((∃ call ∈ g.crowd.calls, ∀ outcome, call.stage ≠ .done outcome) ∨ g.map ≠ .free) →
    ∃ i, ∀ conditions delivery, (g.step conditions delivery i).isSome = true
  /-- The call that has the map holds no lock of a key, so it does not fetch, and has a step. -/
  mapHolder : ∀ i, g.map.holder? = some i →
    (∃ call, g.crowd.calls[i]? = some call ∧ call.stage.holds = false) ∧
    ∀ conditions delivery, (g.step conditions delivery i).isSome = true
  /-- A call has a step unless another call has the map, which it needs, or another call for the
  same key holds the lock. -/
  unhindered : ∀ i call, g.crowd.calls[i]? = some call →
    (∀ outcome, call.stage ≠ .done outcome) →
    (call.stage.usesMap = true → ∀ j, g.map.holder? = some j → j = i) →
    (∀ j other, j ≠ i → g.crowd.calls[j]? = some other → other.stage.holds = true →
      other.key ≠ call.key) →
    ∀ conditions delivery, (g.step conditions delivery i).isSome = true

/-- **Locks follow calls.** Of every crowd that calls come to from a cache without locks, in any
order of their steps, with any failures and any deliveries: the map has exactly the locks that calls
share, each with one share for the map and one for each of these calls, and no call is stuck. -/
theorem locks_follow_calls {root : String} {directory : Directory} {fetches : Nat}
    {ids : List Identity} {g : Guarded}
    (h : Guarded.Reaches (.start ⟨root, directory, .empty, fetches⟩ ids) g) :
    LocksFollowCalls g := by
  obtain ⟨moments, hist⟩ := h.exists_history
  have s : Sharing g.crowd.cache.locks g.crowd.calls := hist.sharing (Sharing.start ids)
  have o : g.Orderly := h.orderly
  constructor
  case entry => exact s.exists_get?_iff
  case shared =>
    intro key number hmap
    obtain ⟨lock, hfound, hshares, -⟩ := s.counted hmap
    refine ⟨fun call hmem hkey hshares => (s.lock?_eq_some_iff hmap hmem).2 ⟨hkey, hshares⟩,
      lock, hfound, ?_⟩
    rw [hshares, s.sharers_eq hmap]
  case empty =>
    intro hended
    refine NameMap.ext_get? fun key => ?_
    rw [NameMap.get?_empty, Option.eq_none_iff_forall_ne_some]
    intro number hmap
    obtain ⟨call, hmem, -, hshares⟩ := (s.exists_get?_iff key).1 ⟨number, hmap⟩
    rcases hended call hmem with hstage | ⟨outcome, hstage⟩
    all_goals
      rw [Call.sharesLock, hstage] at hshares
      cases hshares
  case lively =>
    intro hrunning
    cases hholder : g.map.holder? with
    | some i => exact ⟨i, o.isSome_step hholder⟩
    | none =>
      have hfree : g.map = .free := by
        cases hmap : g.map with
        | free => rfl
        | taken i => rw [hmap] at hholder; cases hholder
        | used i => rw [hmap] at hholder; cases hholder
      obtain ⟨i, call, hi, hstep⟩ := s.exists_step (hrunning.resolve_right fun h => h hfree)
      refine ⟨i, fun conditions delivery => ?_⟩
      refine Guarded.isSome_step hi (fun _ j hj => ?_) (hstep conditions delivery _ rfl)
      rw [hholder] at hj
      cases hj
  case mapHolder => exact fun i hholder => ⟨o.holder_idle hholder, o.isSome_step hholder⟩
  case unhindered =>
    intro i call hi hrunning hmap halone conditions delivery
    refine Guarded.isSome_step hi hmap fun hnone => ?_
    rcases Call.step_eq_none_iff.1 hnone with ⟨outcome, hdone⟩ | ⟨number, hwaits, htaken⟩
    · exact hrunning outcome hdone
    · exact s.acquire_ne_none hi hwaits halone htaken

/-- A module that nobody else asks for. -/
def rare : Identity := ⟨"legacy.pdb", "3A5B00C1", 3⟩

/-- One call fetches, another call for the same key waits, and a call for another key fetches at the
same time. The lock of the key that two calls ask for has three shares. -/
theorem locks_follow_calls_twoKeys :
    ∃ g, Guarded.Reaches (.start (.empty "cache") [popular, popular, rare]) g ∧
      g.crowd.calls.map (·.stage.rank) = [4, 2, 4] ∧ LocksFollowCalls g ∧
      ∃ number lock,
        g.crowd.cache.locks.inFlight.get? (Archive.relativePath popular) = some number ∧
        g.crowd.cache.locks.lock? number = some lock ∧ lock.shares = 3 := by
  have hends : ((Crowd.start (.empty "cache") [popular, popular, rare]).follow untroubled
      (.complete [1, 2, 3]) [0, 0, 0, 0, 1, 1, 2, 2, 2, 2]).any (fun crowd =>
        crowd.calls.map (fun call => (call.stage.rank, call.key = Archive.relativePath popular
          && call.sharesLock)) == [(4, true), (2, true), (4, false)]) = true := by
    decide +kernel
  obtain ⟨crowd, htaken, hstages⟩ := (Option.any_eq_true _ _).1 hends
  obtain ⟨moments, hist, -⟩ := History.start.follow htaken fun call hmem => by
    simp only [Crowd.start, List.map_cons, List.map_nil, List.mem_cons, List.not_mem_nil,
      or_false] at hmem
    rcases hmem with rfl | rfl | rfl
    all_goals
      unfold Conditions.Fits
      decide +kernel
  have hreach : Guarded.Reaches (.start (.empty "cache") [popular, popular, rare])
      ⟨crowd, .free⟩ := hist.guarded
  have hfollow := locks_follow_calls hreach
  have hlist := eq_of_beq hstages
  have hcount : (crowd.calls.countP fun call =>
      call.key = Archive.relativePath popular && call.sharesLock) = 2 := by
    have := congrArg (List.countP Prod.snd) hlist
    rw [List.countP_map] at this
    exact this
  obtain ⟨call, hmem, hcall⟩ := List.countP_pos_iff.1 (hcount ▸ Nat.zero_lt_two)
  obtain ⟨number, hmap⟩ := (hfollow.entry _).2 ⟨call, hmem, by simpa using hcall⟩
  obtain ⟨-, lock, hfound, hshares⟩ := hfollow.shared _ number hmap
  refine ⟨_, hreach, ?_, hfollow, number, lock, hmap, hfound, ?_⟩
  · have := congrArg (List.map Prod.fst) hlist
    rw [List.map_map] at this
    exact this
  · rw [hshares, hcount]

end OffsetService.Cache
