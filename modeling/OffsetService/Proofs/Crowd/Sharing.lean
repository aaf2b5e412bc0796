import OffsetService.Proofs.Crowd.Transition
import OffsetService.Proofs.LockTable

/-!
# How calls share locks

`Sharing` is what the locks and the calls of a crowd agree on: a call shares the lock that the map
has for its key, the shares of a lock are the calls that share it and the map, and a call holds a
lock exactly when the lock names it. Every transition keeps it (`Sharing.step`), and with it two
calls that hold locks are for different keys (`Sharing.eq_of_holds`), whatever happens to files.

Joining and leaving are the steps that need the count. A call that leaves with two shares left is
the only one that shares the lock, so no call can be left with a lock that the map has no more.
-/

namespace OffsetService.Cache

/-- How many calls share a lock. -/
def sharers (calls : List Call) (number : Nat) : Nat :=
  calls.countP fun call => call.stage.lock? == some number

/-- A call holds a lock exactly when the lock names it. -/
structure Holding (locks : Locks) (calls : List Call) : Prop where
  held : ∀ {i : Nat} {call : Call} {number : Nat}, calls[i]? = some call →
    call.stage.lock? = some number → call.stage.holds = true →
    ∃ lock, locks.lock? number = some lock ∧ lock.holder = some i
  holder : ∀ {number i : Nat} {lock : Lock}, locks.lock? number = some lock →
    lock.holder = some i →
    ∃ call, calls[i]? = some call ∧ call.stage.lock? = some number ∧ call.stage.holds = true

/-- What locks and calls agree on. -/
structure Sharing (locks : Locks) (calls : List Call) : Prop extends Holding locks calls where
  mapped : ∀ {i : Nat} {call : Call} {number : Nat}, calls[i]? = some call →
    call.stage.lock? = some number → locks.inFlight.get? call.key = some number
  counted : ∀ {key : String} {number : Nat}, locks.inFlight.get? key = some number →
    ∃ lock, locks.lock? number = some lock ∧ lock.shares = sharers calls number + 1 ∧
      0 < sharers calls number
  injective : ∀ {key other : String} {number : Nat}, locks.inFlight.get? key = some number →
    locks.inFlight.get? other = some number → key = other
  below : ∀ {key : String} {number : Nat}, locks.inFlight.get? key = some number →
    number < locks.next

variable {locks : Locks} {calls : List Call} {i : Nat} {call : Call} {stage : Stage}

/-! ## One call moved on -/

theorem getElem?_set_of_present (present : calls[i]? = some call) (after : Call) (j : Nat) :
    (calls.set i after)[j]? = if j = i then some after else calls[j]? := by
  obtain ⟨hlt, -⟩ := List.getElem?_eq_some_iff.1 present
  rw [List.getElem?_set]
  by_cases hj : j = i
  · subst hj
    simp [hlt]
  · simp [hj, Ne.symm hj]

/-- A call that moves on takes its own share from one lock to another. -/
theorem sharers_set (present : calls[i]? = some call) (after : Call) (number : Nat) :
    sharers (calls.set i after) number + (if call.stage.lock? = some number then 1 else 0)
      = sharers calls number + (if after.stage.lock? = some number then 1 else 0) := by
  obtain ⟨hlt, hget⟩ := List.getElem?_eq_some_iff.1 present
  unfold sharers
  rw [List.countP_set hlt, hget]
  by_cases hc : call.stage.lock? = some number
  · have hpos : 0 < calls.countP fun c => c.stage.lock? == some number :=
      List.countP_pos_iff.2 ⟨call, List.mem_of_getElem? present, by simp [hc]⟩
    simp only [hc, beq_self_eq_true, if_true, beq_iff_eq]
    omega
  · simp [hc]

/-- A call that takes its first share adds one to the shares of that lock. -/
theorem sharers_set_of_none (present : calls[i]? = some call) (after : Call) {number : Nat}
    (outside : call.stage.lock? = none) (shares : after.stage.lock? = some number) (n : Nat) :
    sharers (calls.set i after) n = sharers calls n + if n = number then 1 else 0 := by
  have := sharers_set present after n
  rw [outside, shares] at this
  simpa [eq_comm] using this

/-- A call that gives its share back takes one from the shares of that lock. -/
theorem sharers_set_of_some (present : calls[i]? = some call) (after : Call) {number : Nat}
    (shares : call.stage.lock? = some number) (outside : after.stage.lock? = none) (n : Nat) :
    sharers (calls.set i after) n + (if n = number then 1 else 0) = sharers calls n := by
  have := sharers_set present after n
  rw [outside, shares] at this
  simpa [eq_comm] using this

theorem sharers_set_of_lock?_eq (present : calls[i]? = some call) (after : Call)
    (same : after.stage.lock? = call.stage.lock?) (number : Nat) :
    sharers (calls.set i after) number = sharers calls number := by
  have := sharers_set present after number
  rw [same] at this
  omega

theorem sharers_pos (present : calls[i]? = some call) {number : Nat}
    (shares : call.stage.lock? = some number) : 0 < sharers calls number :=
  List.countP_pos_iff.2 ⟨call, List.mem_of_getElem? present, by simp [shares]⟩

namespace Holding

/-- A call without a hold moves on to a stage without one. -/
theorem set_idle (h : Holding locks calls) (present : calls[i]? = some call) (stage : Stage)
    (idle : call.stage.holds = false) (idle' : stage.holds = false) :
    Holding locks (calls.set i { call with stage := stage }) := by
  constructor
  case held =>
    intro j other number hj hlock hholds
    rw [getElem?_set_of_present present] at hj
    split at hj
    next =>
      cases hj
      rw [show stage.holds = true from hholds] at idle'
      cases idle'
    next => exact h.held hj hlock hholds
  case holder =>
    intro number j lock hfound hholder
    obtain ⟨other, hj, hlock, hholds⟩ := h.holder hfound hholder
    have hne : j ≠ i := by
      rintro rfl
      rw [present] at hj
      cases hj
      rw [hholds] at idle
      cases idle
    exact ⟨other, by rw [getElem?_set_of_present present, if_neg hne, hj], hlock, hholds⟩

/-- The shares of a lock say nothing about its holder. -/
theorem put_shares (h : Holding locks calls) {number : Nat} {lock : Lock}
    (found : locks.lock? number = some lock) (shares : Nat) :
    Holding (locks.put number { lock with shares := shares }) calls := by
  constructor
  case held =>
    intro j other n hj hlock hholds
    obtain ⟨lock', hfound', hholder⟩ := h.held hj hlock hholds
    rw [Locks.lock?_put]
    by_cases heq : n = number
    · subst heq
      rw [found] at hfound'
      cases hfound'
      exact ⟨_, if_pos rfl, hholder⟩
    · exact ⟨lock', by rw [if_neg heq, hfound'], hholder⟩
  case holder =>
    intro n j lock' hfound' hholder
    rw [Locks.lock?_put] at hfound'
    split at hfound'
    next heq =>
      cases hfound'
      subst heq
      exact h.holder found hholder
    next => exact h.holder hfound' hholder

/-- Locks that nobody holds may come and go. -/
theorem congr_locks (h : Holding locks calls) {locks' : Locks}
    (stays : ∀ {j : Nat} {other : Call} {number : Nat}, calls[j]? = some other →
      other.stage.lock? = some number → other.stage.holds = true →
      locks'.lock? number = locks.lock? number)
    (known : ∀ {number j : Nat} {lock : Lock}, locks'.lock? number = some lock →
      lock.holder = some j → locks.lock? number = some lock) :
    Holding locks' calls := by
  constructor
  case held =>
    intro j other number hj hlock hholds
    rw [stays hj hlock hholds]
    exact h.held hj hlock hholds
  case holder =>
    intro number j lock hfound hholder
    exact h.holder (known hfound hholder) hholder

/-- A call moves on and holds what it held. -/
theorem quiet (h : Holding locks calls) (present : calls[i]? = some call)
    (same : stage.lock? = call.stage.lock?) (holds : stage.holds = call.stage.holds) :
    Holding locks (calls.set i { call with stage := stage }) := by
  constructor
  case held =>
    intro j other number hj hlock hholds
    rw [getElem?_set_of_present present] at hj
    split at hj
    next heq => cases hj; subst heq; exact h.held present (same ▸ hlock) (holds ▸ hholds)
    next => exact h.held hj hlock hholds
  case holder =>
    intro number j lock hfound hholder
    obtain ⟨other, hj, hlock, hholds⟩ := h.holder hfound hholder
    rw [getElem?_set_of_present present]
    split
    next heq =>
      subst heq
      rw [present] at hj
      cases hj
      exact ⟨_, rfl, same ▸ hlock, holds ▸ hholds⟩
    next => exact ⟨other, hj, hlock, hholds⟩

/-- A call takes the lock that it shares, or lets go of it: the lock had no other holder before and
names the call afterwards exactly if the call then holds it. -/
theorem handover (h : Holding locks calls) (present : calls[i]? = some call) (stage : Stage)
    {number : Nat} {lock : Lock} (shares : call.stage.lock? = some number)
    (same : stage.lock? = some number) (found : locks.lock? number = some lock)
    (free : ∀ j, lock.holder = some j → j = i) :
    Holding (locks.put number { lock with holder := if stage.holds then some i else none })
      (calls.set i { call with stage := stage }) := by
  constructor
  case held =>
    intro j other n hj hlock hholds
    rw [getElem?_set_of_present present] at hj
    split at hj
    next heq =>
      cases hj
      subst heq
      rw [same] at hlock
      cases hlock
      refine ⟨_, by rw [Locks.lock?_put, if_pos rfl], ?_⟩
      simp [show stage.holds = true from hholds]
    next hne =>
      -- another call that holds this lock would be its holder
      obtain ⟨lock', hfound, hholder⟩ := h.held hj hlock hholds
      by_cases hn : n = number
      · subst hn
        rw [found] at hfound
        cases hfound
        exact absurd (free j hholder) hne
      · exact ⟨lock', by rw [Locks.lock?_put, if_neg hn, hfound], hholder⟩
  case holder =>
    intro n j lock' hfound hholder
    rw [Locks.lock?_put] at hfound
    rw [getElem?_set_of_present present]
    split at hfound
    next heq =>
      cases hfound
      subst heq
      cases hstage : stage.holds with
      | true =>
        simp only [hstage, if_true, Option.some.injEq] at hholder
        exact ⟨_, if_pos hholder.symm, same, hstage⟩
      | false => simp [hstage] at hholder
    next hn =>
      obtain ⟨other, hj, hlock, hholds⟩ := h.holder hfound hholder
      split
      next heq =>
        subst heq
        rw [present] at hj
        cases hj
        rw [shares] at hlock
        exact absurd (Option.some.inj hlock).symm hn
      next => exact ⟨other, hj, hlock, hholds⟩

end Holding

namespace Sharing

/-- Two calls for one key never hold a lock at the same time. -/
theorem eq_of_holds (s : Sharing locks calls) {j : Nat} {other : Call}
    (present : calls[i]? = some call) (present' : calls[j]? = some other)
    (holds : call.stage.holds = true) (holds' : other.stage.holds = true)
    (key : call.key = other.key) : i = j := by
  obtain ⟨number, hlock⟩ := Stage.exists_lock?_of_holds holds
  obtain ⟨number', hlock'⟩ := Stage.exists_lock?_of_holds holds'
  have hmap := s.mapped present hlock
  rw [key, s.mapped present' hlock'] at hmap
  obtain rfl := Option.some.inj hmap
  obtain ⟨lock, hfound, hholder⟩ := s.held present hlock holds
  obtain ⟨lock', hfound', hholder'⟩ := s.held present' hlock' holds'
  rw [hfound] at hfound'
  obtain rfl := Option.some.inj hfound'
  rw [hholder] at hholder'
  exact Option.some.inj hholder'

/-- Before any call has begun, nothing is shared. -/
theorem start (ids : List Identity) : Sharing .empty (ids.map Call.new) := by
  have hnew : ∀ {i : Nat} {call : Call}, (ids.map Call.new)[i]? = some call →
      call.stage = .arriving := by
    intro i call h
    obtain ⟨id, -, rfl⟩ := List.mem_map.1 (List.mem_of_getElem? h)
    rfl
  constructor
  case toHolding =>
    constructor
    case held =>
      intro i call number h hlock
      rw [hnew h] at hlock
      cases hlock
    case holder => intro number i lock h; cases h
  case mapped =>
    intro i call number h hlock
    rw [hnew h] at hlock
    cases hlock
  case counted => intro key number h; cases h
  case injective => intro key other number h; cases h
  case below => intro key number h; cases h

/-- The calls find their locks in the map as before when one of them moves on with its lock. -/
theorem mapped_set_of_lock?_eq (s : Sharing locks calls) (present : calls[i]? = some call)
    (same : stage.lock? = call.stage.lock?) {j : Nat} {other : Call} {number : Nat}
    (hj : (calls.set i { call with stage := stage })[j]? = some other)
    (shares : other.stage.lock? = some number) :
    locks.inFlight.get? other.key = some number := by
  rw [getElem?_set_of_present present] at hj
  split at hj
  next =>
    cases hj
    have hcall : call.stage.lock? = some number := same ▸ shares
    have hmap := s.mapped present hcall
    exact hmap
  next => exact s.mapped hj shares

/-- A step that neither takes nor leaves a lock. -/
theorem quiet (s : Sharing locks calls) (present : calls[i]? = some call)
    (same : stage.lock? = call.stage.lock?) (holds : stage.holds = call.stage.holds) :
    Sharing locks (calls.set i { call with stage := stage }) := by
  have hcount := sharers_set_of_lock?_eq present { call with stage := stage } same
  constructor
  case toHolding => exact s.toHolding.quiet present same holds
  case mapped => exact s.mapped_set_of_lock?_eq present same
  case counted =>
    intro key number hmap
    rw [hcount]
    exact s.counted hmap
  case injective => exact s.injective
  case below => exact s.below

/-- A step that takes the lock which a call shares, or lets go of it. -/
theorem handover (s : Sharing locks calls) (present : calls[i]? = some call) (stage : Stage)
    {number : Nat} {lock : Lock} (shares : call.stage.lock? = some number)
    (same : stage.lock? = some number) (found : locks.lock? number = some lock)
    (free : ∀ j, lock.holder = some j → j = i) :
    Sharing (locks.put number { lock with holder := if stage.holds then some i else none })
      (calls.set i { call with stage := stage }) := by
  have hsame := same.trans shares.symm
  have hcount := sharers_set_of_lock?_eq present { call with stage := stage } hsame
  constructor
  case toHolding => exact s.toHolding.handover present stage shares same found free
  case mapped => exact s.mapped_set_of_lock?_eq present hsame
  case counted =>
    intro key n hmap
    obtain ⟨lock', hfound, hshares, hpos⟩ := s.counted hmap
    rw [hcount, Locks.lock?_put]
    by_cases hn : n = number
    · subst hn
      rw [found] at hfound
      cases hfound
      exact ⟨_, if_pos rfl, hshares, hpos⟩
    · exact ⟨lock', by rw [if_neg hn, hfound], hshares, hpos⟩
  case injective => exact s.injective
  case below => exact s.below

/-- A step that takes a share of the lock that the map has for the key. -/
theorem join_of_some (s : Sharing locks calls) (present : calls[i]? = some call)
    (outside : call.stage.lock? = none) {number : Nat}
    (hmap : locks.inFlight.get? call.key = some number) :
    Sharing (locks.join call.key).1
      (calls.set i { call with stage := .waiting (locks.join call.key).2 }) := by
  obtain ⟨lock, hfound, hshares, -⟩ := s.counted hmap
  rw [Locks.join_of_some hmap hfound]
  dsimp only
  have hidle := Stage.holds_eq_false_of_lock?_eq_none outside
  constructor
  case toHolding => exact (s.set_idle present _ hidle rfl).put_shares hfound _
  case mapped =>
    intro j other n hj hlock
    rw [getElem?_set_of_present present] at hj
    split at hj
    next => cases hj; cases hlock; exact hmap
    next => exact s.mapped hj hlock
  case counted =>
    intro key n hkey
    obtain ⟨lock', hfound', hshares', hpos⟩ := s.counted hkey
    rw [sharers_set_of_none present _ outside rfl, Locks.lock?_put]
    by_cases heq : n = number
    · subst heq
      rw [hfound] at hfound'
      cases hfound'
      exact ⟨_, if_pos rfl, by simp [hshares], by simp⟩
    · rw [if_neg heq, if_neg heq]
      exact ⟨lock', hfound', hshares', hpos⟩
  case injective => exact s.injective
  case below => exact s.below

/-- A step that makes the lock of the key and takes a share of it. -/
theorem join_of_none (s : Sharing locks calls) (present : calls[i]? = some call)
    (outside : call.stage.lock? = none) (hmap : locks.inFlight.get? call.key = none) :
    Sharing (locks.join call.key).1
      (calls.set i { call with stage := .waiting (locks.join call.key).2 }) := by
  obtain ⟨hnumber, hnext, hget, hlock?⟩ := Locks.join_of_none hmap
  rw [hnumber]
  have hidle := Stage.holds_eq_false_of_lock?_eq_none outside
  have hholding := s.set_idle present (.waiting locks.next) hidle rfl
  -- the number of the new lock is no number that the map had
  have hnew : ∀ {key n}, locks.inFlight.get? key = some n → n ≠ locks.next :=
    fun hkey => Nat.ne_of_lt (s.below hkey)
  have hkeys : ∀ {key n}, (locks.join call.key).1.inFlight.get? key = some n →
      (key = call.key ∧ n = locks.next) ∨ locks.inFlight.get? key = some n := by
    intro key n h
    rw [hget] at h
    split at h
    next heq => exact .inl ⟨heq, (Option.some.inj h).symm⟩
    next => exact .inr h
  constructor
  case toHolding =>
    refine hholding.congr_locks (fun hj hlock hholds => ?_) fun hfound hholder => ?_
    · rw [hlock?, if_neg]
      rw [getElem?_set_of_present present] at hj
      split at hj
      next => cases hj; cases hholds
      next => exact hnew (s.mapped hj hlock)
    · rw [hlock?] at hfound
      split at hfound
      next => cases hfound; cases hholder
      next => exact hfound
  case mapped =>
    intro j other n hj hlock
    rw [getElem?_set_of_present present] at hj
    rw [hget]
    split at hj
    next => cases hj; cases hlock; exact if_pos rfl
    next =>
      have hold := s.mapped hj hlock
      rw [if_neg fun heq => by rw [heq, hmap] at hold; cases hold]
      exact hold
  case counted =>
    intro key n hkey
    rw [sharers_set_of_none present _ outside rfl, hlock?]
    rcases hkeys hkey with ⟨-, rfl⟩ | hold
    · have hzero : sharers calls locks.next = 0 := by
        refine List.countP_eq_zero.2 fun other hmem hshares => ?_
        obtain ⟨j, hj⟩ := List.getElem?_of_mem hmem
        exact hnew (s.mapped hj (by simpa using hshares)) rfl
      rw [hzero, if_pos rfl, if_pos rfl]
      exact ⟨_, rfl, rfl, by omega⟩
    · rw [if_neg (hnew hold), if_neg (hnew hold)]
      exact s.counted hold
  case injective =>
    intro key other n h h'
    rcases hkeys h with ⟨rfl, rfl⟩ | hold <;> rcases hkeys h' with ⟨rfl, hn⟩ | hold'
    · rfl
    · exact absurd rfl (hnew hold')
    · exact absurd hn (hnew hold)
    · exact s.injective hold hold'
  case below =>
    intro key n h
    rw [hnext]
    rcases hkeys h with ⟨-, rfl⟩ | hold
    · omega
    · have := s.below hold
      omega

/-- The calls that still share a lock find it in the map as before. -/
theorem mapped_set (s : Sharing locks calls) (present : calls[i]? = some call)
    (outside : stage.lock? = none) {j : Nat} {other : Call} {number : Nat}
    (hj : (calls.set i { call with stage := stage })[j]? = some other)
    (shares : other.stage.lock? = some number) :
    locks.inFlight.get? other.key = some number := by
  rw [getElem?_set_of_present present] at hj
  split at hj
  next =>
    cases hj
    rw [show stage.lock? = some number from shares] at outside
    cases outside
  next => exact s.mapped hj shares

/-- A step that gives back a share of a lock that other calls share. -/
theorem leave_of_shared (s : Sharing locks calls) (present : calls[i]? = some call) {number : Nat}
    {lock : Lock} (shares : call.stage.lock? = some number) (idle : call.stage.holds = false)
    (outside : stage.lock? = none) (found : locks.lock? number = some lock)
    (shared : 2 < lock.shares) :
    Sharing (locks.leave call.key number) (calls.set i { call with stage := stage }) := by
  rw [Locks.leave_of_shared found shared]
  have hcount := sharers_set_of_some present { call with stage := stage } shares outside
  constructor
  case toHolding =>
    have hidle := Stage.holds_eq_false_of_lock?_eq_none outside
    exact (s.set_idle present stage idle hidle).put_shares found _
  case mapped => exact s.mapped_set present outside
  case counted =>
    intro key n hkey
    obtain ⟨lock', hfound', hshares', hpos'⟩ := s.counted hkey
    have hn := hcount n
    rw [Locks.lock?_put]
    by_cases heq : n = number
    · subst heq
      rw [found] at hfound'
      cases hfound'
      rw [if_pos rfl] at hn ⊢
      exact ⟨_, rfl, by dsimp only; omega, by omega⟩
    · rw [if_neg heq] at hn ⊢
      exact ⟨lock', hfound', by omega, by omega⟩
  case injective => exact s.injective
  case below => exact s.below

/-- A step that gives back the last share of a lock but that of the map. Nobody else shares the
lock, so nobody misses it. -/
theorem leave_of_last (s : Sharing locks calls) (present : calls[i]? = some call) {number : Nat}
    {lock : Lock} (shares : call.stage.lock? = some number) (idle : call.stage.holds = false)
    (outside : stage.lock? = none) (found : locks.lock? number = some lock)
    (last : lock.shares = 2) :
    Sharing (locks.leave call.key number) (calls.set i { call with stage := stage }) := by
  have hmap := s.mapped present shares
  obtain ⟨hnext, hget, hlock?⟩ := Locks.leave_of_last hmap found last
  have hholding := s.set_idle present stage idle (Stage.holds_eq_false_of_lock?_eq_none outside)
  have hcount := sharers_set_of_some present { call with stage := stage } shares outside
  have hnone : ∀ {j : Nat} {other : Call} {n : Nat},
      (calls.set i { call with stage := stage })[j]? = some other →
      other.stage.lock? = some n → n ≠ number := by
    rintro j other n hj hlock rfl
    obtain ⟨lock', hfound', hshares, -⟩ := s.counted hmap
    rw [found] at hfound'
    cases hfound'
    have hleft := hcount n
    rw [if_pos rfl] at hleft
    have := sharers_pos hj hlock
    omega
  have hkeys : ∀ {key n}, (locks.leave call.key number).inFlight.get? key = some n →
      key ≠ call.key ∧ locks.inFlight.get? key = some n := by
    intro key n h
    rw [hget] at h
    split at h
    next => cases h
    next hne => exact ⟨hne, h⟩
  constructor
  case toHolding =>
    refine hholding.congr_locks (fun hj hlock _ => ?_) fun hfound _ => ?_
    · rw [hlock?, if_neg (hnone hj hlock)]
    · rw [hlock?] at hfound
      split at hfound
      next => cases hfound
      next => exact hfound
  case mapped =>
    intro j other n hj hlock
    have hold := s.mapped_set present outside hj hlock
    rw [hget, if_neg, hold]
    intro heq
    rw [heq, hmap] at hold
    exact hnone hj hlock (Option.some.inj hold).symm
  case counted =>
    intro key n h
    obtain ⟨hne, hold⟩ := hkeys h
    have hn : n ≠ number := by
      rintro rfl
      exact hne (s.injective hold hmap)
    have hsame := hcount n
    rw [if_neg hn, Nat.add_zero] at hsame
    rw [hlock?, if_neg hn, hsame]
    exact s.counted hold
  case injective =>
    intro key other n h h'
    exact s.injective (hkeys h).2 (hkeys h').2
  case below =>
    intro key n h
    rw [hnext]
    exact s.below (hkeys h).2

/-! ## One step of a crowd -/

/-- Every transition of a call keeps what locks and calls agree on. -/
theorem step (s : Sharing locks calls) (present : calls[i]? = some call)
    {conditions : Conditions} {delivery : Delivery} {cache after : Cache}
    (hlocks : cache.locks = locks)
    (h : Transition conditions delivery i call.identity cache call.stage after stage) :
    Sharing after.locks (calls.set i { call with stage := stage }) := by
  subst hlocks
  generalize hstage : call.stage = before at h
  cases h with
  | refused => exact s.quiet present (by rw [hstage]; rfl) (by rw [hstage]; rfl)
  | hit => exact s.quiet present (by rw [hstage]; rfl) (by rw [hstage]; rfl)
  | miss => exact s.quiet present (by rw [hstage]; rfl) (by rw [hstage]; rfl)
  | filled => exact s.quiet present (by rw [hstage]; rfl) (by rw [hstage]; rfl)
  | absent => exact s.quiet present (by rw [hstage]; rfl) (by rw [hstage]; rfl)
  | unreceived => exact s.quiet present (by rw [hstage]; rfl) (by rw [hstage]; rfl)
  | received => exact s.quiet present (by rw [hstage]; rfl) (by rw [hstage]; rfl)
  | unplaced => exact s.quiet present (by rw [hstage]; rfl) (by rw [hstage]; rfl)
  | placed => exact s.quiet present (by rw [hstage]; rfl) (by rw [hstage]; rfl)
  | join =>
    have houtside : call.stage.lock? = none := by rw [hstage]; rfl
    cases hmap : cache.locks.inFlight.get? call.key with
    | none => exact s.join_of_none present houtside hmap
    | some number => exact s.join_of_some present houtside hmap
  | @acquire number locks free =>
    obtain ⟨shares, hfound, rfl⟩ := Locks.acquire_eq_some_iff.1 free
    exact s.handover present (.checking number) (by rw [hstage]; rfl) rfl hfound
      fun j hj => by cases hj
  | @release number outcome =>
    have hshares : call.stage.lock? = some number := by rw [hstage]; rfl
    obtain ⟨lock, hfound, hholder⟩ := s.held present hshares (by rw [hstage]; rfl)
    dsimp only
    rw [Locks.release_of_some hfound]
    exact s.handover present (.leaving number outcome) hshares rfl hfound
      fun j hj => by rw [hholder] at hj; exact (Option.some.inj hj).symm
  | @leave number outcome =>
    have hshares : call.stage.lock? = some number := by rw [hstage]; rfl
    have hidle : call.stage.holds = false := by rw [hstage]; rfl
    obtain ⟨lock, hfound, hcount, hpos⟩ := s.counted (s.mapped present hshares)
    by_cases hlast : lock.shares = 2
    · exact s.leave_of_last present hshares hidle rfl hfound hlast
    · exact s.leave_of_shared present hshares hidle rfl hfound (by omega)

/-! ## No crowd is stuck -/

/-- While some call has not ended, some call has a step, whatever the conditions: a call waits only
for a lock whose holder does not wait. -/
theorem exists_step (s : Sharing locks calls)
    (running : ∃ call ∈ calls, ∀ outcome, call.stage ≠ .done outcome) :
    ∃ (i : Nat) (call : Call), calls[i]? = some call ∧
      ∀ (conditions : Conditions) (delivery : Delivery) (cache : Cache), cache.locks = locks →
        call.step conditions delivery i cache ≠ none := by
  obtain ⟨call, hmem, hrunning⟩ := running
  obtain ⟨i, hi⟩ := List.getElem?_of_mem hmem
  by_cases hwaits : ∃ number, call.stage = .waiting number ∧ locks.acquire number i = none
  · obtain ⟨number, hstage, htaken⟩ := hwaits
    obtain ⟨lock, hfound, -⟩ := s.counted (s.mapped hi (by rw [hstage]; rfl))
    cases hholder : lock.holder with
    | none =>
      obtain ⟨shares, holder⟩ := lock
      obtain rfl : holder = none := hholder
      have hfree : locks.acquire number i = some (locks.put number ⟨shares, some i⟩) :=
        Locks.acquire_eq_some_iff.2 ⟨shares, hfound, rfl⟩
      rw [htaken] at hfree
      cases hfree
    | some j =>
      obtain ⟨other, hj, -, hholds⟩ := s.holder hfound hholder
      refine ⟨j, other, hj, fun conditions delivery cache hlocks hnone => ?_⟩
      rcases Call.step_eq_none_iff.1 hnone with ⟨outcome, hdone⟩ | ⟨number', hwaiting, -⟩
      · rw [hdone] at hholds
        cases hholds
      · rw [hwaiting] at hholds
        cases hholds
  · refine ⟨i, call, hi, fun conditions delivery cache hlocks hnone => ?_⟩
    rcases Call.step_eq_none_iff.1 hnone with ⟨outcome, hdone⟩ | ⟨number, hwaiting, htaken⟩
    · exact hrunning outcome hdone
    · exact hwaits ⟨number, hwaiting, hlocks ▸ htaken⟩

end Sharing

end OffsetService.Cache
