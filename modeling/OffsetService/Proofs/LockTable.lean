import OffsetService.Cache.Locks

/-!
# What the operations on locks do

A table of locks is read in two ways: the number of the lock of a key, and the lock with a number.
Each operation changes what these two answer at one key or one number (`Locks.put` and
`Locks.remove` are the changes at one number), and the lemmas say to what. They suppose what holds
of every table in use, that the number of a key is the number of a lock.
-/

namespace OffsetService.Locks

/-- The table with another lock at one number. -/
def put (l : Locks) (number : Nat) (lock : Lock) : Locks :=
  { l with objects := Entries.put number lock l.objects }

/-- The table without the lock at one number. -/
def remove (l : Locks) (number : Nat) : Locks :=
  { l with objects := Entries.erase number l.objects }

variable {l : Locks} {key : String} {number : Nat} {lock : Lock}

@[simp] theorem inFlight_put : (l.put number lock).inFlight = l.inFlight := rfl

@[simp] theorem next_put : (l.put number lock).next = l.next := rfl

@[simp] theorem lock?_put (other : Nat) :
    (l.put number lock).lock? other = if other = number then some lock else l.lock? other :=
  Entries.lookup_put number other lock l.objects

theorem lock?_remove (l : Locks) (number other : Nat) :
    (l.remove number).lock? other = if other = number then none else l.lock? other :=
  Entries.lookup_erase number other l.objects

/-- Who finds a lock in the map takes one more share in it. -/
theorem join_of_some (mapped : l.inFlight.get? key = some number)
    (found : l.lock? number = some lock) :
    l.join key = (l.put number { lock with shares := lock.shares + 1 }, number) := by
  simp only [join, mapped, found]
  rfl

/-- Who finds none makes one, with a share of its own and one of the map. -/
theorem join_of_none (unmapped : l.inFlight.get? key = none) :
    (l.join key).2 = l.next ∧ (l.join key).1.next = l.next + 1 ∧
      (∀ other, (l.join key).1.inFlight.get? other
        = if other = key then some l.next else l.inFlight.get? other) ∧
      ∀ other, (l.join key).1.lock? other
        = if other = l.next then some ⟨2, none⟩ else l.lock? other := by
  simp only [join, unmapped]
  refine ⟨trivial, trivial, fun other => ?_, fun other => ?_⟩
  · rw [NameMap.get?_addNew]
    by_cases ho : other = key
    · simp [ho, unmapped]
    · simp [ho]
  · exact Entries.lookup_put l.next other ⟨2, none⟩ l.objects

/-- A lock is taken when nobody holds it, and then has a holder. -/
theorem acquire_eq_some_iff {caller : Nat} {after : Locks} :
    l.acquire number caller = some after ↔
      ∃ shares, l.lock? number = some ⟨shares, none⟩ ∧
        after = l.put number ⟨shares, some caller⟩ := by
  unfold acquire
  split
  next shares hfree =>
    rw [hfree]
    constructor
    · intro h
      exact ⟨shares, rfl, (Option.some.inj h).symm⟩
    · rintro ⟨shares', h, rfl⟩
      cases h
      rfl
  next hother =>
    constructor
    · intro h
      cases h
    · rintro ⟨shares, h, -⟩
      exact absurd h (hother shares)

theorem release_of_some (found : l.lock? number = some lock) :
    l.release number = l.put number { lock with holder := none } := by
  simp only [release, found]
  rfl

/-- Who leaves a lock that others share takes its own share along. -/
theorem leave_of_shared (found : l.lock? number = some lock) (shared : 2 < lock.shares) :
    l.leave key number = l.put number { lock with shares := lock.shares - 1 } := by
  have hone : ¬lock.shares ≤ 1 := by omega
  have htwo : ¬lock.shares = 2 := by omega
  simp only [leave, found, drop, if_neg hone, if_neg htwo]
  rfl

/-- Who leaves a lock that only the map shares takes the lock and its key out. -/
theorem leave_of_last (mapped : l.inFlight.get? key = some number)
    (found : l.lock? number = some lock) (last : lock.shares = 2) :
    (l.leave key number).next = l.next ∧
      (∀ other, (l.leave key number).inFlight.get? other
        = if other = key then none else l.inFlight.get? other) ∧
      ∀ other, (l.leave key number).lock? other
        = if other = number then none else l.lock? other := by
  have hleft : l.drop number = l.put number { lock with shares := 1 } := by
    simp [drop, found, last, put]
  have hgone : (l.put number { lock with shares := 1 }).drop number
      = (l.put number { lock with shares := 1 }).remove number := by
    simp [drop, remove]
  simp only [leave, found, last, hleft, if_true, inFlight_put, mapped, hgone]
  refine ⟨rfl, fun other => NameMap.get?_erase l.inFlight key other, fun other => ?_⟩
  have hother := lock?_remove (l.put number { lock with shares := 1 }) number other
  rw [lock?_put] at hother
  refine hother.trans ?_
  by_cases ho : other = number <;> simp [ho]

end OffsetService.Locks
