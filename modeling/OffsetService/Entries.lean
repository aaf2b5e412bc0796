/-!
# Entries by key

A list of entries is read by the first entry of a key. `lookup_erase` and `lookup_put` say what the
two changes do to the value of every key, so that nothing else about the list matters.
-/

namespace OffsetService.Entries

variable {κ α : Type} [BEq κ]

/-- The entries of other keys. -/
def erase (key : κ) (entries : List (κ × α)) : List (κ × α) :=
  entries.filter fun entry => entry.1 != key

/-- The entries with a value for a key, in place of what it had. -/
def put (key : κ) (value : α) (entries : List (κ × α)) : List (κ × α) :=
  (key, value) :: erase key entries

theorem lookup_cons (entry : κ × α) (rest : List (κ × α)) (key : κ) :
    (entry :: rest).lookup key = if key == entry.1 then some entry.2 else rest.lookup key := by
  obtain ⟨k, v⟩ := entry
  rw [List.lookup_cons]
  cases key == k <;> rfl

variable [LawfulBEq κ]

theorem lookup_erase [DecidableEq κ] (key other : κ) (entries : List (κ × α)) :
    (erase key entries).lookup other = if other = key then none else entries.lookup other := by
  induction entries with
  | nil => simp [erase]
  | cons entry rest ih =>
    obtain ⟨k, v⟩ := entry
    simp only [erase] at ih ⊢
    by_cases hk : k = key
    · subst hk
      simp only [List.filter_cons, bne_self_eq_false, Bool.false_eq_true, if_false, ih]
      by_cases ho : other = k
      · simp [ho]
      · have hne : (other == k) = false := by simpa using ho
        simp [ho, lookup_cons, hne]
    · have hkeep : (k != key) = true := by simpa using hk
      simp only [List.filter_cons, hkeep, if_true]
      by_cases ho : other = k
      · subst ho
        simp [lookup_cons, hk]
      · have hne : (other == k) = false := by simpa using ho
        simp [lookup_cons, hne, ih]

theorem lookup_put [DecidableEq κ] (key other : κ) (value : α) (entries : List (κ × α)) :
    (put key value entries).lookup other
      = if other = key then some value else entries.lookup other := by
  by_cases ho : other = key
  · subst ho
    simp [put]
  · have hne : (other == key) = false := by simpa using ho
    simp [put, lookup_cons, hne, lookup_erase, ho]

end OffsetService.Entries
