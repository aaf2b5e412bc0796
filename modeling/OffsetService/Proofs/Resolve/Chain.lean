import OffsetService.Resolve.Types

/-!
# What a walk comes to

A walk along a chain of field lists looks up indices and visits entries. `FieldList.trail` lists them
in order, as far as the records go: the chain ends where an index comes again, where nothing or no
field list is found, and where a list is not continued. A look-up that fails counts as one that finds
nothing, so the trail ends there too.

`outcome_walk` says that a walk is its trail, taken step by step: it fails at the first look-up or
visit that fails, and otherwise has visited every entry of the trail. What a query has to look up is
therefore a list of indices that is known beforehand, and `Lookup.after` is an answer that stands
once all of them have been looked up.
-/

namespace OffsetService

/-! ## Look-ups that may fail -/

namespace Lookup

variable {α β : Type}

/-- The record that a look-up finds. One that fails finds none. -/
def record? (lookup : Lookup) (index : TypeIndex) : Option TypeRecord :=
  match (lookup index).outcome with
  | .ok record => record
  | .error _ => none

/-- Why a look-up fails. -/
def fault? (lookup : Lookup) (index : TypeIndex) : Option Fault :=
  match (lookup index).outcome with
  | .ok _ => none
  | .error fault => some fault

/-- An answer once these indices have been looked up, in order: the first look-up that fails puts
its fault in place of the answer. -/
def after (lookup : Lookup) (indices : List TypeIndex) (answer : α) : Except Fault α :=
  match indices.findSome? lookup.fault? with
  | some fault => .error fault
  | none => .ok answer

theorem after_eq_error_iff {lookup : Lookup} {indices : List TypeIndex} {answer : α}
    {fault : Fault} :
    lookup.after indices answer = .error fault ↔ indices.findSome? lookup.fault? = some fault := by
  unfold after
  cases indices.findSome? lookup.fault? <;> simp

theorem after_eq_ok_iff {lookup : Lookup} {indices : List TypeIndex} {answer found : α} :
    lookup.after indices answer = .ok found ↔
      indices.findSome? lookup.fault? = none ∧ found = answer := by
  unfold after
  cases indices.findSome? lookup.fault? <;> simp [eq_comm]

theorem after_nil (lookup : Lookup) (answer : α) : lookup.after [] answer = .ok answer := rfl

/-- What comes after a first look-up depends on it only through the record that it finds. -/
theorem bind_eq_after {lookup : Lookup} {index : TypeIndex} {indices : List TypeIndex} {answer : α}
    {next : Option TypeRecord → Except Fault α}
    (h : next (lookup.record? index) = lookup.after indices answer) :
    ((lookup index).outcome >>= next) = lookup.after (index :: indices) answer := by
  cases hindex : (lookup index).outcome with
  | error fault =>
    have hfault : lookup.fault? index = some fault := by simp [fault?, hindex]
    simp only [after, List.findSome?_cons, hfault]
    rfl
  | ok record =>
    have hrecord : lookup.record? index = record := by simp [record?, hindex]
    have hfault : lookup.fault? index = none := by simp [fault?, hindex]
    simp only [after, List.findSome?_cons, hfault]
    rw [hrecord] at h
    exact h

/-- Look-ups after look-ups. -/
theorem after_bind {lookup : Lookup} {indices more : List TypeIndex} {a : α} {b : β}
    {next : α → Except Fault β} (h : next a = lookup.after more b) :
    (lookup.after indices a >>= next) = lookup.after (indices ++ more) b := by
  cases hfirst : indices.findSome? lookup.fault? with
  | some fault =>
    simp only [after, List.findSome?_append, hfirst]
    rfl
  | none =>
    have hok : lookup.after indices a = .ok a := by simp [after, hfirst]
    rw [hok]
    simp only [after, List.findSome?_append, hfirst, Option.none_or] at h ⊢
    exact h

/-- What comes after look-ups and makes none itself changes the answer alone. -/
theorem after_bind_ok {lookup : Lookup} {indices : List TypeIndex} {a : α} {b : β}
    {next : α → Except Fault β} (h : next a = .ok b) :
    (lookup.after indices a >>= next) = lookup.after indices b := by
  have hnone : next a = lookup.after [] b := h
  rw [after_bind hnone, List.append_nil]

end Lookup

/-! ## Trails -/

namespace FieldList

/-- What a walk along a chain of field lists comes to. -/
inductive Station where
  /-- An index that is looked up. -/
  | list (index : TypeIndex)
  /-- An entry of a field list that was found. -/
  | entry (entry : FieldEntry)

/-- The trail from an index on, when some indices have been visited before. -/
def trailFrom (record? : TypeIndex → Option TypeRecord) (visited : Visited) (index : TypeIndex) :
    List Station :=
  if h : index ∈ visited.indices then []
  else
    match record? index with
    | some (.fieldList entries continuation) =>
      .list index :: (entries.map .entry ++
        match continuation with
        | some next => trailFrom record? (visited.add index h) next
        | none => [])
    | _ => [.list index]
termination_by visited.remaining
decreasing_by exact visited.remaining_add_lt h

/-- What a walk from an index comes to. -/
def trail (record? : TypeIndex → Option TypeRecord) (index : TypeIndex) : List Station :=
  trailFrom record? Visited.none index

/-- The entries on a trail. -/
def entriesOf (stations : List Station) : List FieldEntry :=
  stations.filterMap fun
    | .entry entry => some entry
    | .list _ => none

variable {σ : Type}

/-- The state of a walk behind one more station. -/
def proceed (lookup : Lookup) (visit : σ → FieldEntry → Traced σ) (s : σ) : Station → Except Fault σ
  | .list index => (lookup index).outcome.map fun _ => s
  | .entry entry => (visit s entry).outcome

theorem foldlM_proceed_entries (lookup : Lookup) (visit : σ → FieldEntry → Traced σ)
    (entries : List FieldEntry) (s : σ) :
    (entries.map Station.entry).foldlM (proceed lookup visit) s = (entries.foldlM visit s).outcome := by
  induction entries generalizing s with
  | nil => rfl
  | cons entry rest ih =>
    rw [List.map_cons, List.foldlM_cons, List.foldlM_cons, Traced.outcome_bind]
    congr 1
    funext s'
    exact ih s'

theorem outcome_walkFrom_eq_foldlM (lookup : Lookup) (visit : σ → FieldEntry → Traced σ)
    (visited : Visited) (index : TypeIndex) (s : σ) :
    (walkFrom lookup Traced.report visit visited index s).outcome
      = (trailFrom lookup.record? visited index).foldlM (proceed lookup visit) s := by
  rw [walkFrom, trailFrom]
  split
  next => rfl
  next hnew =>
    rw [Traced.outcome_bind]
    cases hindex : (lookup index).outcome with
    | error fault =>
      have hrecord : lookup.record? index = none := by simp [Lookup.record?, hindex]
      rw [hrecord]
      simp only [List.foldlM_cons, proceed, hindex]
      rfl
    | ok record =>
      have hrecord : lookup.record? index = record := by simp [Lookup.record?, hindex]
      have hproceed : proceed lookup visit s (.list index) = .ok s := by
        rw [proceed, hindex]
        rfl
      rw [hrecord]
      show Traced.outcome (match record with | some (.fieldList _ _) => _ | _ => _) = _
      split
      next entries continuation =>
        rw [List.foldlM_cons, hproceed]
        show _ = List.foldlM _ s _
        rw [List.foldlM_append, foldlM_proceed_entries, Traced.outcome_bind]
        congr 1
        funext s'
        cases continuation with
        | none => rfl
        | some next => exact outcome_walkFrom_eq_foldlM lookup visit (visited.add index hnew) next s'
      next =>
        simp only [List.foldlM_cons, hproceed]
        rfl
termination_by visited.remaining
decreasing_by exact visited.remaining_add_lt ‹_›

/-- A walk is its trail, taken step by step. -/
theorem outcome_walk (lookup : Lookup) (visit : σ → FieldEntry → Traced σ) (index : TypeIndex)
    (s : σ) :
    (walk lookup Traced.report visit index s).outcome
      = (trail lookup.record? index).foldlM (proceed lookup visit) s :=
  outcome_walkFrom_eq_foldlM lookup visit Visited.none index s

end FieldList

end OffsetService
