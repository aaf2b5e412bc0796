import Mathlib.Data.List.Chain
import Mathlib.Data.List.Nodup
import OffsetService.Proofs.Resolve.ByName

/-!
# What a walk looks up and visits

The indices that a walk looks up are the chain of field lists from its start, up to the first index
that comes again, is absent or is no field list (`Course`). There is exactly one such list
(`exists_course`, `Course.eq`), whatever cycle the chain runs into. A walk takes it station by
station, each index before the entries that are found there, and stops right after the first station
at which it fails (`walk_follows_course`).

What a walk does is seen by running it in a monad that notes every look-up and every visit
(`Watched`).
-/

namespace OffsetService.FieldList

open Resolve (listsOf)

/-! ## Chains of field lists -/

/-- The index at which a field list goes on. -/
def continuation? (record? : TypeIndex → Option TypeRecord) (index : TypeIndex) :
    Option TypeIndex :=
  match record? index with
  | some (.fieldList _ continuation) => continuation
  | _ => none

/-- What a walk comes to at an index that it looks up: the index, and the entries that it finds. -/
def stationsAt (record? : TypeIndex → Option TypeRecord) (index : TypeIndex) : List Station :=
  .list index :: match record? index with
    | some (.fieldList entries _) => entries.map .entry
    | _ => []

/-- The indices on the chain of field lists from `start` on. Each but the first continues the one
before, none comes twice, and the last is no field list, is not continued, or goes back to one that
has come before. -/
structure Course (record? : TypeIndex → Option TypeRecord) (start : TypeIndex)
    (indices : List TypeIndex) : Prop where
  first : indices.head? = some start
  linked : indices.IsChain fun index next => continuation? record? index = some next
  nodup : indices.Nodup
  ended : ∀ last next, indices.getLast? = some last → continuation? record? last = some next →
    next ∈ indices

variable {record? : TypeIndex → Option TypeRecord} {start : TypeIndex}

/-- A walk that has come to `index` along the chain from `start` goes on to the end of its course. -/
theorem exists_trailFrom (visited : Visited) (index : TypeIndex)
    (first : (visited.indices.reverse ++ [index]).head? = some start)
    (linked : (visited.indices.reverse ++ [index]).IsChain
      fun index next => continuation? record? index = some next) :
    ∃ indices, Course record? start (visited.indices.reverse ++ indices) ∧
      trailFrom record? visited index = indices.flatMap (stationsAt record?) := by
  rw [trailFrom]
  split
  next hagain =>
    -- the chain goes back to an index that has been visited
    have hne : visited.indices.reverse ≠ [] := by
      rw [ne_eq, List.reverse_eq_nil_iff]
      exact List.ne_nil_of_mem hagain
    refine ⟨[], ?_, rfl⟩
    rw [List.append_nil]
    refine ⟨?_, linked.left_of_append, List.nodup_reverse.2 visited.nodup, ?_⟩
    · rwa [List.head?_append_of_ne_nil _ hne] at first
    · intro last next hlast hnext
      have hindex := (List.isChain_append.1 linked).2.2 last hlast index rfl
      rw [hindex] at hnext
      cases hnext
      exact List.mem_reverse.2 hagain
  next hnew =>
    have hnodup : (visited.indices.reverse ++ [index]).Nodup := by
      have h := List.nodup_reverse.2 (visited.add index hnew).nodup
      rwa [Visited.add, List.reverse_cons] at h
    -- the course of a walk that has no index to go on to
    have hends : continuation? record? index = none →
        Course record? start (visited.indices.reverse ++ [index]) := fun hnone =>
      ⟨first, linked, hnodup, fun last next hlast hnext => by
        rw [List.getLast?_concat] at hlast
        cases hlast
        rw [hnone] at hnext
        cases hnext⟩
    split
    next entries continuation hrecord =>
      cases continuation with
      | none =>
        refine ⟨[index], hends (by simp [continuation?, hrecord]), ?_⟩
        simp [stationsAt, hrecord]
      | some next =>
        have hnext : continuation? record? index = some next := by simp [continuation?, hrecord]
        have hlater : (visited.add index hnew).indices.reverse = visited.indices.reverse ++ [index] :=
          List.reverse_cons
        obtain ⟨rest, hcourse, htrail⟩ := exists_trailFrom (visited.add index hnew) next
          (by
            rw [hlater, List.head?_append, first]
            rfl)
          (by
            rw [hlater, List.append_assoc]
            exact List.isChain_append_cons_cons.2 ⟨linked, hnext, .singleton next⟩)
        rw [hlater, List.append_assoc] at hcourse
        refine ⟨index :: rest, hcourse, ?_⟩
        simp [stationsAt, hrecord, htrail]
    next hother =>
      have hnone : continuation? record? index = none := by
        unfold continuation?
        split
        next entries continuation hrecord => exact absurd hrecord (hother entries continuation)
        next => rfl
      refine ⟨[index], hends hnone, ?_⟩
      have hstations : stationsAt record? index = [.list index] := by
        unfold stationsAt
        split
        next entries continuation hrecord => exact absurd hrecord (hother entries continuation)
        next => rfl
      simp [hstations]
termination_by visited.remaining
decreasing_by exact visited.remaining_add_lt ‹_›

/-- Every index has a course, and a walk takes it. -/
theorem exists_course (record? : TypeIndex → Option TypeRecord) (start : TypeIndex) :
    ∃ indices, Course record? start indices ∧
      trail record? start = indices.flatMap (stationsAt record?) :=
  exists_trailFrom Visited.none start rfl (.singleton start)

/-- Of two chains from one index, one goes on with the other. -/
theorem prefix_or_prefix {indices others : List TypeIndex} (first : indices.head? = others.head?)
    (linked : indices.IsChain fun index next => continuation? record? index = some next)
    (linked' : others.IsChain fun index next => continuation? record? index = some next) :
    indices <+: others ∨ others <+: indices := by
  induction indices generalizing others with
  | nil => exact .inl List.nil_prefix
  | cons index rest ih =>
    cases others with
    | nil => cases first
    | cons other rest' =>
      cases first
      rw [List.isChain_cons] at linked linked'
      obtain ⟨hlink, hrest⟩ := linked
      obtain ⟨hlink', hrest'⟩ := linked'
      cases hhead : rest.head? with
      | none =>
        rw [List.head?_eq_none_iff] at hhead
        rw [hhead]
        exact .inl (List.cons_prefix_cons.2 ⟨rfl, List.nil_prefix⟩)
      | some next =>
        cases hhead' : rest'.head? with
        | none =>
          rw [List.head?_eq_none_iff] at hhead'
          rw [hhead']
          exact .inr (List.cons_prefix_cons.2 ⟨rfl, List.nil_prefix⟩)
        | some next' =>
          have hsame := (hlink next hhead).symm.trans (hlink' next' hhead')
          rw [← hhead, ← hhead'] at hsame
          exact (ih hsame hrest hrest').imp (fun h => List.cons_prefix_cons.2 ⟨rfl, h⟩)
            fun h => List.cons_prefix_cons.2 ⟨rfl, h⟩

/-- A course that has ended does not go on. -/
theorem Course.eq_of_prefix {indices others : List TypeIndex}
    (h : Course record? start indices) (h' : Course record? start others)
    (hbegins : indices <+: others) : others = indices := by
  obtain ⟨rest, rfl⟩ := hbegins
  cases rest with
  | nil => exact List.append_nil indices
  | cons next rest =>
    have hne : indices ≠ [] := by
      rintro rfl
      cases h.first
    have hlast := List.getLast?_eq_some_getLast hne
    have hlink := (List.isChain_append.1 h'.linked).2.2 _ hlast next rfl
    have hmem := h.ended _ next hlast hlink
    exact absurd rfl ((List.nodup_append.1 h'.nodup).2.2 next hmem next List.mem_cons_self)

/-- Every index has one course. -/
theorem Course.eq {indices others : List TypeIndex} (h : Course record? start indices)
    (h' : Course record? start others) : others = indices := by
  rcases prefix_or_prefix (h.first.trans h'.first.symm) h.linked h'.linked with hbegins | hbegins
  · exact h.eq_of_prefix h' hbegins
  · exact (h'.eq_of_prefix h hbegins).symm

theorem Course.length_le {indices : List TypeIndex} (h : Course record? start indices) :
    indices.length ≤ Visited.indexCount :=
  Visited.length_le ⟨indices, h.nodup⟩

theorem listsOf_flatMap (indices : List TypeIndex) :
    listsOf (indices.flatMap (stationsAt record?)) = indices := by
  induction indices with
  | nil => rfl
  | cons index rest ih =>
    have hentries : ∀ entries : List FieldEntry, listsOf (entries.map .entry) = [] := by
      intro entries
      simp [listsOf]
    have hstations : listsOf (stationsAt record? index) = [index] := by
      unfold stationsAt
      split
      next entries _ _ => exact congrArg (index :: ·) (hentries entries)
      next => rfl
    rw [List.flatMap_cons, listsOf, List.filterMap_append, ← listsOf, ← listsOf, hstations, ih]
    rfl

/-! ## Watching a walk -/

/-- A computation that notes the stations it comes to, also when it fails. -/
structure Watched (α : Type) where
  stations : List Station
  outcome : Except Fault α

namespace Watched

variable {α β : Type}

/-- One computation, then, after success, the next. -/
def andThen (x : Watched α) (f : α → Watched β) : Watched β :=
  match x.outcome with
  | .error fault => ⟨x.stations, .error fault⟩
  | .ok a => ⟨x.stations ++ (f a).stations, (f a).outcome⟩

instance : Monad Watched where
  pure a := ⟨[], .ok a⟩
  bind := andThen

instance : LawfulMonad Watched :=
  LawfulMonad.mk' Watched
    (fun x => by
      obtain ⟨stations, outcome⟩ := x
      cases outcome with
      | error fault => rfl
      | ok a => exact congrArg (Watched.mk · (.ok a)) (List.append_nil stations))
    (fun _ _ => rfl)
    (fun x f g => by
      obtain ⟨stations, outcome⟩ := x
      cases outcome with
      | error fault => rfl
      | ok a =>
        show andThen ⟨stations ++ (f a).stations, (f a).outcome⟩ g
          = ⟨stations ++ (andThen (f a) g).stations, (andThen (f a) g).outcome⟩
        unfold andThen
        cases (f a).outcome with
        | error fault => rfl
        | ok b => exact congrArg (Watched.mk · _) (List.append_assoc _ _ _))

theorem bind_of_error {x : Watched α} {fault : Fault} (h : x.outcome = .error fault)
    (f : α → Watched β) : x >>= f = ⟨x.stations, .error fault⟩ := by
  show andThen x f = _
  rw [andThen, h]

theorem bind_of_ok {x : Watched α} {a : α} (h : x.outcome = .ok a) (f : α → Watched β) :
    x >>= f = ⟨x.stations ++ (f a).stations, (f a).outcome⟩ := by
  show andThen x f = _
  rw [andThen, h]

end Watched

variable {σ : Type}

/-- A walk that notes what it looks up and visits. -/
def watchedWalk (lookup : Lookup) (visit : σ → FieldEntry → Traced σ) (start : TypeIndex) (s : σ) :
    Watched σ :=
  walk (fun index => ⟨[.list index], (lookup index).outcome⟩) (fun _ => pure ())
    (fun s entry => ⟨[.entry entry], (visit s entry).outcome⟩) start s

/-- One station, noted. -/
def pass (lookup : Lookup) (visit : σ → FieldEntry → Traced σ) (s : σ) (station : Station) :
    Watched σ :=
  ⟨[station], proceed lookup visit s station⟩

/-- A walk passes the stations of its trail in order. -/
theorem watched_walkFrom (lookup : Lookup) (visit : σ → FieldEntry → Traced σ) (visited : Visited)
    (index : TypeIndex) (s : σ) :
    walkFrom (m := Watched) (fun index => ⟨[.list index], (lookup index).outcome⟩)
        (fun _ => pure ()) (fun s entry => ⟨[.entry entry], (visit s entry).outcome⟩) visited index s
      = (trailFrom lookup.record? visited index).foldlM (pass lookup visit) s := by
  rw [walkFrom, trailFrom]
  split
  next => rfl
  next hnew =>
    cases hindex : (lookup index).outcome with
    | error fault =>
      have hrecord : lookup.record? index = none := by simp [Lookup.record?, hindex]
      have hpass : (pass lookup visit s (.list index)).outcome = .error fault := by
        simp [pass, proceed, hindex, Except.map]
      rw [hrecord, List.foldlM_cons, Watched.bind_of_error hpass, Watched.bind_of_error rfl]
      rfl
    | ok record =>
      have hrecord : lookup.record? index = record := by simp [Lookup.record?, hindex]
      have hpass : (pass lookup visit s (.list index)).outcome = .ok s := by
        simp [pass, proceed, hindex, Except.map]
      have hlast : [Station.list index].foldlM (pass lookup visit) s = ⟨[.list index], .ok s⟩ := by
        rw [List.foldlM_cons, Watched.bind_of_ok hpass]
        rfl
      rw [hrecord, Watched.bind_of_ok rfl]
      rcases record with _ | record
      · exact hlast.symm
      · cases record with
        | fieldList entries continuation =>
          have hentries : ∀ s, (entries.map Station.entry).foldlM (pass lookup visit) s
              = entries.foldlM
                (fun s entry => (⟨[.entry entry], (visit s entry).outcome⟩ : Watched σ)) s :=
            fun s => List.foldlM_map ..
          dsimp only
          rw [List.foldlM_cons, Watched.bind_of_ok hpass, List.foldlM_append, hentries]
          cases continuation with
          | none => rfl
          | some next =>
            simp only [watched_walkFrom lookup visit (visited.add index hnew) next]
            rfl
        | _ => exact hlast.symm
termination_by visited.remaining
decreasing_by exact visited.remaining_add_lt ‹_›

section Stations

variable {lookup : Lookup} {visit : σ → FieldEntry → Traced σ} {stations : List Station} {s : σ}

/-- Noting the stations changes nothing. -/
theorem outcome_foldlM_pass (lookup : Lookup) (visit : σ → FieldEntry → Traced σ)
    (stations : List Station) (s : σ) :
    (stations.foldlM (pass lookup visit) s).outcome
      = stations.foldlM (proceed lookup visit) s := by
  induction stations generalizing s with
  | nil => rfl
  | cons station rest ih =>
    rw [List.foldlM_cons, List.foldlM_cons]
    cases hstation : proceed lookup visit s station with
    | error fault => rw [Watched.bind_of_error hstation]; rfl
    | ok s' =>
      rw [Watched.bind_of_ok hstation]
      exact ih s'

/-- What is passed without a failure is all that there is. -/
theorem stations_foldlM_pass {last : σ}
    (h : stations.foldlM (proceed lookup visit) s = .ok last) :
    (stations.foldlM (pass lookup visit) s).stations = stations := by
  induction stations generalizing s with
  | nil => rfl
  | cons station rest ih =>
    rw [List.foldlM_cons] at h ⊢
    cases hstation : proceed lookup visit s station with
    | error fault =>
      rw [hstation] at h
      cases h
    | ok s' =>
      rw [hstation] at h
      rw [Watched.bind_of_ok hstation]
      exact congrArg (station :: ·) (ih h)

/-- A failure is that of the last station, and those before it were passed. -/
theorem exists_station_of_error {fault : Fault}
    (h : stations.foldlM (proceed lookup visit) s = .error fault) :
    ∃ before station rest between, stations = before ++ station :: rest ∧
      (stations.foldlM (pass lookup visit) s).stations = before ++ [station] ∧
      before.foldlM (proceed lookup visit) s = .ok between ∧
      proceed lookup visit between station = .error fault := by
  induction stations generalizing s with
  | nil => cases h
  | cons station rest ih =>
    rw [List.foldlM_cons] at h ⊢
    cases hstation : proceed lookup visit s station with
    | error fault' =>
      rw [hstation] at h
      cases h
      rw [Watched.bind_of_error hstation]
      exact ⟨[], station, rest, s, rfl, rfl, rfl, hstation⟩
    | ok s' =>
      rw [hstation] at h
      obtain ⟨before, failed, behind, between, rfl, hpassed, hbefore, hfailed⟩ := ih h
      rw [Watched.bind_of_ok hstation]
      refine ⟨station :: before, failed, behind, between, rfl, ?_, ?_, hfailed⟩
      · exact congrArg (station :: ·) hpassed
      · rw [List.foldlM_cons, hstation]
        exact hbefore

end Stations

/-- **A walk along field lists.** From every index there is exactly one course, whatever the look-up
gives, and it has no index twice. A walk looks up the indices of the course and visits the entries
found at each, in this order: all of them, or those up to the first look-up or visit that fails, and
then its fault is the outcome. So no index is looked up twice. The walk that is watched ends as the
walk itself does. -/
theorem walk_follows_course (lookup : Lookup) (visit : σ → FieldEntry → Traced σ)
    (start : TypeIndex) (s : σ) :
    ∃ indices, Course lookup.record? start indices ∧
      (∀ others, Course lookup.record? start others → others = indices) ∧
      indices.length ≤ Visited.indexCount ∧
      let stations := indices.flatMap (stationsAt lookup.record?)
      let watched := watchedWalk lookup visit start s
      watched.outcome = (walk lookup Traced.report visit start s).outcome ∧
      (listsOf watched.stations).Nodup ∧
      (∀ last, watched.outcome = .ok last → watched.stations = stations ∧
        stations.foldlM (proceed lookup visit) s = .ok last) ∧
      ∀ fault, watched.outcome = .error fault → ∃ before station rest between,
        stations = before ++ station :: rest ∧ watched.stations = before ++ [station] ∧
        before.foldlM (proceed lookup visit) s = .ok between ∧
        proceed lookup visit between station = .error fault := by
  obtain ⟨indices, course, htrail⟩ := exists_course lookup.record? start
  have hwatched : watchedWalk lookup visit start s
      = (indices.flatMap (stationsAt lookup.record?)).foldlM (pass lookup visit) s := by
    rw [← htrail]
    exact watched_walkFrom lookup visit Visited.none start s
  have houtcome := outcome_foldlM_pass lookup visit
    (indices.flatMap (stationsAt lookup.record?)) s
  refine ⟨indices, course, fun others => course.eq, course.length_le, ?_⟩
  dsimp only
  rw [hwatched, houtcome, outcome_walk, htrail]
  refine ⟨rfl, ?_, fun last hlast => ⟨stations_foldlM_pass hlast, hlast⟩,
    fun fault => exists_station_of_error⟩
  have hlists : listsOf (indices.flatMap (stationsAt lookup.record?)) = indices :=
    listsOf_flatMap indices
  -- what has been passed is a first part of the course
  have hpassed : (listsOf ((indices.flatMap (stationsAt lookup.record?)).foldlM
      (pass lookup visit) s).stations).Sublist indices := by
    cases hresult : (indices.flatMap (stationsAt lookup.record?)).foldlM (proceed lookup visit) s with
    | ok last =>
      rw [stations_foldlM_pass hresult, hlists]
    | error fault =>
      obtain ⟨before, station, rest, -, hstations, hbefore, -⟩ := exists_station_of_error hresult
      have hbegins : (before ++ [station]).Sublist (indices.flatMap (stationsAt lookup.record?)) := by
        rw [hstations, List.append_cons before station rest]
        exact List.sublist_append_left ..
      rw [hbefore, ← hlists]
      exact hbegins.filterMap _
  exact course.nodup.sublist hpassed

end OffsetService.FieldList
