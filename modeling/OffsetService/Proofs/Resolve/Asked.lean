import OffsetService.Proofs.Resolve.Answers

/-!
# What a query asks for

`structLookups` and `enumLookups` list all that may have to be looked up for a query; a query stops
at the first look-up that fails, so what it does look up are those before it, and that one
(`Lookup.made`). Two look-ups that agree on these are the same to the query, whatever else they find
(`outcome_structs_of_agrees`, `outcome_enums_of_agrees`).

The look-ups that are made are cut where the first one fails, and what comes next is only known from
the records found before, so agreement is handed on step by step: agreement on the look-ups of a
sequence is agreement on those of its first part and, if that part does not fail, on those of the
second (`Lookup.Agrees.left`, `Lookup.Agrees.right`).
-/

namespace OffsetService

namespace Lookup

/-- The indices of a list that are looked up when the first failure ends it. -/
def made (lookup : Lookup) : List TypeIndex → List TypeIndex
  | [] => []
  | index :: rest =>
    index :: match lookup.fault? index with
      | some _ => []
      | none => made lookup rest

/-- Whether another look-up finds the same at all indices of a list that are looked up. -/
def Agrees (lookup lookup' : Lookup) (indices : List TypeIndex) : Prop :=
  ∀ index ∈ lookup.made indices, (lookup' index).outcome = (lookup index).outcome

variable {lookup lookup' : Lookup} {index : TypeIndex} {first second : List TypeIndex}

theorem Agrees.head (h : Agrees lookup lookup' (index :: second)) :
    (lookup' index).outcome = (lookup index).outcome :=
  h index List.mem_cons_self

/-- Behind a look-up that succeeds the next ones are made. -/
theorem Agrees.tail (h : Agrees lookup lookup' (index :: second)) {record : Option TypeRecord}
    (hrecord : (lookup index).outcome = .ok record) : Agrees lookup lookup' second := by
  have hfault : lookup.fault? index = none := by simp [fault?, hrecord]
  intro next hnext
  apply h
  rw [made, hfault]
  exact List.mem_cons_of_mem _ hnext

theorem made_append (lookup : Lookup) (first second : List TypeIndex) :
    lookup.made (first ++ second) = lookup.made first ++
      if first.findSome? lookup.fault? = none then lookup.made second else [] := by
  induction first with
  | nil => simp [made]
  | cons index rest ih =>
    rw [List.cons_append, made, made, List.findSome?_cons]
    cases lookup.fault? index with
    | some fault => simp
    | none => simp [ih]

theorem Agrees.left (h : Agrees lookup lookup' (first ++ second)) :
    Agrees lookup lookup' first := by
  intro index hindex
  apply h
  rw [made_append]
  exact List.mem_append_left _ hindex

theorem Agrees.right (h : Agrees lookup lookup' (first ++ second))
    (hfirst : first.findSome? lookup.fault? = none) : Agrees lookup lookup' second := by
  intro index hindex
  apply h
  rw [made_append, if_pos hfirst]
  exact List.mem_append_right _ hindex

end Lookup

open Lookup (Agrees)

/-! ## Walks -/

namespace FieldList

variable {σ : Type} {lookup lookup' : Lookup} {visit visit' : σ → FieldEntry → Traced σ}

/-- Whether two ways to visit entries do the same while a list of what is still looked up, which
depends on the state, is agreed on. -/
structure VisitsAlike (lookup lookup' : Lookup) (visit visit' : σ → FieldEntry → Traced σ)
    (needed : σ → List Station → List TypeIndex) : Prop where
  list : ∀ s index rest, needed s (.list index :: rest) = index :: needed s rest
  visit : ∀ s entry rest, Agrees lookup lookup' (needed s (.entry entry :: rest)) →
    (visit' s entry).outcome = (visit s entry).outcome ∧
      ∀ s', (visit s entry).outcome = .ok s' → Agrees lookup lookup' (needed s' rest)

variable {needed : σ → List Station → List TypeIndex}

theorem VisitsAlike.entries (h : VisitsAlike lookup lookup' visit visit' needed)
    (entries : List FieldEntry) (rest : List Station) (s : σ)
    (hagrees : Agrees lookup lookup' (needed s (entries.map .entry ++ rest))) :
    (entries.foldlM visit' s).outcome = (entries.foldlM visit s).outcome ∧
      ∀ s', (entries.foldlM visit s).outcome = .ok s' → Agrees lookup lookup' (needed s' rest) := by
  induction entries generalizing s with
  | nil =>
    refine ⟨rfl, fun s' hs' => ?_⟩
    cases hs'
    exact hagrees
  | cons entry entries ih =>
    obtain ⟨hentry, hrest⟩ := h.visit s entry _ hagrees
    rw [List.foldlM_cons, List.foldlM_cons, Traced.outcome_bind, Traced.outcome_bind, hentry]
    cases hvisit : (visit s entry).outcome with
    | error fault => exact ⟨rfl, fun s' hs' => by cases hs'⟩
    | ok next => exact ih next (hrest next hvisit)

/-- The trail from an index that is new begins with it. -/
theorem trailFrom_of_new (record? : TypeIndex → Option TypeRecord) {visited : Visited}
    {index : TypeIndex} (hnew : index ∉ visited.indices) :
    trailFrom record? visited index = .list index :: match record? index with
      | some (.fieldList entries continuation) => entries.map .entry ++
        match continuation with
        | some next => trailFrom record? (visited.add index hnew) next
        | none => []
      | _ => [] := by
  rw [trailFrom, dif_neg hnew]
  rcases record? index with _ | record
  · rfl
  · cases record <;> rfl

/-- A walk under two look-ups that agree on what it looks up. -/
theorem VisitsAlike.outcome_walkFrom (h : VisitsAlike lookup lookup' visit visit' needed)
    (visited : Visited) (index : TypeIndex) (s : σ)
    (hagrees : Agrees lookup lookup' (needed s (trailFrom lookup.record? visited index))) :
    (walkFrom lookup' Traced.report visit' visited index s).outcome
      = (walkFrom lookup Traced.report visit visited index s).outcome := by
  rw [walkFrom, walkFrom]
  split
  next => rfl
  next hnew =>
    rw [trailFrom_of_new _ hnew, h.list] at hagrees
    rw [Traced.outcome_bind, Traced.outcome_bind, hagrees.head]
    cases hrecord : (lookup index).outcome with
    | error fault => rfl
    | ok record =>
      have hfound : lookup.record? index = record := by simp [Lookup.record?, hrecord]
      have hbehind := hagrees.tail hrecord
      rw [hfound] at hbehind
      rcases record with _ | record
      · rfl
      · cases record with
        | fieldList entries continuation =>
          obtain ⟨hentries, hrest⟩ := h.entries entries _ s hbehind
          show (entries.foldlM visit' s >>= _).outcome = (entries.foldlM visit s >>= _).outcome
          rw [Traced.outcome_bind, Traced.outcome_bind, hentries]
          cases hvisit : (entries.foldlM visit s).outcome with
          | error fault => rfl
          | ok s' =>
            cases continuation with
            | none => rfl
            | some next =>
              exact h.outcome_walkFrom (visited.add index hnew) next s' (hrest s' hvisit)
        | _ => rfl
termination_by visited.remaining
decreasing_by exact visited.remaining_add_lt ‹_›

end FieldList

namespace Resolve

open FieldList (Station trail trailFrom VisitsAlike)

variable {lookup lookup' : Lookup}

/-! ## Structures -/

/-- The wanted names without a place so far. -/
def left (wanted : NameSet) (found : NameMap FieldPlace) : NameSet :=
  wanted.select fun name _ => if found.contains name then none else some ()

theorem get?_left (wanted : NameSet) (found : NameMap FieldPlace) (name : String) :
    (left wanted found).get? name = if found.contains name then none else wanted.get? name := by
  rw [left, NameMap.get?_select]
  by_cases hname : found.contains name = true
  · simp [hname]
  · cases hwanted : wanted.get? name with
    | none => simp
    | some value => simp [hname]

theorem contains_left (wanted : NameSet) (found : NameMap FieldPlace) (name : String) :
    (left wanted found).contains name = (wanted.contains name && !found.contains name) := by
  show ((left wanted found).get? name).isSome = ((wanted.get? name).isSome && !found.contains name)
  rw [get?_left]
  by_cases hname : found.contains name = true
  · rw [if_pos hname, hname]
    exact (Bool.and_false _).symm
  · rw [if_neg hname, (Bool.not_eq_true _).mp hname]
    exact (Bool.and_true _).symm

/-- A name that gets a place is no longer left. -/
theorem left_addNew (wanted : NameSet) (found : NameMap FieldPlace) (name : String)
    (place : FieldPlace) : left wanted (found.addNew name place) = (left wanted found).erase name := by
  refine NameMap.ext_get? fun key => ?_
  have hadded : (found.addNew name place).contains key = (found.contains key || key = name) := by
    simp only [NameMap.contains, NameMap.get?_addNew]
    cases found.get? key <;> by_cases hkey : key = name <;> simp [hkey]
  rw [get?_left, NameMap.get?_erase, get?_left, hadded]
  by_cases hkey : key = name
  · rw [if_pos hkey, if_pos (by simp [hkey])]
  · rw [if_neg hkey]
    simp only [hkey, decide_false, Bool.or_false]

theorem outcome_bitPosition_eq_map (lookup : Lookup) (type : TypeIndex) :
    (bitPosition lookup type).outcome = (lookup type).outcome.map bitOf := by
  rw [bitPosition, Traced.outcome_bind]
  cases (lookup type).outcome with
  | error fault => rfl
  | ok record =>
    rcases record with _ | record
    · rfl
    · cases record <;> rfl

/-- Members are noted alike while what is looked up for those left is agreed on. -/
theorem visitsAlike_noteMember (wanted : NameSet) :
    VisitsAlike lookup lookup' (noteMember lookup wanted) (noteMember lookup' wanted)
      fun found stations => memberLookups (left wanted found) stations where
  list _ _ _ := rfl
  visit found entry rest hagrees := by
    cases entry with
    | enumerator name value => exact ⟨rfl, fun s' hs' => by cases hs'; exact hagrees⟩
    | other => exact ⟨rfl, fun s' hs' => by cases hs'; exact hagrees⟩
    | member name type offset =>
      rw [memberLookups, contains_left] at hagrees
      by_cases hname : (wanted.contains name && !found.contains name) = true
      · rw [if_pos hname] at hagrees
        rw [noteMember, noteMember, if_pos hname, if_pos hname, Traced.outcome_bind,
          Traced.outcome_bind, outcome_bitPosition_eq_map, outcome_bitPosition_eq_map, hagrees.head]
        refine ⟨rfl, fun s' hs' => ?_⟩
        cases hrecord : (lookup type).outcome with
        | error fault =>
          rw [hrecord] at hs'
          cases hs'
        | ok record =>
          rw [hrecord] at hs'
          cases hs'
          rw [left_addNew]
          exact hagrees.tail hrecord
      · rw [if_neg hname] at hagrees
        rw [noteMember, noteMember, if_neg hname, if_neg hname]
        exact ⟨rfl, fun s' hs' => by cases hs'; exact hagrees⟩

theorem left_empty (wanted : NameSet) : left wanted NameMap.empty = wanted :=
  NameMap.ext_get? fun name => get?_left wanted NameMap.empty name

theorem outcome_memberPlaces_of_agrees (wanted : NameSet) (fields : Option TypeIndex)
    (h : Agrees lookup lookup' (memberLookups wanted (structTrail lookup.record? fields))) :
    (memberPlaces lookup' wanted fields).outcome = (memberPlaces lookup wanted fields).outcome := by
  cases fields with
  | none => rfl
  | some index =>
    apply (visitsAlike_noteMember wanted).outcome_walkFrom
    rw [left_empty]
    exact h

/-! ## Enumerations -/

/-- Constants are noted without a look-up. -/
theorem visitsAlike_noteConstant (layout : IntegerLayout) (wanted : NameSet) :
    VisitsAlike lookup lookup' (noteConstant layout wanted) (noteConstant layout wanted)
      fun _ stations => listsOf stations where
  list _ _ _ := rfl
  visit _ _ _ hagrees := ⟨rfl, fun _ _ => hagrees⟩

theorem outcome_integerType_of_agrees (steps : Nat) (index : TypeIndex)
    (h : Agrees lookup lookup' ((List.range steps).filterMap (reached lookup.record? index))) :
    (integerType lookup' steps index).outcome = (integerType lookup steps index).outcome := by
  induction steps generalizing index with
  | zero => rfl
  | succ steps ih =>
    rw [path_succ] at h
    rw [integerType, integerType, Traced.outcome_bind, Traced.outcome_bind, h.head]
    cases hrecord : (lookup index).outcome with
    | error fault => rfl
    | ok record =>
      have hfound : lookup.record? index = record := by simp [Lookup.record?, hrecord]
      have hbehind := h.tail hrecord
      rw [hfound] at hbehind
      rcases record with _ | record
      · rfl
      · cases record with
        | modifier underlying => exact ih underlying hbehind
        | enum name forward underlying fields => exact ih underlying hbehind
        | _ => rfl

theorem outcome_constants_of_agrees (wanted : NameSet) (definition : EnumDefinition)
    (h : Agrees lookup lookup' (underlyingPath lookup.record? definition.underlying
      ++ listsOf (trail lookup.record? definition.fields))) :
    (constants lookup' wanted definition).outcome
      = (constants lookup wanted definition).outcome := by
  have hchain : maxChain = 15 + 1 := rfl
  have hinteger := outcome_integerType_of_agrees (15 + 1) definition.underlying h.left
  rw [constants, constants, Traced.outcome_bind, Traced.outcome_bind, enumLayout, enumLayout,
    Traced.outcome_bind, Traced.outcome_bind, hchain, hinteger]
  cases hfound : (integerType lookup (15 + 1) definition.underlying).outcome with
  | error fault =>
    show Except.error fault = Except.error fault
    rfl
  | ok layout =>
    rw [outcome_integerType_eq_after] at hfound
    have hbehind := h.right (Lookup.after_eq_ok_iff.1 hfound).1
    have hwalk := fun layout => (visitsAlike_noteConstant layout wanted).outcome_walkFrom
      Visited.none definition.fields NameMap.empty hbehind
    cases layout with
    | none => exact hwalk defaultLayout
    | some layout => exact hwalk layout

/-! ## Queries -/

variable {α δ : Type}

/-- A query that is answered definition by definition is the same under two look-ups that agree on
what is looked up for its names, if each definition is. -/
theorem outcome_answers_of_agrees (defined : String → Option δ) {missing : String → Event}
    {known known' : NameMap δ} {answer answer' : NameSet → δ → Traced α}
    {needed : NameSet → δ → List TypeIndex} {result : NameSet → δ → α} {query : NestedQuery}
    (hknown : ∀ name, query.contains name = true →
      known.get? name = defined name ∧ known'.get? name = defined name)
    (hanswer : ∀ wanted definition, (answer wanted definition).outcome
      = lookup.after (needed wanted definition) (result wanted definition))
    (hagree : ∀ wanted definition, Agrees lookup lookup' (needed wanted definition) →
      (answer' wanted definition).outcome = (answer wanted definition).outcome)
    (h : Agrees lookup lookup'
      (query.entries.flatMap fun (name, wanted) => (defined name).elim [] (needed wanted))) :
    (answers missing known' answer' query).outcome
      = (answers missing known answer query).outcome := by
  have hentries : ∀ entry ∈ query.entries,
      known.get? entry.1 = defined entry.1 ∧ known'.get? entry.1 = defined entry.1 :=
    fun entry hentry =>
      hknown entry.1 (NameMap.contains_iff.2 ⟨entry.2, NameMap.get?_of_mem hentry⟩)
  show (query.entries.foldlM (addAnswer missing known' answer') .empty).outcome
    = (query.entries.foldlM (addAnswer missing known answer) .empty).outcome
  generalize query.entries = entries at h hentries
  generalize NameMap.empty = found
  induction entries generalizing found with
  | nil => rfl
  | cons entry rest ih =>
    obtain ⟨name, wanted⟩ := entry
    obtain ⟨⟨hname, hname'⟩, hrest⟩ := List.forall_mem_cons.1 hentries
    rw [List.flatMap_cons] at h
    rw [List.foldlM_cons, List.foldlM_cons, Traced.outcome_bind, Traced.outcome_bind, addAnswer,
      addAnswer]
    dsimp only at hname hname' h ⊢
    rw [hname, hname']
    cases hdefined : defined name with
    | none =>
      rw [hdefined] at h
      exact ih h hrest found
    | some definition =>
      rw [hdefined] at h
      dsimp only
      rw [Traced.outcome_bind, Traced.outcome_bind, hagree wanted definition h.left]
      cases hfirst : (answer wanted definition).outcome with
      | error fault =>
        show Except.error fault = Except.error fault
        rfl
      | ok a =>
        rw [hanswer] at hfirst
        exact ih (h.right (Lookup.after_eq_ok_iff.1 hfirst).1) hrest _

variable {records records' : List TypeRecord} {query : NestedQuery}

/-- A query for members of structures, under look-ups that agree on what it looks up and over records
with the same first structure of each name that it asks for. -/
theorem outcome_structs_of_agrees
    (hrecords : ∀ name, query.contains name = true →
      records'.findSome? (structure? name) = records.findSome? (structure? name))
    (h : Agrees lookup lookup' (structLookups lookup.record? records query)) :
    (structs lookup' (Definitions.ofRecords query records') query).outcome
      = (structs lookup (Definitions.ofRecords query records) query).outcome := by
  rw [structs_eq_answers, structs_eq_answers]
  refine outcome_answers_of_agrees (fun name => records.findSome? (structure? name))
    (fun name hname => ⟨?_, ?_⟩) (outcome_memberPlaces_eq_after lookup)
    outcome_memberPlaces_of_agrees h
  · exact (Definitions.get?_ofRecords query records name hname).1
  · rw [(Definitions.get?_ofRecords query records' name hname).1, hrecords name hname]

/-- A query for constants of enumerations, under look-ups that agree on what it looks up and over
records with the same first enumeration of each name that it asks for. -/
theorem outcome_enums_of_agrees
    (hrecords : ∀ name, query.contains name = true →
      records'.findSome? (enumeration? name) = records.findSome? (enumeration? name))
    (h : Agrees lookup lookup' (enumLookups lookup.record? records query)) :
    (enums lookup' (Definitions.ofRecords query records') query).outcome
      = (enums lookup (Definitions.ofRecords query records) query).outcome := by
  rw [enums_eq_answers, enums_eq_answers]
  refine outcome_answers_of_agrees (fun name => records.findSome? (enumeration? name))
    (fun name hname => ⟨?_, ?_⟩) (outcome_constants_eq_after lookup) outcome_constants_of_agrees h
  · exact (Definitions.get?_ofRecords query records name hname).2
  · rw [(Definitions.get?_ofRecords query records' name hname).2, hrecords name hname]

end Resolve

end OffsetService
