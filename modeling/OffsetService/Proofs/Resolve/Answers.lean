import OffsetService.Proofs.Resolve.Agreement
import OffsetService.Proofs.Resolve.ByName

/-!
# A query answers name by name

For every stream of records, every look-up and every query: the query fails with the fault of the
first of its look-ups that fails, in the order of the names and then along each trail, and answers
name by name when none does (`structs_ofRecords_eq_after`, `enums_ofRecords_eq_after`, and in full
`structs_by_name`, `enums_by_name`).

Both are put together from what one definition answers (`outcome_memberPlaces_eq_after`,
`outcome_constants_eq_after`), which in turn follows the trail of its field list station by station.
-/

namespace OffsetService.Resolve

open FieldList (Station trail entriesOf proceed)

variable {α δ : Type}

theorem entriesOf_entry (entry : FieldEntry) (rest : List Station) :
    entriesOf (.entry entry :: rest) = entry :: entriesOf rest := rfl

/-- A station with an index is passed once the index has been looked up. -/
theorem bind_proceed_list {σ : Type} {lookup : Lookup} {visit : σ → FieldEntry → Traced σ} {s : σ}
    {index : TypeIndex} {indices : List TypeIndex} {answer : α} {next : σ → Except Fault α}
    (h : next s = lookup.after indices answer) :
    (proceed lookup visit s (.list index) >>= next) = lookup.after (index :: indices) answer := by
  have hproceed : (proceed lookup visit s (.list index) >>= next)
      = ((lookup index).outcome >>= fun _ => next s) := by
    rw [proceed]
    cases (lookup index).outcome <;> rfl
  rw [hproceed]
  let behind : Option TypeRecord → Except Fault α := fun _ => next s
  have hbehind : behind (lookup.record? index) = lookup.after indices answer := h
  exact Lookup.bind_eq_after hbehind

/-! ## Members -/

theorem get?_placesOf (record? : TypeIndex → Option TypeRecord) (entries : List FieldEntry)
    (wanted : NameSet) (name : String) :
    (placesOf record? entries wanted).get? name
      = if wanted.contains name then place? record? entries name else none := by
  rw [placesOf, NameMap.get?_select, NameMap.contains]
  cases wanted.get? name <;> rfl

theorem place?_cons_of_ne {record? : TypeIndex → Option TypeRecord} {entry : FieldEntry}
    {name : String} (h : member? name entry = none) (entries : List FieldEntry) :
    place? record? (entry :: entries) name = place? record? entries name := by
  rw [place?, place?, List.findSome?_cons, h]

theorem outcome_bitPosition_eq_after (lookup : Lookup) (type : TypeIndex) :
    (bitPosition lookup type).outcome = lookup.after [type] (bitOf (lookup.record? type)) := by
  rw [bitPosition, Traced.outcome_bind]
  refine Lookup.bind_eq_after ?_
  rw [Lookup.after_nil]
  rcases lookup.record? type with _ | record
  · rfl
  · cases record <;> rfl

theorem outcome_noteMember_of_wanted (lookup : Lookup) {wanted : NameSet}
    {found : NameMap FieldPlace} {name : String} (type : TypeIndex) (offset : UInt64)
    (h : (wanted.contains name && !found.contains name) = true) :
    (noteMember lookup wanted found (.member name type offset)).outcome
      = lookup.after [type]
        (found.addNew name ⟨offset.toInt64, bitOf (lookup.record? type)⟩) := by
  rw [noteMember, if_pos h, Traced.outcome_bind, outcome_bitPosition_eq_after]
  exact Lookup.after_bind_ok rfl

/-- The first member of a name that is left may be added at once. -/
theorem addNew_merge_placesOf (record? : TypeIndex → Option TypeRecord) {name : String}
    {type : TypeIndex} {offset : UInt64} {found : NameMap FieldPlace} {left : NameSet}
    (hleft : left.contains name = true) (hnew : found.contains name = false)
    (entries : List FieldEntry) :
    (found.addNew name ⟨offset.toInt64, bitOf (record? type)⟩).merge (fun first _ => first)
        (placesOf record? entries (left.erase name))
      = found.merge (fun first _ => first)
        (placesOf record? (.member name type offset :: entries) left) := by
  refine NameMap.ext_get? fun other => ?_
  rw [NameMap.get?_merge_first, NameMap.get?_merge_first, NameMap.get?_addNew, get?_placesOf,
    get?_placesOf, NameMap.contains, NameMap.get?_erase]
  by_cases hother : other = name
  · subst hother
    have hnone : found.get? other = none := by simpa [NameMap.contains] using hnew
    simp [hleft, hnone, place?, member?]
  · have hmember : member? other (.member name type offset) = none := by
      rw [member?, if_neg (Ne.symm hother)]
    rw [if_neg hother, if_neg hother, Option.or_none, place?_cons_of_ne hmember]
    rfl

/-- An entry that is no member of a wanted name changes no place. -/
theorem placesOf_cons_of_none {record? : TypeIndex → Option TypeRecord} {entry : FieldEntry}
    {wanted : NameSet} (h : ∀ name, wanted.contains name = true → member? name entry = none)
    (entries : List FieldEntry) :
    placesOf record? (entry :: entries) wanted = placesOf record? entries wanted := by
  refine NameMap.ext_get? fun name => ?_
  rw [get?_placesOf, get?_placesOf]
  by_cases hname : wanted.contains name
  · rw [place?_cons_of_ne (h name hname)]
  · rw [if_neg hname, if_neg hname]

/-- Behind the rest of a trail, the first members of the names that are still left have been added
to the places found before. -/
theorem foldlM_proceed_noteMember (lookup : Lookup) (wanted : NameSet) (stations : List Station)
    (found : NameMap FieldPlace) (left : NameSet)
    (hleft : ∀ name, left.contains name = (wanted.contains name && !found.contains name)) :
    stations.foldlM (proceed lookup (noteMember lookup wanted)) found
      = lookup.after (memberLookups left stations)
        (found.merge (fun first _ => first) (placesOf lookup.record? (entriesOf stations) left)) := by
  induction stations generalizing found left with
  | nil =>
    have hnone : found.merge (fun first _ => first) (placesOf lookup.record? [] left) = found :=
      NameMap.merge_first_eq_self fun name _ => by
        rw [get?_placesOf]
        exact ite_self _
    rw [show entriesOf [] = [] from rfl, hnone]
    rfl
  | cons station rest ih =>
    rw [List.foldlM_cons]
    cases station with
    | list index => exact bind_proceed_list (ih found left hleft)
    | entry entry =>
      rw [entriesOf_entry]
      cases entry with
      | enumerator name value =>
        rw [placesOf_cons_of_none fun _ _ => rfl]
        exact ih found left hleft
      | other =>
        rw [placesOf_cons_of_none fun _ _ => rfl]
        exact ih found left hleft
      | member name type offset =>
        by_cases hname : left.contains name
        · have hwanted := hname
          rw [hleft, Bool.and_eq_true, Bool.not_eq_true'] at hwanted
          have hleft' : ∀ other, (left.erase name).contains other
              = (wanted.contains other && !(found.addNew name
                ⟨offset.toInt64, bitOf (lookup.record? type)⟩).contains other) := by
            intro other
            have := hleft other
            simp only [NameMap.contains, NameMap.get?_erase, NameMap.get?_addNew] at this ⊢
            split <;> simp_all
          rw [proceed, outcome_noteMember_of_wanted lookup type offset (hleft name ▸ hname),
            memberLookups, if_pos hname, ← addNew_merge_placesOf lookup.record? hname hwanted.2,
            ← List.singleton_append]
          exact Lookup.after_bind (ih _ _ hleft')
        · have hother : ∀ other, left.contains other = true →
              member? other (.member name type offset) = none := by
            intro other hother
            have hne : name ≠ other := fun heq => hname (heq ▸ hother)
            rw [member?, if_neg hne]
          rw [proceed, noteMember, ← hleft, if_neg hname, memberLookups, if_neg hname,
            placesOf_cons_of_none hother]
          exact ih found left hleft

/-- What a structure answers, and what is looked up for it. -/
theorem outcome_memberPlaces_eq_after (lookup : Lookup) (wanted : NameSet)
    (fields : Option TypeIndex) :
    (memberPlaces lookup wanted fields).outcome
      = lookup.after (memberLookups wanted (structTrail lookup.record? fields))
        (placesOf lookup.record? (entriesOf (structTrail lookup.record? fields)) wanted) := by
  have hleft : ∀ name, wanted.contains name
      = (wanted.contains name && !(NameMap.empty : NameMap FieldPlace).contains name) :=
    fun name => (Bool.and_true _).symm
  have hfold := foldlM_proceed_noteMember lookup wanted (structTrail lookup.record? fields) _ _ hleft
  rw [NameMap.empty_merge] at hfold
  rw [← hfold]
  cases fields with
  | none => rfl
  | some index => exact FieldList.outcome_walk lookup _ index _

/-! ## Constants -/

theorem get?_valuesOf (layout : IntegerLayout) (entries : List FieldEntry) (wanted : NameSet)
    (name : String) :
    (valuesOf layout entries wanted).get? name
      = if wanted.contains name then (entries.findSome? (enumerator? name)).map layout.extend
        else none := by
  rw [valuesOf, NameMap.get?_select, NameMap.contains]
  cases wanted.get? name <;> rfl

/-- A constant is noted without a look-up. The first one of a wanted name may be added at once, and
every other changes nothing. -/
theorem exists_noteConstant (layout : IntegerLayout) (wanted : NameSet) (found : NameMap Int64)
    (entry : FieldEntry) (entries : List FieldEntry) :
    ∃ found', (noteConstant layout wanted found entry).outcome = .ok found' ∧
      found'.merge (fun first _ => first) (valuesOf layout entries wanted)
        = found.merge (fun first _ => first) (valuesOf layout (entry :: entries) wanted) := by
  cases entry with
  | enumerator name value =>
    rw [noteConstant]
    by_cases hname : wanted.contains name
    · rw [if_pos hname]
      refine ⟨found.addNew name (layout.extend value), rfl, NameMap.ext_get? fun key => ?_⟩
      simp only [NameMap.get?_merge_first, get?_valuesOf, NameMap.get?_addNew,
        List.findSome?_cons, enumerator?]
      by_cases hkey : key = name
      · subst hkey
        rw [if_pos rfl, if_pos rfl, if_pos hname, if_pos hname, Option.or_assoc]
        rfl
      · rw [if_neg hkey, if_neg (Ne.symm hkey), Option.or_none]
    · rw [if_neg hname]
      refine ⟨found, rfl, NameMap.ext_get? fun key => ?_⟩
      simp only [NameMap.get?_merge_first, get?_valuesOf, List.findSome?_cons, enumerator?]
      by_cases hkey : key = name
      · subst hkey
        rw [if_neg hname, if_neg hname]
      · rw [if_neg (Ne.symm hkey)]
  | member name type offset => exact ⟨found, rfl, rfl⟩
  | other => exact ⟨found, rfl, rfl⟩

/-- Behind the rest of a trail, the first constants of the wanted names have been added to the values
found before. -/
theorem foldlM_proceed_noteConstant (lookup : Lookup) (layout : IntegerLayout) (wanted : NameSet)
    (stations : List Station) (found : NameMap Int64) :
    stations.foldlM (proceed lookup (noteConstant layout wanted)) found
      = lookup.after (listsOf stations)
        (found.merge (fun first _ => first) (valuesOf layout (entriesOf stations) wanted)) := by
  induction stations generalizing found with
  | nil =>
    have hnone : found.merge (fun first _ => first) (valuesOf layout [] wanted) = found :=
      NameMap.merge_first_eq_self fun name _ => by
        rw [get?_valuesOf]
        exact ite_self _
    rw [show entriesOf [] = [] from rfl, hnone]
    rfl
  | cons station rest ih =>
    rw [List.foldlM_cons]
    cases station with
    | list index => exact bind_proceed_list (ih found)
    | entry entry =>
      obtain ⟨found', houtcome, hmerge⟩ :=
        exists_noteConstant layout wanted found entry (entriesOf rest)
      rw [proceed, houtcome, entriesOf_entry, ← hmerge]
      exact ih found'

theorem reached_succ_eq_bind (record? : TypeIndex → Option TypeRecord) (index : TypeIndex)
    (n : Nat) :
    reached record? index (n + 1)
      = ((record? index).bind underlying?).bind fun next => reached record? next n := by
  induction n with
  | zero =>
    rw [reached, reached, Option.bind_some]
    exact (Option.bind_fun_some _).symm
  | succ n ih =>
    rw [reached, ih, Option.bind_assoc]
    rfl

/-- The path to an integer type begins with its index. -/
theorem path_succ (record? : TypeIndex → Option TypeRecord) (index : TypeIndex) (steps : Nat) :
    (List.range (steps + 1)).filterMap (reached record? index)
      = index :: (((record? index).bind underlying?).elim [] fun next =>
        (List.range steps).filterMap (reached record? next)) := by
  have hsucc : reached record? index ∘ Nat.succ = fun n =>
      ((record? index).bind underlying?).bind fun next =>
        reached record? next n := funext (reached_succ_eq_bind record? index)
  rw [List.range_succ_eq_map, List.filterMap_cons, List.filterMap_map, hsucc]
  cases (record? index).bind underlying? <;> simp [reached]

/-- The path to an integer type is looked up index by index. -/
theorem outcome_integerType_eq_after (lookup : Lookup) (steps : Nat) (index : TypeIndex) :
    (integerType lookup steps index).outcome
      = lookup.after ((List.range steps).filterMap (reached lookup.record? index))
        (((List.range steps).filterMap (reached lookup.record? index)).findSome? fun last =>
          (lookup.record? last).bind integer?) := by
  induction steps generalizing index with
  | zero => rfl
  | succ steps ih =>
    rw [path_succ, integerType, Traced.outcome_bind]
    refine Lookup.bind_eq_after ?_
    rw [List.findSome?_cons]
    rcases lookup.record? index with _ | record
    · rfl
    · cases record with
      | modifier underlying => exact ih underlying
      | enum name forward underlying fields => exact ih underlying
      | _ => rfl

/-- What an enumeration answers, and what is looked up for it. -/
theorem outcome_constants_eq_after (lookup : Lookup) (wanted : NameSet)
    (definition : EnumDefinition) :
    (constants lookup wanted definition).outcome
      = lookup.after
        (underlyingPath lookup.record? definition.underlying
          ++ listsOf (trail lookup.record? definition.fields))
        (valuesOf (layoutOf lookup.record? definition.underlying)
          (entriesOf (trail lookup.record? definition.fields)) wanted) := by
  have hlayout : (enumLayout lookup definition.underlying).outcome
      = lookup.after (underlyingPath lookup.record? definition.underlying)
        (layoutOf lookup.record? definition.underlying) := by
    rw [enumLayout, Traced.outcome_bind, outcome_integerType_eq_after, layoutOf]
    change (lookup.after (underlyingPath lookup.record? definition.underlying)
      ((underlyingPath lookup.record? definition.underlying).findSome? fun index =>
        (lookup.record? index).bind integer?) >>= _) = _
    cases (underlyingPath lookup.record? definition.underlying).findSome? fun index =>
        (lookup.record? index).bind integer? with
    | none => exact Lookup.after_bind_ok rfl
    | some layout => exact Lookup.after_bind_ok rfl
  rw [constants, Traced.outcome_bind, hlayout]
  refine Lookup.after_bind ?_
  rw [FieldList.outcome_walk, foldlM_proceed_noteConstant, NameMap.empty_merge]

/-! ## Queries -/

/-- Adds the answer for one name of a query. -/
def addAnswer (missing : String → Event) (known : NameMap δ) (answer : NameSet → δ → Traced α)
    (found : NameMap α) (entry : String × NameSet) : Traced (NameMap α) :=
  match known.get? entry.1 with
  | none => do
    Traced.report (missing entry.1)
    return found
  | some definition => return found.addNew entry.1 (← answer entry.2 definition)

/-- When each definition answers once its look-ups have been made, so does the rest of a query, whose
names are added to the answers found before. -/
theorem outcome_foldlM_addAnswer {lookup : Lookup} {missing : String → Event} {known : NameMap δ}
    {answer : NameSet → δ → Traced α} {defined : String → Option δ}
    {needed : NameSet → δ → List TypeIndex} {result : NameSet → δ → α}
    (hanswer : ∀ wanted definition, (answer wanted definition).outcome
      = lookup.after (needed wanted definition) (result wanted definition))
    (rest : NestedQuery) (found : NameMap α)
    (hknown : ∀ entry ∈ rest.entries, known.get? entry.1 = defined entry.1) :
    (rest.entries.foldlM (addAnswer missing known answer) found).outcome
      = lookup.after
        (rest.entries.flatMap fun (name, wanted) => (defined name).elim [] (needed wanted))
        (found.merge (fun first _ => first)
          (rest.select fun name wanted => (defined name).map (result wanted))) := by
  obtain ⟨entries, ascending⟩ := rest
  induction entries generalizing found with
  | nil =>
    have hnone : found.merge (fun first _ => first)
        (NameMap.select (fun name wanted => (defined name).map (result wanted)) ⟨[], ascending⟩)
          = found := NameMap.merge_first_eq_self fun _ _ => rfl
    rw [hnone]
    rfl
  | cons entry rest ih =>
    obtain ⟨name, wanted⟩ := entry
    obtain ⟨hentry, hrest⟩ := List.forall_mem_cons.1 hknown
    have hascending := (List.pairwise_cons.1 ascending).2
    rw [List.foldlM_cons, Traced.outcome_bind, List.flatMap_cons, addAnswer]
    dsimp only at hentry ⊢
    rw [hentry]
    cases hdefined : defined name with
    | none =>
      rw [NameMap.select_cons_of_none (by rw [hdefined]; rfl)]
      exact ih found hascending hrest
    | some definition =>
      have hstep : (answer wanted definition >>= fun a => pure (found.addNew name a)).outcome
          = lookup.after (needed wanted definition)
            (found.addNew name (result wanted definition)) := by
        rw [Traced.outcome_bind, hanswer]
        exact Lookup.after_bind_ok rfl
      rw [NameMap.merge_select_cons_of_some (b := result wanted definition)
        (by rw [hdefined]; rfl), hstep]
      exact Lookup.after_bind (ih _ hascending hrest)

/-- When each definition answers once its look-ups have been made, so does a query. -/
theorem outcome_answers_eq_after {lookup : Lookup} {missing : String → Event} {known : NameMap δ}
    {answer : NameSet → δ → Traced α} {defined : String → Option δ}
    {needed : NameSet → δ → List TypeIndex} {result : NameSet → δ → α} {query : NestedQuery}
    (hknown : ∀ name, query.contains name = true → known.get? name = defined name)
    (hanswer : ∀ wanted definition, (answer wanted definition).outcome
      = lookup.after (needed wanted definition) (result wanted definition)) :
    (answers missing known answer query).outcome
      = lookup.after
        (query.entries.flatMap fun (name, wanted) => (defined name).elim [] (needed wanted))
        (query.select fun name wanted => (defined name).map (result wanted)) := by
  have hentries : ∀ entry ∈ query.entries, known.get? entry.1 = defined entry.1 :=
    fun entry hentry =>
      hknown entry.1 (NameMap.contains_iff.2 ⟨entry.2, NameMap.get?_of_mem hentry⟩)
  change (query.entries.foldlM (addAnswer missing known answer) .empty).outcome = _
  rw [outcome_foldlM_addAnswer hanswer query .empty hentries, NameMap.empty_merge]

theorem structs_ofRecords_eq_after (lookup : Lookup) (records : List TypeRecord)
    (query : NestedQuery) :
    (structs lookup (Definitions.ofRecords query records) query).outcome
      = lookup.after (structLookups lookup.record? records query)
        (structAnswer lookup.record? records query) := by
  rw [structs_eq_answers]
  exact outcome_answers_eq_after
    (fun name hname => (Definitions.get?_ofRecords query records name hname).1)
    (outcome_memberPlaces_eq_after lookup)

theorem enums_ofRecords_eq_after (lookup : Lookup) (records : List TypeRecord)
    (query : NestedQuery) :
    (enums lookup (Definitions.ofRecords query records) query).outcome
      = lookup.after (enumLookups lookup.record? records query)
        (enumAnswer lookup.record? records query) := by
  rw [enums_eq_answers]
  exact outcome_answers_eq_after
    (fun name hname => (Definitions.get?_ofRecords query records name hname).2)
    (outcome_constants_eq_after lookup)

theorem get?_structAnswer (record? : TypeIndex → Option TypeRecord) (records : List TypeRecord)
    (query : NestedQuery) (name : String) :
    (structAnswer record? records query).get? name
      = (query.get? name).bind fun wanted => (records.findSome? (structure? name)).map fun fields =>
        placesOf record? (entriesOf (structTrail record? fields)) wanted :=
  NameMap.get?_select _ _ _

theorem get?_enumAnswer (record? : TypeIndex → Option TypeRecord) (records : List TypeRecord)
    (query : NestedQuery) (name : String) :
    (enumAnswer record? records query).get? name
      = (query.get? name).bind fun wanted =>
        (records.findSome? (enumeration? name)).map fun definition =>
          valuesOf (layoutOf record? definition.underlying)
            (entriesOf (trail record? definition.fields)) wanted :=
  NameMap.get?_select _ _ _

/-- **Structures, name by name.** A query for members of structures fails exactly when one of the
look-ups that it needs fails, with the fault of the first. Otherwise it answers for the names of which
the records have a complete structure, each from the first of them: a wanted member is in the answer
when the trail of the field list has a member of that name, at the place of the first. -/
theorem structs_by_name (lookup : Lookup) (records : List TypeRecord) (query : NestedQuery) :
    let outcome := (structs lookup (Definitions.ofRecords query records) query).outcome
    let needed := structLookups lookup.record? records query
    (∀ fault, outcome = .error fault ↔ needed.findSome? lookup.fault? = some fault) ∧
    (needed.findSome? lookup.fault? = none → ∃ found, outcome = .ok found ∧
      (∀ name, found.contains name = true ↔ query.contains name = true ∧
        ∃ fields size, .struct name false fields size ∈ records) ∧
      ∀ name wanted fields, query.get? name = some wanted →
        records.findSome? (structure? name) = some fields →
          ∃ places, found.get? name = some places ∧
            ∀ member place, places.get? member = some place ↔ wanted.contains member = true ∧
              ∃ type offset,
                (entriesOf (structTrail lookup.record? fields)).findSome? (member? member)
                    = some (type, offset) ∧
                  place = ⟨offset.toInt64, bitOf (lookup.record? type)⟩) := by
  intro outcome needed
  have houtcome : outcome = lookup.after needed (structAnswer lookup.record? records query) :=
    structs_ofRecords_eq_after lookup records query
  refine ⟨fun fault => by rw [houtcome, Lookup.after_eq_error_iff], fun hnone => ?_⟩
  refine ⟨_, houtcome.trans (Lookup.after_eq_ok_iff.2 ⟨hnone, rfl⟩), fun name => ?_, ?_⟩
  · rw [NameMap.contains, get?_structAnswer, NameMap.contains, ← exists_structure?_iff]
    cases query.get? name <;> cases records.findSome? (structure? name) <;> simp
  · intro name wanted fields hwanted hfields
    refine ⟨_, by rw [get?_structAnswer, hwanted, Option.bind_some, hfields]; rfl, ?_⟩
    intro member place
    rw [get?_placesOf, place?]
    by_cases hmember : wanted.contains member
    · rw [if_pos hmember]
      generalize (entriesOf _).findSome? (member? member) = first
      rcases first with _ | ⟨type, offset⟩
      · simp
      · constructor
        · intro heq
          exact ⟨hmember, type, offset, rfl, (Option.some.inj heq).symm⟩
        · rintro ⟨-, type', offset', heq, rfl⟩
          cases heq
          rfl
    · simp [hmember]

/-- **Enumerations, name by name.** A query for constants of enumerations fails exactly when one of
the look-ups that it needs fails, with the fault of the first. Otherwise it answers for the names of
which the records have a complete enumeration, each from the first of them: a wanted constant is in the
answer when the trail of the field list has a constant of that name, with the stored value of the
first, extended by the layout of the enumeration. -/
theorem enums_by_name (lookup : Lookup) (records : List TypeRecord) (query : NestedQuery) :
    let outcome := (enums lookup (Definitions.ofRecords query records) query).outcome
    let needed := enumLookups lookup.record? records query
    (∀ fault, outcome = .error fault ↔ needed.findSome? lookup.fault? = some fault) ∧
    (needed.findSome? lookup.fault? = none → ∃ found, outcome = .ok found ∧
      (∀ name, found.contains name = true ↔ query.contains name = true ∧
        ∃ underlying fields, .enum name false underlying fields ∈ records) ∧
      ∀ name wanted definition, query.get? name = some wanted →
        records.findSome? (enumeration? name) = some definition →
          ∃ values, found.get? name = some values ∧
            ∀ key value, values.get? key = some value ↔ wanted.contains key = true ∧
              ∃ stored,
                (entriesOf (trail lookup.record? definition.fields)).findSome? (enumerator? key)
                    = some stored ∧
                  value = (layoutOf lookup.record? definition.underlying).extend stored) := by
  intro outcome needed
  have houtcome : outcome = lookup.after needed (enumAnswer lookup.record? records query) :=
    enums_ofRecords_eq_after lookup records query
  refine ⟨fun fault => by rw [houtcome, Lookup.after_eq_error_iff], fun hnone => ?_⟩
  refine ⟨_, houtcome.trans (Lookup.after_eq_ok_iff.2 ⟨hnone, rfl⟩), fun name => ?_, ?_⟩
  · rw [NameMap.contains, get?_enumAnswer, NameMap.contains, ← exists_enumeration?_iff]
    cases query.get? name <;> cases records.findSome? (enumeration? name) <;> simp
  · intro name wanted definition hwanted hdefinition
    refine ⟨_, by rw [get?_enumAnswer, hwanted, Option.bind_some, hdefinition]; rfl, ?_⟩
    intro key value
    rw [get?_valuesOf]
    by_cases hkey : wanted.contains key
    · generalize (entriesOf _).findSome? (enumerator? key) = first
      cases first <;> simp [hkey, eq_comm]
    · simp [hkey]

end OffsetService.Resolve
