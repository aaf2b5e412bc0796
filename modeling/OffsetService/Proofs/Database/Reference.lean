import OffsetService.Proofs.Database.Numbers
import OffsetService.Proofs.Resolve.Agreement

/-!
# A table of numbered records

The answers from a database are compared with answers from a table: the records of some steps by
their numbers, and the integer types at the indices that stand for them (`tableOf`). A database
cannot hold every record as a step gives it, for the index `0xFFFF` of a field list means in its
format that there is none (`Record.keptFields`).
-/

namespace OffsetService

open Builder

/-! ## The reference -/

namespace TypeIndex

/-- The integer type that an index stands for. -/
def integer? (index : TypeIndex) : Option IntegerLayout :=
  if index < firstRecord then
    match index.builtIn? with
    | some (.integer layout) => some layout
    | _ => none
  else none

end TypeIndex

/-- A table that holds records by their number, and the integer types at the indices that stand for
them. -/
def tableOf (records : List (Nat × TypeRecord)) (index : TypeIndex) : Option TypeRecord :=
  match index.integer? with
  | some layout => some (.integer layout)
  | none => records.lookup index.toNat

namespace Resolve

theorem visible_builtIn? {index : TypeIndex} (h : index < TypeIndex.firstRecord) :
    visible index.builtIn? = index.integer?.map .integer := by
  rw [TypeIndex.integer?, if_pos h, TypeIndex.builtIn?]
  split
  next => rfl
  next =>
    split
    next kinds layout hkind => split <;> rfl
    next => split <;> rfl

end Resolve

/-- Look up in a table. What is found at the number that follows the last is left open. -/
def lookupIn (records : List (Nat × TypeRecord)) (beyond : Traced (Option TypeRecord)) : Lookup :=
  fun index =>
    if index.toNat = 0x1000 + records.length then beyond else pure (tableOf records index)

/-- A field list as a record can hold it: the index `0xFFFF` means that there is none. -/
def Record.keptFields (fields : Option TypeIndex) : Option TypeIndex :=
  if fields = some 0xFFFF then none else fields

/-- The numbered records of some steps as a database can hold them. -/
def Builder.keptRecords (steps : List BuildStep) : List (Nat × TypeRecord) :=
  (numberedRecords steps).map fun entry => (entry.1, entry.2.mapFields Record.keptFields)

theorem lookup_keptRecords (steps : List BuildStep) (number : Nat) :
    (keptRecords steps).lookup number = if number < 0x1000 then none
      else (steps.filterMap BuildStep.record?)[number - 0x1000]?.map
        (TypeRecord.mapFields Record.keptFields) := by
  have hmap : ∀ entries : List (Nat × TypeRecord),
      (entries.map fun entry => (entry.1, entry.2.mapFields Record.keptFields)).lookup number
        = (entries.lookup number).map (TypeRecord.mapFields Record.keptFields) := by
    intro entries
    induction entries with
    | nil => rfl
    | cons entry entries ih =>
      rw [List.map_cons, Entries.lookup_cons, Entries.lookup_cons, ih]
      split <;> rfl
  rw [keptRecords, hmap, lookup_numberedRecords]
  split <;> rfl

theorem map_snd_keptRecords (steps : List BuildStep) :
    (keptRecords steps).map (·.2)
      = (steps.filterMap BuildStep.record?).map (TypeRecord.mapFields Record.keptFields) := by
  rw [← map_snd_numberedRecords, keptRecords, List.map_map, List.map_map]
  rfl

/-- A query cannot tell the table from the built-in types and the records as they are stored. -/
theorem visible_tableOf (steps : List BuildStep) (index : TypeIndex) :
    Resolve.visible (tableOf (keptRecords steps) index)
      = Resolve.visible (if index < TypeIndex.firstRecord then index.builtIn?
          else ((steps.filterMap BuildStep.record?).map
            (TypeRecord.mapFields Record.storedFields))[index.toNat - 0x1000]?) := by
  have hleast : index < TypeIndex.firstRecord ↔ index.toNat < 0x1000 := UInt32.lt_iff_toNat_lt
  rw [tableOf, lookup_keptRecords]
  by_cases hlow : index < TypeIndex.firstRecord
  · rw [if_pos hlow, Resolve.visible_builtIn? hlow, if_pos (hleast.1 hlow)]
    cases index.integer? <;> rfl
  · have hnone : index.integer? = none := by
      rw [TypeIndex.integer?, if_neg hlow]
    rw [if_neg hlow, hnone, if_neg fun h => hlow (hleast.2 h), List.getElem?_map]
    -- the two forms of a record differ in the field list of a structure, which is not seen
    cases (steps.filterMap BuildStep.record?)[index.toNat - 0x1000]? with
    | none => rfl
    | some record => cases record <;> rfl

/-! ## The number after the last -/

/-- The indices that a record refers to, but for the base of a bitfield, which is never looked
up. -/
def TypeRecord.references : TypeRecord → List TypeIndex
  | .struct _ _ fields _ => fields.toList
  | .enum _ _ underlying fields => [underlying, fields]
  | record => Resolve.followed record

theorem mem_references_of_mem_followed {record : TypeRecord} {index : TypeIndex}
    (h : index ∈ Resolve.followed record) : index ∈ record.references := by
  cases record with
  | enum name forward underlying fields =>
    rw [TypeRecord.references]
    exact List.mem_cons.2 (.inl (List.mem_singleton.1 h))
  | struct name forward fields size => cases h
  | _ => exact h

section Past

variable {records : List (Nat × TypeRecord)}
  (hpast : ∀ entry ∈ records, ∀ index ∈ entry.2.references,
    index.toNat ≠ 0x1000 + records.length)

include hpast

theorem agreeOn_lookupIn (beyond : Traced (Option TypeRecord)) :
    Resolve.AgreeOn (fun index => index.toNat ≠ 0x1000 + records.length)
      (lookupIn records beyond) (fun index => pure (tableOf records index)) := by
  refine ⟨fun index hindex => ?_, fun index hindex record hrecord next hnext => ?_⟩
  · rw [lookupIn, if_neg hindex]
  · rw [lookupIn, if_neg hindex] at hrecord
    have hfound : tableOf records index = some record := Except.ok.inj hrecord
    rw [tableOf] at hfound
    split at hfound
    next layout _ =>
      obtain rfl := Option.some.inj hfound
      cases hnext
    next =>
      obtain ⟨left, right, hsplit, -⟩ := List.lookup_eq_some_iff.1 hfound
      have hmem : (index.toNat, record) ∈ records := by
        rw [hsplit]
        exact List.mem_append_right _ (List.mem_cons_self ..)
      exact hpast _ hmem next (mem_references_of_mem_followed hnext)

/-- Where no record refers to the number after the last, it does not matter what is found there. -/
theorem outcome_structs_lookupIn (beyond : Traced (Option TypeRecord)) (query : NestedQuery) :
    (Resolve.structs (lookupIn records beyond)
        (Definitions.ofRecords query (records.map (·.2))) query).outcome
      = (Resolve.structs (fun index => pure (tableOf records index))
          (Definitions.ofRecords query (records.map (·.2))) query).outcome := by
  have hamong := Definitions.among_ofRecords query (records.map (·.2))
  rw [Resolve.structs_eq_answers, Resolve.structs_eq_answers]
  refine Resolve.outcome_answers (fun name wanted => ?_) query
  refine Option.map_congr fun fields hfields => ?_
  refine Resolve.outcome_memberPlaces (agreeOn_lookupIn hpast beyond) wanted fun index hindex => ?_
  obtain ⟨size, hmem⟩ := hamong.structs name fields hfields
  obtain ⟨entry, hentry, hrecord⟩ := List.mem_map.1 hmem
  refine hpast entry hentry index ?_
  rw [hrecord]
  exact Option.mem_toList.2 hindex

theorem outcome_enums_lookupIn (beyond : Traced (Option TypeRecord)) (query : NestedQuery) :
    (Resolve.enums (lookupIn records beyond)
        (Definitions.ofRecords query (records.map (·.2))) query).outcome
      = (Resolve.enums (fun index => pure (tableOf records index))
          (Definitions.ofRecords query (records.map (·.2))) query).outcome := by
  have hamong := Definitions.among_ofRecords query (records.map (·.2))
  rw [Resolve.enums_eq_answers, Resolve.enums_eq_answers]
  refine Resolve.outcome_answers (fun name wanted => ?_) query
  refine Option.map_congr fun definition hdefinition => ?_
  obtain ⟨entry, hentry, hrecord⟩ := List.mem_map.1 (hamong.enums name definition hdefinition)
  have hreferences : ∀ index ∈ [definition.underlying, definition.fields],
      index.toNat ≠ 0x1000 + records.length := fun index hindex =>
    hpast entry hentry index (by rw [hrecord]; exact hindex)
  obtain ⟨hunderlying, hfields⟩ := List.forall_mem_cons.1 hreferences
  exact Resolve.outcome_constants (agreeOn_lookupIn hpast beyond) wanted hunderlying
    (hfields _ (List.mem_singleton_self _))

end Past

end OffsetService
