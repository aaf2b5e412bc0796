import OffsetService.Resolve.Definitions

/-!
# What is noted of a stream of records

The definitions that are noted are among the records (`among_ofRecords`). Passing the field lists of
all structures through some function passes the definitions that are noted through it too
(`mapped_ofRecords`).
-/

namespace OffsetService

namespace TypeRecord

/-- The record with another field list. -/
def mapFields (f : Option TypeIndex → Option TypeIndex) : TypeRecord → TypeRecord
  | .struct name forward fields size => .struct name forward (f fields) size
  | record => record

end TypeRecord

namespace Definitions

/-- The same definitions, with the field lists of structures passed through `f`. -/
structure Mapped (f : Option TypeIndex → Option TypeIndex) (known known' : Definitions) :
    Prop where
  structs : ∀ name, known'.structs.get? name = (known.structs.get? name).map f
  enums : known'.enums = known.enums

theorem Mapped.observe {f : Option TypeIndex → Option TypeIndex} {known known' : Definitions}
    (h : Mapped f known known') (query : NestedQuery) (record : TypeRecord) :
    Mapped f (observe query known record) (observe query known' (record.mapFields f)) := by
  cases record with
  | struct name forward fields size =>
    cases forward with
    | true => exact h
    | false =>
      rw [TypeRecord.mapFields, Definitions.observe, Definitions.observe]
      by_cases hname : query.contains name
      · rw [if_pos hname, if_pos hname]
        refine ⟨fun key => ?_, h.enums⟩
        rw [NameMap.get?_addNew, NameMap.get?_addNew, h.structs]
        by_cases hkey : key = name
        · rw [if_pos hkey, if_pos hkey]
          cases known.structs.get? key <;> rfl
        · rw [if_neg hkey, if_neg hkey]
          cases known.structs.get? key <;> rfl
      · rw [if_neg hname, if_neg hname]
        exact h
  | enum name forward underlying fields =>
    cases forward with
    | true => exact h
    | false =>
      show Mapped f (Definitions.observe query known (.enum name false underlying fields))
        (Definitions.observe query known' (.enum name false underlying fields))
      rw [Definitions.observe, Definitions.observe]
      by_cases hname : query.contains name
      · rw [if_pos hname, if_pos hname]
        exact ⟨h.structs, congrArg (·.addNew name ⟨underlying, fields⟩) h.enums⟩
      · rw [if_neg hname, if_neg hname]
        exact h
  | _ => exact h

theorem mapped_ofRecords (f : Option TypeIndex → Option TypeIndex) (query : NestedQuery)
    (records : List TypeRecord) :
    Mapped f (ofRecords query records)
      (ofRecords query (records.map (TypeRecord.mapFields f))) := by
  have hfold : ∀ known known', Mapped f known known' →
      Mapped f (records.foldl (observe query) known)
        ((records.map (TypeRecord.mapFields f)).foldl (observe query) known') := by
    induction records with
    | nil => exact fun _ _ h => h
    | cons record records ih => exact fun _ _ h => ih _ _ (h.observe query record)
  exact hfold empty empty ⟨fun _ => rfl, rfl⟩

theorem of_get?_addNew {α : Type} {m : NameMap α} {name key : String} {value found : α}
    (h : (m.addNew name value).get? key = some found) :
    m.get? key = some found ∨ key = name ∧ found = value := by
  rw [NameMap.get?_addNew] at h
  cases hkey : m.get? key with
  | some value' =>
    rw [hkey] at h
    exact .inl h
  | none =>
    rw [hkey, Option.none_or] at h
    split at h
    next heq => exact .inr ⟨heq, (Option.some.inj h).symm⟩
    next => cases h

/-- Every definition that is noted is one of the records. -/
structure Among (records : List TypeRecord) (known : Definitions) : Prop where
  structs : ∀ name fields, known.structs.get? name = some fields →
    ∃ size, .struct name false fields size ∈ records
  enums : ∀ name definition, known.enums.get? name = some definition →
    .enum name false definition.underlying definition.fields ∈ records

theorem Among.observe {records : List TypeRecord} {known : Definitions} (h : Among records known)
    (query : NestedQuery) {record : TypeRecord} (hrecord : record ∈ records) :
    Among records (observe query known record) := by
  cases record with
  | struct name forward fields size =>
    cases forward with
    | true => exact h
    | false =>
      rw [Definitions.observe]
      by_cases hname : query.contains name
      · rw [if_pos hname]
        refine ⟨fun key found hfound => ?_, h.enums⟩
        rcases of_get?_addNew hfound with hfound | ⟨rfl, rfl⟩
        · exact h.structs key found hfound
        · exact ⟨size, hrecord⟩
      · rw [if_neg hname]
        exact h
  | enum name forward underlying fields =>
    cases forward with
    | true => exact h
    | false =>
      rw [Definitions.observe]
      by_cases hname : query.contains name
      · rw [if_pos hname]
        refine ⟨h.structs, fun key found hfound => ?_⟩
        rcases of_get?_addNew hfound with hfound | ⟨rfl, rfl⟩
        · exact h.enums key found hfound
        · exact hrecord
      · rw [if_neg hname]
        exact h
  | _ => exact h

theorem among_ofRecords (query : NestedQuery) (records : List TypeRecord) :
    Among records (ofRecords query records) := by
  have hfold : ∀ (tail : List TypeRecord) (known : Definitions),
      (∀ record ∈ tail, record ∈ records) → Among records known →
        Among records (tail.foldl (Definitions.observe query) known) := by
    intro tail
    induction tail with
    | nil => exact fun _ _ h => h
    | cons record tail ih =>
      intro known htail h
      obtain ⟨hrecord, htail⟩ := List.forall_mem_cons.1 htail
      exact ih _ htail (h.observe query hrecord)
  refine hfold records empty (fun _ h => h) ⟨fun name fields h => ?_, fun name definition h => ?_⟩
  · cases h
  · cases h

end Definitions

end OffsetService
