import OffsetService.Builder
import OffsetService.Proofs.Database.Records

/-!
# Records of a builder

The type records of some steps are the data of the steps that add one, in order (`types_ofSteps`),
and they are read back as the records that the steps stand for (`decode_types`). The numbers of
these steps are consecutive from `0x1000` on, so the record with a number is found at its place
behind the first (`lookup_numberedRecords`).
-/

namespace OffsetService.Builder

theorem toList_foldl {α : Type} {part : Builder → Array α} {of? : BuildStep → Option α}
    (hadd : ∀ b step, part (add b step) = (of? step).elim (part b) (part b).push)
    (b : Builder) (steps : List BuildStep) :
    (part (steps.foldl add b)).toList = (part b).toList ++ steps.filterMap of? := by
  induction steps generalizing b with
  | nil => simp
  | cons step steps ih =>
    rw [List.foldl_cons, ih, List.filterMap_cons, hadd]
    cases of? step with
    | none => rfl
    | some data => simp

theorem types_ofSteps (steps : List BuildStep) :
    (ofSteps steps).types.toList = steps.filterMap typeOf? :=
  toList_foldl (fun _ _ => rfl) empty steps

theorem symbols_ofSteps (steps : List BuildStep) :
    (ofSteps steps).symbols.toList = steps.filterMap symbolOf? :=
  toList_foldl (fun _ _ => rfl) empty steps

theorem sections_ofSteps (steps : List BuildStep) :
    (ofSteps steps).sections.toList = steps.filterMap sectionOf? :=
  toList_foldl (fun _ _ => rfl) empty steps

theorem isSome_typeOf? (step : BuildStep) : (typeOf? step).isSome = step.record?.isSome := by
  cases step <;> rfl

theorem exists_typeData {step : BuildStep} {data : Bytes} (h : typeOf? step = some data) :
    ∃ leaf body, data = typeData leaf body := by
  cases step <;> cases h <;> exact ⟨_, _, rfl⟩

theorem two_le_length_typeOf {step : BuildStep} {data : Bytes} (h : typeOf? step = some data) :
    2 ≤ data.length := by
  obtain ⟨leaf, body, rfl⟩ := exists_typeData h
  rw [typeData, List.length_append, List.length_append, Bytes.length_word]
  omega

/-- The lengths of the records that steps add, if the longest of them is in bounds. -/
theorem length_of_mem_filterMap {of? : BuildStep → Option Bytes} {steps : List BuildStep}
    (hshort : ∀ {step data}, of? step = some data → 2 ≤ data.length)
    (hlong : ∀ data ∈ steps.filterMap of?, data.length ≤ 0xFFFF) :
    ∀ data ∈ steps.filterMap of?, 2 ≤ data.length ∧ data.length ≤ 0xFFFF := by
  intro data hmem
  obtain ⟨step, -, hstep⟩ := List.mem_filterMap.1 hmem
  exact ⟨hshort hstep, hlong data hmem⟩

/-- The record of a step with the number that the step is known by. -/
def numbered? (entry : Option Nat × BuildStep) : Option (Nat × TypeRecord) :=
  entry.2.record?.bind fun record => entry.1.map fun number => (number, record)

/-- The records of the steps that add one, each with the number that its step is known by. -/
def numberedRecords (steps : List BuildStep) : List (Nat × TypeRecord) :=
  ((numbers steps).zip steps).filterMap numbered?

theorem numbered?_of_some {b : Builder} {step : BuildStep} {record : TypeRecord}
    (h : step.record? = some record) :
    numbered? (b.number? step, step) = some (0x1000 + b.types.size, record)
      ∧ (b.add step).types.size = b.types.size + 1 := by
  have hsome : (typeOf? step).isSome = true := by
    rw [isSome_typeOf?, h]
    rfl
  obtain ⟨data, hdata⟩ := Option.isSome_iff_exists.1 hsome
  constructor
  · rw [numbered?, number?, if_pos hsome, h]
    rfl
  · rw [add, hdata]
    exact Array.size_push data

theorem numbered?_of_none {b : Builder} {step : BuildStep} (h : step.record? = none) :
    numbered? (b.number? step, step) = none ∧ (b.add step).types = b.types := by
  have hnone : typeOf? step = none := by
    rw [← Option.isNone_iff_eq_none, ← Option.not_isSome, isSome_typeOf?, h]
    rfl
  constructor
  · rw [numbered?, h]
    rfl
  · rw [add, hnone]
    rfl

/-- The numbers are consecutive. -/
theorem numbered_go (b : Builder) (steps : List BuildStep) :
    ((numbers.go b steps).zip steps).filterMap numbered?
      = (steps.filterMap BuildStep.record?).mapIdx fun i record =>
          (0x1000 + (b.types.size + i), record) := by
  induction steps generalizing b with
  | nil => rfl
  | cons step steps ih =>
    rw [numbers.go, List.zip_cons_cons]
    cases hrecord : step.record? with
    | none =>
      obtain ⟨hnone, htypes⟩ := numbered?_of_none (b := b) hrecord
      rw [List.filterMap_cons_none hnone, List.filterMap_cons_none hrecord, ih, htypes]
    | some record =>
      obtain ⟨hsome, hsize⟩ := numbered?_of_some (b := b) hrecord
      rw [List.filterMap_cons_some hsome, List.filterMap_cons_some hrecord, ih, hsize,
        List.mapIdx_cons]
      have hshift : (fun i (record : TypeRecord) => (0x1000 + (b.types.size + 1 + i), record))
          = fun i record => (0x1000 + (b.types.size + (i + 1)), record) := by
        funext i record
        rw [Nat.add_assoc b.types.size, Nat.add_comm 1]
      rw [hshift, Nat.add_zero]

theorem lookup_mapIdx (first : Nat) (records : List TypeRecord) (number : Nat) :
    (records.mapIdx fun i record => (first + i, record)).lookup number
      = if number < first then none else records[number - first]? := by
  induction records generalizing first with
  | nil => simp
  | cons record records ih =>
    have hshift : (fun i (record : TypeRecord) => (first + (i + 1), record))
        = fun i record => (first + 1 + i, record) := by
      funext i record
      rw [Nat.add_assoc first, Nat.add_comm 1]
    rw [List.mapIdx_cons, hshift, Entries.lookup_cons, ih]
    dsimp only
    by_cases heq : number = first
    · subst heq
      simp
    · have hne : (number == first + 0) = false := by simpa using heq
      rw [hne, if_neg Bool.false_ne_true]
      by_cases hlt : number < first
      · rw [if_pos hlt, if_pos (by omega)]
      · obtain ⟨place, rfl⟩ : ∃ place, number = first + 1 + place := ⟨number - first - 1, by omega⟩
        rw [if_neg (by omega), if_neg hlt, Nat.add_sub_cancel_left, Nat.add_assoc,
          Nat.add_sub_cancel_left, Nat.add_comm 1, List.getElem?_cons_succ]

theorem numberedRecords_eq (steps : List BuildStep) : numberedRecords steps
    = (steps.filterMap BuildStep.record?).mapIdx fun i record => (0x1000 + i, record) := by
  rw [numberedRecords, numbers, numbered_go]
  simp [empty]

/-- The record with a number is found at its place behind the first. -/
theorem lookup_numberedRecords (steps : List BuildStep) (number : Nat) :
    (numberedRecords steps).lookup number = if number < 0x1000 then none
      else (steps.filterMap BuildStep.record?)[number - 0x1000]? := by
  rw [numberedRecords_eq, lookup_mapIdx]

theorem map_snd_numberedRecords (steps : List BuildStep) :
    (numberedRecords steps).map (·.2) = steps.filterMap BuildStep.record? := by
  rw [numberedRecords_eq]
  refine List.ext_getElem? fun place => ?_
  rw [List.getElem?_map, List.getElem?_mapIdx, Option.map_map]
  exact Option.map_id_apply

/-! ## Reading back -/

/-- The data of every record is read back. -/
theorem decode_types {steps : List BuildStep} (hnames : ∀ step ∈ steps, step.NamesEnd) :
    (steps.filterMap typeOf?).map Record.decode
      = ((steps.filterMap BuildStep.record?).map
          (TypeRecord.mapFields Record.storedFields)).map .ok := by
  induction steps with
  | nil => rfl
  | cons step steps ih =>
    obtain ⟨hstep, hrest⟩ := List.forall_mem_cons.1 hnames
    have hsome := isSome_typeOf? step
    cases hrecord : step.record? with
    | none =>
      rw [hrecord, Option.isSome_none, Option.isSome_eq_false_iff, Option.isNone_iff_eq_none]
        at hsome
      rw [List.filterMap_cons_none hsome, List.filterMap_cons_none hrecord, ih hrest]
    | some record =>
      rw [hrecord, Option.isSome_some, Option.isSome_iff_exists] at hsome
      obtain ⟨data, hdata⟩ := hsome
      rw [List.filterMap_cons_some hdata, List.filterMap_cons_some hrecord, List.map_cons,
        List.map_cons, List.map_cons, ih hrest,
        (Record.readsPadded_typeOf hstep hdata hrecord).decode]

end OffsetService.Builder
