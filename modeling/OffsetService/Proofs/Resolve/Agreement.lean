import OffsetService.Resolve.Types

/-!
# Queries see little of what they look up

Of a record that it looks up, a query sees whether it is a field list, a bitfield, a qualified type,
an enumeration or an integer type, and what these hold; any other record is like an absent one
(`visible`). From a record it goes on only to the indices that the record names (`followed`).

So what a definition answers is the same under two look-ups that agree, as far as can be seen, on a
set of indices that holds the definition's own and is closed under going on (`AgreeOn`,
`outcome_memberPlaces`, `outcome_constants`). The answer to a query is put together from these
(`outcome_answers`).
-/

namespace OffsetService.Resolve

/-! ## What a query sees -/

/-- What a query can see of the record that it looks up. -/
def visible : Option TypeRecord → Option TypeRecord
  | some (.struct ..) | some .other | none => none
  | some record => some record

/-- The index that an entry names. -/
def entryType? : FieldEntry → Option TypeIndex
  | .member _ type _ => some type
  | _ => none

/-- The indices that a query may go on to from a record. -/
def followed : TypeRecord → List TypeIndex
  | .fieldList entries continuation => entries.filterMap entryType? ++ continuation.toList
  | .modifier underlying | .enum _ _ underlying _ => [underlying]
  | _ => []

/-- Two look-ups that agree, as far as can be seen, on a set of indices that is closed under going
on. -/
structure AgreeOn (P : TypeIndex → Prop) (lookup lookup' : Lookup) : Prop where
  same : ∀ index, P index →
    (lookup index).outcome.map visible = (lookup' index).outcome.map visible
  closed : ∀ index, P index → ∀ record, (lookup index).outcome = .ok (some record) →
    ∀ next ∈ followed record, P next

variable {α β σ : Type}

theorem outcome_bind_visible {x y : Traced (Option TypeRecord)}
    {f g : Option TypeRecord → Traced β}
    (hsame : x.outcome.map visible = y.outcome.map visible)
    (hfg : ∀ record, x.outcome = .ok record → (f record).outcome = (g (visible record)).outcome)
    (hg : ∀ record, (g record).outcome = (g (visible record)).outcome) :
    (x >>= f).outcome = (y >>= g).outcome := by
  rw [Traced.outcome_bind, Traced.outcome_bind]
  cases hx : x.outcome with
  | error fault =>
    rw [hx] at hsame
    cases hy : y.outcome with
    | error fault' =>
      rw [hy] at hsame
      exact congrArg _ (Except.error.inj hsame)
    | ok record' =>
      rw [hy] at hsame
      cases hsame
  | ok record =>
    rw [hx] at hsame
    cases hy : y.outcome with
    | error fault' =>
      rw [hy] at hsame
      cases hsame
    | ok record' =>
      rw [hy] at hsame
      have hvisible : visible record = visible record' := Except.ok.inj hsame
      show (f record).outcome = (g record').outcome
      rw [hfg record hx, hvisible, ← hg]

theorem outcome_foldlM {f g : σ → α → Traced σ} {l : List α}
    (h : ∀ a ∈ l, ∀ s, (f s a).outcome = (g s a).outcome) (s : σ) :
    (l.foldlM f s).outcome = (l.foldlM g s).outcome := by
  induction l generalizing s with
  | nil => rfl
  | cons a l ih =>
    rw [List.foldlM_cons, List.foldlM_cons, Traced.outcome_bind, Traced.outcome_bind,
      h a (List.mem_cons_self ..)]
    cases (g s a).outcome with
    | error fault => rfl
    | ok s' => exact ih (fun b hb => h b (List.mem_cons_of_mem _ hb)) s'

section Agree

variable {P : TypeIndex → Prop} {lookup lookup' : Lookup} (h : AgreeOn P lookup lookup')

include h

/-! ## Structures -/

theorem outcome_bitPosition {type : TypeIndex} (htype : P type) :
    (bitPosition lookup type).outcome = (bitPosition lookup' type).outcome := by
  refine outcome_bind_visible (h.same type htype) (fun record _ => ?_) fun record => ?_ <;>
  · rcases record with _ | record
    · rfl
    · cases record <;> rfl

theorem outcome_noteMember (wanted : NameSet) {entry : FieldEntry}
    (hentry : ∀ type ∈ entryType? entry, P type) (found : NameMap FieldPlace) :
    (noteMember lookup wanted found entry).outcome
      = (noteMember lookup' wanted found entry).outcome := by
  cases entry with
  | member name type offset =>
    rw [noteMember, noteMember]
    by_cases hwanted : wanted.contains name && !found.contains name
    · rw [if_pos hwanted, if_pos hwanted, Traced.outcome_bind, Traced.outcome_bind,
        outcome_bitPosition h (hentry type rfl)]
    · rw [if_neg hwanted, if_neg hwanted]
  | enumerator name value => rfl
  | other => rfl

/-- A walk goes the same way under both look-ups. -/
theorem outcome_walkFrom {visit visit' : σ → FieldEntry → Traced σ}
    (hvisit : ∀ entry, (∀ type ∈ entryType? entry, P type) → ∀ s,
      (visit s entry).outcome = (visit' s entry).outcome)
    (visited : Visited) {index : TypeIndex} (hindex : P index) (s : σ) :
    (FieldList.walkFrom lookup Traced.report visit visited index s).outcome
      = (FieldList.walkFrom lookup' Traced.report visit' visited index s).outcome := by
  rw [FieldList.walkFrom, FieldList.walkFrom]
  split
  next => rfl
  next hnew =>
    refine outcome_bind_visible (h.same index hindex) (fun record hrecord => ?_) fun record => ?_
    · rcases record with _ | record
      · rfl
      · cases record with
        | fieldList entries continuation =>
          have hfollowed := h.closed index hindex _ hrecord
          have hentries : ∀ entry ∈ entries, ∀ s, (visit s entry).outcome
              = (visit' s entry).outcome := fun entry hentry =>
            hvisit entry fun type htype => hfollowed type
              (List.mem_append_left _ (List.mem_filterMap.2 ⟨entry, hentry, htype⟩))
          show (entries.foldlM visit s >>= _).outcome = (entries.foldlM visit' s >>= _).outcome
          rw [Traced.outcome_bind, Traced.outcome_bind, outcome_foldlM hentries]
          cases continuation with
          | none => rfl
          | some next =>
            have hnext : P next :=
              hfollowed next (List.mem_append_right _ (List.mem_singleton_self _))
            congr 1
            funext s'
            exact outcome_walkFrom hvisit (visited.add index hnew) hnext s'
        | _ => rfl
    · rcases record with _ | record
      · rfl
      · cases record <;> rfl
termination_by visited.remaining
decreasing_by exact visited.remaining_add_lt ‹_›

/-! ## Enumerations -/

theorem outcome_integerType (steps : Nat) {index : TypeIndex} (hindex : P index) :
    (integerType lookup steps index).outcome = (integerType lookup' steps index).outcome := by
  induction steps generalizing index with
  | zero => rfl
  | succ steps ih =>
    refine outcome_bind_visible (h.same index hindex) (fun record hrecord => ?_) fun record => ?_
    · rcases record with _ | record
      · rfl
      · have hfollowed := h.closed index hindex _ hrecord
        cases record with
        | modifier underlying => exact ih (hfollowed underlying (List.mem_singleton_self _))
        | enum name forward underlying fields =>
          exact ih (hfollowed underlying (List.mem_singleton_self _))
        | _ => rfl
    · rcases record with _ | record
      · rfl
      · cases record <;> rfl

theorem outcome_constants (wanted : NameSet) {definition : EnumDefinition}
    (hunderlying : P definition.underlying) (hfields : P definition.fields) :
    (constants lookup wanted definition).outcome
      = (constants lookup' wanted definition).outcome := by
  have hlayout : (enumLayout lookup definition.underlying).outcome
      = (enumLayout lookup' definition.underlying).outcome := by
    rw [enumLayout, enumLayout, Traced.outcome_bind, Traced.outcome_bind,
      outcome_integerType h maxChain hunderlying]
  rw [constants, constants, Traced.outcome_bind, Traced.outcome_bind, hlayout]
  congr 1
  funext layout
  exact outcome_walkFrom h (fun _ _ _ => rfl) Visited.none hfields _

theorem outcome_memberPlaces (wanted : NameSet) {fields : Option TypeIndex}
    (hfields : ∀ index ∈ fields, P index) :
    (memberPlaces lookup wanted fields).outcome = (memberPlaces lookup' wanted fields).outcome := by
  cases fields with
  | none => rfl
  | some index =>
    exact outcome_walkFrom h (fun entry hentry => outcome_noteMember h wanted hentry)
      Visited.none (hfields index rfl) _

end Agree

/-! ## Queries -/

variable {δ : Type}

/-- The answers for the names of a query that have a definition. -/
def answers (missing : String → Event) (known : NameMap δ) (answer : NameSet → δ → Traced α)
    (query : NestedQuery) : Traced (NameMap α) :=
  query.entries.foldlM (fun (found : NameMap α) ((name, wanted) : String × NameSet) => do
    match known.get? name with
    | none =>
      Traced.report (missing name)
      return found
    | some definition => return found.addNew name (← answer wanted definition))
    NameMap.empty

theorem structs_eq_answers (lookup : Lookup) (known : Definitions) (query : NestedQuery) :
    structs lookup known query
      = answers (.noDefinition .struct) known.structs (memberPlaces lookup) query := by
  unfold structs answers
  congr 1
  funext found entry
  obtain ⟨name, wanted⟩ := entry
  dsimp only
  cases known.structs.get? name <;> rfl

theorem enums_eq_answers (lookup : Lookup) (known : Definitions) (query : NestedQuery) :
    enums lookup known query
      = answers (.noDefinition .enum) known.enums (constants lookup) query := by
  unfold enums answers
  congr 1
  funext found entry
  obtain ⟨name, wanted⟩ := entry
  dsimp only
  cases known.enums.get? name <;> rfl

/-- Answers for the names give the answer to the query. -/
theorem outcome_answers {missing : String → Event} {known known' : NameMap δ}
    {answer answer' : NameSet → δ → Traced α}
    (h : ∀ name wanted,
      (known.get? name).map (fun definition => (answer wanted definition).outcome)
        = (known'.get? name).map fun definition => (answer' wanted definition).outcome)
    (query : NestedQuery) :
    (answers missing known answer query).outcome
      = (answers missing known' answer' query).outcome := by
  refine outcome_foldlM (fun entry _ found => ?_) _
  obtain ⟨name, wanted⟩ := entry
  have hname := h name wanted
  dsimp only
  cases hdefinition : known.get? name with
  | none =>
    rw [hdefinition] at hname
    rw [Option.map_eq_none_iff.1 hname.symm]
  | some definition =>
    rw [hdefinition] at hname
    obtain ⟨definition', hdefinition', hanswer⟩ := Option.map_eq_some_iff.1 hname.symm
    rw [hdefinition', Traced.outcome_bind, Traced.outcome_bind, hanswer]

end OffsetService.Resolve
