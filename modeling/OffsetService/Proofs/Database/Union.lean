import OffsetService.Database
import OffsetService.Proofs.Database.Symbols
import OffsetService.Proofs.Resolve.Answers

/-!
# Asking two queries at once

A query that asks for all that two queries ask for succeeds exactly when both do, and answers with
what they answer and nothing else (`queries_join`). It may read a file further than either, stop its
scan of the symbols elsewhere and look up more records; none of this shows in the answer.

For types this holds because what a query has to look up is the union of what its names and members
have to look up (`mem_structLookups_iff`, `mem_enumLookups_iff`); for symbols, because the wanted
names of both queries are covered when those of each are (`covered_union_iff`).
-/

namespace OffsetService

/-- The names of two sets. -/
def NameSet.union (a b : NameSet) : NameSet := NameMap.merge (fun _ _ => ()) a b

/-- All that two queries ask for: the names of both, and for a name in both the members of both. -/
def NestedQuery.union (a b : NestedQuery) : NestedQuery := NameMap.merge NameSet.union a b

/-- Whether a query asks for a member of a type. -/
def NestedQuery.Asks (query : NestedQuery) (name member : String) : Prop :=
  ∃ wanted, query.get? name = some wanted ∧ wanted.contains member = true

namespace NameMap

variable {α : Type}

theorem contains_merge (both : α → α → α) (a b : NameMap α) (name : String) :
    (a.merge both b).contains name = (a.contains name || b.contains name) := by
  rw [contains, get?_merge, contains, contains]
  cases a.get? name <;> cases b.get? name <;> rfl

/-- Whether a map of maps has a value for a name and a member. -/
def Holds (m : NameMap (NameMap α)) (name member : String) (value : α) : Prop :=
  ∃ inner, m.get? name = some inner ∧ inner.get? member = some value

end NameMap

theorem NestedQuery.contains_union (a b : NestedQuery) (name : String) :
    (a.union b).contains name = (a.contains name || b.contains name) :=
  NameMap.contains_merge _ a b name

theorem NestedQuery.asks_union_iff {a b : NestedQuery} {name member : String} :
    (a.union b).Asks name member ↔ a.Asks name member ∨ b.Asks name member := by
  simp only [Asks, union, NameMap.get?_merge]
  cases a.get? name <;> cases b.get? name <;>
    simp [NameSet.union, NameMap.contains_merge, Option.merge]

/-! ## Look-ups of a union -/

namespace Resolve

open FieldList (Station trail entriesOf)

theorem findSome?_member_cons (name : String) (type : TypeIndex) (offset : UInt64)
    (rest : List FieldEntry) (other : String) :
    (.member name type offset :: rest : List FieldEntry).findSome? (member? other)
      = if name = other then some (type, offset) else rest.findSome? (member? other) := by
  rw [List.findSome?_cons, member?]
  by_cases h : name = other <;> simp [h]

/-- For wanted members the field lists of a trail are looked up, and the type of the first member of
each wanted name. -/
theorem mem_memberLookups_iff {index : TypeIndex} {wanted : NameSet} {stations : List Station} :
    index ∈ memberLookups wanted stations ↔ index ∈ listsOf stations ∨
      ∃ name offset, wanted.contains name = true ∧
        (entriesOf stations).findSome? (member? name) = some (index, offset) := by
  induction stations generalizing wanted with
  | nil => simp [memberLookups, listsOf, entriesOf]
  | cons station rest ih =>
    cases station with
    | list first =>
      rw [memberLookups, List.mem_cons, ih, ← or_assoc]
      exact or_congr_left List.mem_cons.symm
    | entry entry =>
      have hlists : listsOf (.entry entry :: rest) = listsOf rest := rfl
      rw [hlists, entriesOf_entry]
      cases entry with
      | member name type offset =>
        simp only [findSome?_member_cons]
        rw [memberLookups]
        by_cases hname : wanted.contains name
        · rw [if_pos hname, List.mem_cons, ih]
          constructor
          · rintro (rfl | hlist | ⟨other, place, hother, hfirst⟩)
            · exact .inr ⟨name, offset, hname, if_pos rfl⟩
            · exact .inl hlist
            · rw [NameMap.contains, NameMap.get?_erase] at hother
              by_cases heq : other = name
              · simp [heq] at hother
              · rw [if_neg heq] at hother
                exact .inr ⟨other, place, hother, by rw [if_neg (Ne.symm heq), hfirst]⟩
          · rintro (hlist | ⟨other, place, hother, hfirst⟩)
            · exact .inr (.inl hlist)
            · by_cases heq : name = other
              · rw [if_pos heq, Option.some.injEq, Prod.mk.injEq] at hfirst
                exact .inl hfirst.1.symm
              · rw [if_neg heq] at hfirst
                refine .inr (.inr ⟨other, place, ?_, hfirst⟩)
                rw [NameMap.contains, NameMap.get?_erase, if_neg (Ne.symm heq)]
                exact hother
        · rw [if_neg hname, ih]
          refine or_congr_right (exists_congr fun other => exists_congr fun place =>
            and_congr_right fun hother => ?_)
          have hne : name ≠ other := fun heq => hname (heq ▸ hother)
          rw [if_neg hne]
      | enumerator name value => exact ih
      | other => exact ih

theorem mem_structLookups_iff {record? : TypeIndex → Option TypeRecord}
    {records : List TypeRecord} {query : NestedQuery} {index : TypeIndex} :
    index ∈ structLookups record? records query ↔
      (∃ name fields, query.contains name = true ∧
        records.findSome? (structure? name) = some fields ∧
          index ∈ listsOf (structTrail record? fields)) ∨
      ∃ name member fields offset, query.Asks name member ∧
        records.findSome? (structure? name) = some fields ∧
          (entriesOf (structTrail record? fields)).findSome? (member? member)
            = some (index, offset) := by
  rw [structLookups, List.mem_flatMap]
  constructor
  · rintro ⟨⟨name, wanted⟩, hentry, hindex⟩
    have hwanted : query.get? name = some wanted := NameMap.get?_of_mem hentry
    dsimp only at hindex
    cases hfields : records.findSome? (structure? name) with
    | none => simp [hfields] at hindex
    | some fields =>
      rw [hfields] at hindex
      rcases mem_memberLookups_iff.1 hindex with hlist | ⟨member, offset, hmember, hfirst⟩
      · exact .inl ⟨name, fields, NameMap.contains_iff.2 ⟨wanted, hwanted⟩, hfields, hlist⟩
      · exact .inr ⟨name, member, fields, offset, ⟨wanted, hwanted, hmember⟩, hfields, hfirst⟩
  · rintro (⟨name, fields, hname, hfields, hlist⟩ |
      ⟨name, member, fields, offset, ⟨wanted, hwanted, hmember⟩, hfields, hfirst⟩)
    · obtain ⟨wanted, hwanted⟩ := NameMap.contains_iff.1 hname
      refine ⟨(name, wanted), NameMap.mem_of_get? hwanted, ?_⟩
      dsimp only
      rw [hfields]
      exact mem_memberLookups_iff.2 (.inl hlist)
    · refine ⟨(name, wanted), NameMap.mem_of_get? hwanted, ?_⟩
      dsimp only
      rw [hfields]
      exact mem_memberLookups_iff.2 (.inr ⟨member, offset, hmember, hfirst⟩)

theorem mem_enumLookups_iff {record? : TypeIndex → Option TypeRecord}
    {records : List TypeRecord} {query : NestedQuery} {index : TypeIndex} :
    index ∈ enumLookups record? records query ↔
      ∃ name definition, query.contains name = true ∧
        records.findSome? (enumeration? name) = some definition ∧
          index ∈ underlyingPath record? definition.underlying
            ++ listsOf (trail record? definition.fields) := by
  rw [enumLookups, List.mem_flatMap]
  constructor
  · rintro ⟨⟨name, wanted⟩, hentry, hindex⟩
    dsimp only at hindex
    cases hdefinition : records.findSome? (enumeration? name) with
    | none => simp [hdefinition] at hindex
    | some definition =>
      rw [hdefinition] at hindex
      exact ⟨name, definition, NameMap.contains_iff.2 ⟨wanted, NameMap.get?_of_mem hentry⟩,
        hdefinition, hindex⟩
  · rintro ⟨name, definition, hname, hdefinition, hindex⟩
    obtain ⟨wanted, hwanted⟩ := NameMap.contains_iff.1 hname
    refine ⟨(name, wanted), NameMap.mem_of_get? hwanted, ?_⟩
    dsimp only
    rw [hdefinition]
    exact hindex

section Union

variable {record? : TypeIndex → Option TypeRecord} {records : List TypeRecord} {a b : NestedQuery}
  {index : TypeIndex}

theorem mem_structLookups_union_iff :
    index ∈ structLookups record? records (a.union b) ↔
      index ∈ structLookups record? records a ∨ index ∈ structLookups record? records b := by
  simp only [mem_structLookups_iff, NestedQuery.asks_union_iff, NestedQuery.contains_union,
    Bool.or_eq_true, or_and_right, exists_or]
  exact or_or_or_comm

theorem mem_enumLookups_union_iff :
    index ∈ enumLookups record? records (a.union b) ↔
      index ∈ enumLookups record? records a ∨ index ∈ enumLookups record? records b := by
  simp only [mem_enumLookups_iff, NestedQuery.contains_union, Bool.or_eq_true, or_and_right,
    exists_or]

end Union

end Resolve

namespace Database

/-! ## Joint outcomes -/

/-- The outcome of asking for two things at once, beside the outcomes of asking for each. -/
structure Joint {α : Type} (IsUnion : α → α → α → Prop) (first second both : Except Fault α) :
    Prop where
  succeeds : (∃ c, both = .ok c) ↔ (∃ a, first = .ok a) ∧ ∃ b, second = .ok b
  answer : ∀ {a b c}, first = .ok a → second = .ok b → both = .ok c → IsUnion a b c

/-- An answer about symbols has the addresses of two answers and no others. For a name that one of
the two queries does not ask for, it says what the answer to the other says. -/
structure JoinsSymbols (first second : NameSet) (a b c : SymbolMap) : Prop where
  entries : ∀ name address, c.get? name = some address ↔
    a.get? name = some address ∨ b.get? name = some address
  left : ∀ name, second.contains name = false → c.get? name = a.get? name
  right : ∀ name, first.contains name = false → c.get? name = b.get? name

/-- An answer about types has the types and the members of two answers and no others. For a type that
one of the two queries does not ask for, it says what the answer to the other says. -/
structure JoinsTypes {α : Type} (first second : NestedQuery) (a b c : NameMap (NameMap α)) :
    Prop where
  names : ∀ name, c.contains name = true ↔ a.contains name = true ∨ b.contains name = true
  entries : ∀ name member value, c.Holds name member value ↔
    a.Holds name member value ∨ b.Holds name member value
  left : ∀ name, second.contains name = false → c.get? name = a.get? name
  right : ∀ name, first.contains name = false → c.get? name = b.get? name

variable {α β δ : Type}

theorem joint_of_iff {IsUnion : α → α → α → Prop} {first second both : Except Fault α}
    {p q : Prop} {a b c : α} (hfirst : ∀ m, first = .ok m ↔ p ∧ m = a)
    (hsecond : ∀ m, second = .ok m ↔ q ∧ m = b) (hboth : ∀ m, both = .ok m ↔ (p ∧ q) ∧ m = c)
    (hunion : IsUnion a b c) : Joint IsUnion first second both where
  succeeds := by simp [hfirst, hsecond, hboth]
  answer {x y z} hx hy hz := by
    rw [hfirst] at hx
    rw [hsecond] at hy
    rw [hboth] at hz
    rw [hx.2, hy.2, hz.2]
    exact hunion

theorem joint_of_errors {IsUnion : α → α → α → Prop} {first second both : Except Fault α}
    {fault : Fault} (hfirst : first = .error fault) (hsecond : second = .error fault)
    (hboth : both = .error fault) : Joint IsUnion first second both where
  succeeds := by simp [hfirst, hsecond, hboth]
  answer h := by simp [hfirst] at h

/-! ## Symbols -/

open SymbolStream (firstAddresses Covered)

theorem covered_union_iff {addresses : AddressMap} {a b : NameSet}
    {symbols : List SymbolStream.Symbol} :
    Covered addresses (a.union b) symbols ↔
      Covered addresses a symbols ∧ Covered addresses b symbols := by
  simp only [Covered, NameSet.union, NameMap.contains_merge, Bool.or_eq_true]
  constructor
  · rintro ⟨hne, hall⟩
    exact ⟨⟨hne, fun name h => hall name (.inl h)⟩, hne, fun name h => hall name (.inr h)⟩
  · rintro ⟨⟨hne, ha⟩, -, hb⟩
    exact ⟨hne, fun name h => h.elim (ha name) (hb name)⟩

theorem joinsSymbols_firstAddresses (addresses : AddressMap) (a b : NameSet)
    (symbols : List SymbolStream.Symbol) :
    JoinsSymbols a b (firstAddresses addresses a symbols) (firstAddresses addresses b symbols)
      (firstAddresses addresses (a.union b) symbols) where
  entries name address := by
    rw [SymbolStream.get?_firstAddresses, SymbolStream.get?_firstAddresses,
      SymbolStream.get?_firstAddresses, NameSet.union, NameMap.contains_merge]
    cases a.contains name <;> cases b.contains name <;> simp
  left name hname := by
    rw [SymbolStream.get?_firstAddresses, SymbolStream.get?_firstAddresses, NameSet.union,
      NameMap.contains_merge, hname, Bool.or_false]
  right name hname := by
    rw [SymbolStream.get?_firstAddresses, SymbolStream.get?_firstAddresses, NameSet.union,
      NameMap.contains_merge, hname, Bool.false_or]

/-- A query for symbols fails at the first of its three steps that finds a defect. -/
theorem outcome_symbols_eq_mapError (db : Database) (wanted : NameSet) :
    (db.symbols wanted).outcome
      = (db.symbolRecords >>= fun records => db.addressMap >>= fun addresses =>
        SymbolStream.collect addresses wanted records).mapError (.malformedDatabase none) := by
  rw [symbols, Traced.outcome_bind]
  cases db.symbolRecords with
  | error defect => rfl
  | ok records =>
    show (step db.addressMap >>= _).outcome = _
    rw [Traced.outcome_bind]
    cases db.addressMap with
    | error defect => rfl
    | ok addresses =>
      show (step (SymbolStream.collect addresses wanted records) >>= _).outcome
        = (SymbolStream.collect addresses wanted records).mapError _
      rw [Traced.outcome_bind]
      cases SymbolStream.collect addresses wanted records <;> rfl

theorem joint_symbols (db : Database) (a b : NameSet) :
    Joint (JoinsSymbols a b) (db.symbols a).outcome (db.symbols b).outcome
      (db.symbols (a.union b)).outcome := by
  simp only [outcome_symbols_eq_mapError]
  cases db.symbolRecords with
  | error defect => exact joint_of_errors rfl rfl rfl
  | ok records =>
    cases db.addressMap with
    | error defect => exact joint_of_errors rfl rfl rfl
    | ok addresses =>
      have hok : ∀ wanted found,
          (SymbolStream.collect addresses wanted records).mapError (Fault.malformedDatabase none)
              = .ok found ↔
            (SymbolStream.defect? records = none ∨
              Covered addresses wanted (SymbolStream.symbols records)) ∧
            found = firstAddresses addresses wanted (SymbolStream.symbols records) := by
        intro wanted found
        rw [← SymbolStream.collect_eq_ok_iff]
        cases SymbolStream.collect addresses wanted records <;> simp [Except.mapError]
      refine joint_of_iff (hok a) (hok b) (fun found => (hok _ found).trans ?_)
        (joinsSymbols_firstAddresses ..)
      rw [covered_union_iff, or_and_left]

/-! ## Types -/

/-- An answer that is put together from the definitions of names and the values of their members. -/
def answerBy (defined : String → Option δ) (value : δ → String → Option α) (query : NestedQuery) :
    NameMap (NameMap α) :=
  query.select fun name wanted => (defined name).map fun definition =>
    wanted.select fun member _ => value definition member

theorem get?_answerBy (defined : String → Option δ) (value : δ → String → Option α)
    (query : NestedQuery) (name : String) :
    (answerBy defined value query).get? name
      = (query.get? name).bind fun wanted => (defined name).map fun definition =>
        wanted.select fun member _ => value definition member :=
  NameMap.get?_select _ _ _

theorem contains_answerBy_iff {defined : String → Option δ} {value : δ → String → Option α}
    {query : NestedQuery} {name : String} :
    (answerBy defined value query).contains name = true ↔
      query.contains name = true ∧ ∃ definition, defined name = some definition := by
  rw [NameMap.contains, get?_answerBy, NameMap.contains]
  cases query.get? name <;> cases defined name <;> simp

theorem holds_answerBy_iff {defined : String → Option δ} {value : δ → String → Option α}
    {query : NestedQuery} {name member : String} {v : α} :
    (answerBy defined value query).Holds name member v ↔ query.Asks name member ∧
      ∃ definition, defined name = some definition ∧ value definition member = some v := by
  rw [NameMap.Holds, get?_answerBy, NestedQuery.Asks]
  cases query.get? name with
  | none => simp
  | some wanted =>
    cases defined name with
    | none => simp
    | some definition =>
      simp only [Option.bind_some, Option.map_some, Option.some.injEq, exists_eq_left',
        NameMap.get?_select, NameMap.contains]
      cases wanted.get? member <;> simp

theorem joinsTypes_answerBy (defined : String → Option δ) (value : δ → String → Option α)
    (a b : NestedQuery) :
    JoinsTypes a b (answerBy defined value a) (answerBy defined value b)
      (answerBy defined value (a.union b)) where
  names name := by
    rw [contains_answerBy_iff, contains_answerBy_iff, contains_answerBy_iff, NestedQuery.union,
      NameMap.contains_merge, Bool.or_eq_true, or_and_right]
  entries name member v := by
    rw [holds_answerBy_iff, holds_answerBy_iff, holds_answerBy_iff, NestedQuery.asks_union_iff,
      or_and_right]
  left name hname := by
    have hnone : b.get? name = none := by simpa [NameMap.contains] using hname
    rw [get?_answerBy, get?_answerBy, NestedQuery.union, NameMap.get?_merge, hnone]
    cases a.get? name <;> rfl
  right name hname := by
    have hnone : a.get? name = none := by simpa [NameMap.contains] using hname
    rw [get?_answerBy, get?_answerBy, NestedQuery.union, NameMap.get?_merge, hnone]
    cases b.get? name <;> rfl

/-- Queries of types that answer once all their look-ups have succeeded are joint, if what they look
up is joined and so are their answers. -/
theorem joint_after {IsUnion : α → α → α → Prop} {lookup : Lookup}
    {first second both : List TypeIndex} {a b c : α}
    (hneeded : ∀ index, index ∈ both ↔ index ∈ first ∨ index ∈ second) (hunion : IsUnion a b c) :
    Joint IsUnion (lookup.after first a) (lookup.after second b) (lookup.after both c) := by
  refine joint_of_iff (fun _ => Lookup.after_eq_ok_iff) (fun _ => Lookup.after_eq_ok_iff)
    (fun found => Lookup.after_eq_ok_iff.trans (and_congr_left fun _ => ?_)) hunion
  simp only [List.findSome?_eq_none_iff, hneeded, or_imp, forall_and]

theorem outcome_structs_eq_after (db : Database) (query : NestedQuery) :
    (db.structs query).outcome
      = (db.typeStream.mapError (.malformedDatabase none)) >>= fun types =>
        types.lookup.after (Resolve.structLookups types.lookup.record? types.decoded query)
          (Resolve.structAnswer types.lookup.record? types.decoded query) := by
  rw [structs, Traced.outcome_bind]
  refine bind_congr fun types => ?_
  exact Resolve.structs_ofRecords_eq_after types.lookup types.decoded query

theorem outcome_enums_eq_after (db : Database) (query : NestedQuery) :
    (db.enums query).outcome
      = (db.typeStream.mapError (.malformedDatabase none)) >>= fun types =>
        types.lookup.after (Resolve.enumLookups types.lookup.record? types.decoded query)
          (Resolve.enumAnswer types.lookup.record? types.decoded query) := by
  rw [enums, Traced.outcome_bind]
  refine bind_congr fun types => ?_
  exact Resolve.enums_ofRecords_eq_after types.lookup types.decoded query

theorem joint_structs (db : Database) (a b : NestedQuery) :
    Joint (JoinsTypes a b) (db.structs a).outcome (db.structs b).outcome
      (db.structs (a.union b)).outcome := by
  simp only [outcome_structs_eq_after]
  cases db.typeStream with
  | error defect => exact joint_of_errors rfl rfl rfl
  | ok types =>
    exact joint_after (fun index => Resolve.mem_structLookups_union_iff) (joinsTypes_answerBy ..)

theorem joint_enums (db : Database) (a b : NestedQuery) :
    Joint (JoinsTypes a b) (db.enums a).outcome (db.enums b).outcome
      (db.enums (a.union b)).outcome := by
  simp only [outcome_enums_eq_after]
  cases db.typeStream with
  | error defect => exact joint_of_errors rfl rfl rfl
  | ok types =>
    exact joint_after (fun index => Resolve.mem_enumLookups_union_iff) (joinsTypes_answerBy ..)

/-! ## All queries -/

/-- **Queries join.** For every database, sound or damaged, and any two queries of one kind: the query
that asks for all that both ask for succeeds exactly when both succeed, and then its answer has the
entries of their answers and no others. What it says of a name that only one of them asks for is what
that one says. -/
theorem queries_join (db : Database) :
    (∀ a b : NameSet, Joint (JoinsSymbols a b) (db.symbols a).outcome (db.symbols b).outcome
      (db.symbols (a.union b)).outcome) ∧
    (∀ a b : NestedQuery, Joint (JoinsTypes a b) (db.structs a).outcome (db.structs b).outcome
      (db.structs (a.union b)).outcome) ∧
    ∀ a b : NestedQuery, Joint (JoinsTypes a b) (db.enums a).outcome (db.enums b).outcome
      (db.enums (a.union b)).outcome :=
  ⟨db.joint_symbols, db.joint_structs, db.joint_enums⟩

end Database

end OffsetService
