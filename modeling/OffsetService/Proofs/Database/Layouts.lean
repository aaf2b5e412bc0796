import OffsetService.Proofs.Image.Reading
import OffsetService.Proofs.Resolve.ByName
import OffsetService.TypeStream

/-!
# The layouts of enumerations

The constants of an enumeration are read at the layout of its underlying type. Whatever records a
type stream holds, this is the layout of a built-in integer type or the one that stands in where none
is found (`Resolve.mem_ofEnumerations_of_enumLayout`): an integer type is encoded in an index alone,
and no record is decoded to one (`Record.integer?_of_decode`).
-/

namespace OffsetService

/-! ## Decoded records -/

namespace Decoder

variable {α β : Type} {P : α → Prop} {Q : β → Prop} {d : Decoder β} {f : β → Decoder α}

/-- Whatever a decoder reads, what it gives has a property. -/
def Yields (P : α → Prop) (d : Decoder α) : Prop :=
  ∀ data a rest, d data = .ok (a, rest) → P a

theorem Yields.pure {a : α} (h : P a) : Yields P (Pure.pure a) := by
  intro data b rest hread
  cases hread
  exact h

theorem Yields.throw (defect : RecordDefect) : Yields P (throw defect) :=
  fun _ _ _ hread => by cases hread

theorem Yields.bind (hd : Yields Q d) (hf : ∀ b, Q b → Yields P (f b)) : Yields P (d >>= f) := by
  intro data a rest hread
  change (d data >>= fun read => f read.1 read.2) = .ok (a, rest) at hread
  cases hfirst : d data with
  | error defect =>
    rw [hfirst] at hread
    cases hread
  | ok read =>
    rw [hfirst] at hread
    exact hf read.1 (hd data read.1 read.2 hfirst) read.2 a rest hread

/-- What stands last in a sequence decides. -/
theorem Yields.last (hf : ∀ b, Yields P (f b)) : Yields P (d >>= f) :=
  .bind (fun _ _ _ _ => True.intro : Yields (fun _ => True) d) fun b _ => hf b

theorem Yields.run' {d : Decoder α} {data : Bytes} {a : α} (hd : Yields P d)
    (h : d.run' data = .ok a) : P a := by
  change (d data).map (·.1) = .ok a at h
  cases hread : d data with
  | error defect =>
    rw [hread] at h
    cases h
  | ok read =>
    rw [hread] at h
    cases h
    exact hd data read.1 read.2 hread

end Decoder

namespace Record

open Decoder (Yields)
open Resolve (integer?)

/-- A leaf of any kind ends in a record of its own kind, in an entry of a list, or in a defect. -/
theorem yields_decodeLeaf (leaf : UInt16) :
    Yields (fun decoded => integer? decoded.toRecord = none) (decodeLeaf leaf) := by
  unfold decodeLeaf
  dsimp only
  split
  -- each kind is a sequence of fields, some of them optional, and ends in what it gives
  all_goals
    repeat' first
      | exact .pure rfl
      | exact .throw _
      | refine .last fun _ => ?_
      | split

theorem yields_decodeBody (leaf : UInt16) :
    Yields (fun record => integer? record = none) (decodeBody leaf) := by
  unfold decodeBody
  split
  next => exact .last fun _ => .last fun _ => .pure rfl
  next => exact .bind (yields_decodeLeaf leaf) fun _ hdecoded => .pure hdecoded

/-- No record is decoded to an integer type. -/
theorem integer?_of_decode {data : Bytes} {record : TypeRecord} (h : decode data = .ok record) :
    integer? record = none :=
  (Yields.last yields_decodeBody).run' h

end Record

/-! ## Integer types -/

/-- The layouts that an enumeration can have: those of the integer types, and the one that stands
in where no integer type is found. -/
def IntegerLayout.ofEnumerations : List IntegerLayout :=
  Resolve.defaultLayout :: TypeIndex.integerKinds.map (·.2)

theorem TypeIndex.mem_ofEnumerations_of_builtIn? {index : TypeIndex} {layout : IntegerLayout}
    (h : index.builtIn? = some (.integer layout)) : layout ∈ IntegerLayout.ofEnumerations := by
  unfold builtIn? at h
  dsimp only at h
  split at h
  next => cases h
  next =>
    split at h
    next kinds found hfind =>
      split at h
      next =>
        cases h
        exact List.mem_cons_of_mem _ (List.mem_map_of_mem (List.mem_of_find?_eq_some hfind))
      next => cases h
    next => split at h <;> cases h

namespace TypeStream

/-- An integer type that is found is a built-in one. -/
theorem mem_ofEnumerations_of_decodeAt {t : TypeStream} {index : TypeIndex} {layout : IntegerLayout}
    (h : t.decodeAt index = .ok (some (.ok (.integer layout)))) :
    layout ∈ IntegerLayout.ofEnumerations := by
  unfold decodeAt at h
  split at h
  next =>
    split at h
    next record hbuiltIn =>
      cases h
      split at hbuiltIn
      next => exact TypeIndex.mem_ofEnumerations_of_builtIn? hbuiltIn
      next => cases hbuiltIn
    next => cases h
  next =>
    cases hfind : t.find index.toNat with
    | error defect =>
      rw [hfind] at h
      cases h
    | ok found =>
      rw [hfind] at h
      cases found with
      | none => cases h
      | some data =>
        have hdecode : Record.decode data = .ok (.integer layout) :=
          Option.some.inj (Except.ok.inj h)
        cases Record.integer?_of_decode hdecode

theorem mem_ofEnumerations_of_lookup {t : TypeStream} {index : TypeIndex} {layout : IntegerLayout}
    (h : (t.lookup index).outcome = .ok (some (.integer layout))) :
    layout ∈ IntegerLayout.ofEnumerations := by
  rw [lookup, Traced.outcome_bind, Traced.outcome_ofExcept] at h
  obtain ⟨found, hfound, hnext⟩ := Image.bind_eq_ok_iff.1 h
  have hat : t.decodeAt index = .ok found := by
    cases hat : t.decodeAt index with
    | error defect =>
      rw [hat] at hfound
      cases hfound
    | ok found' =>
      rw [hat] at hfound
      cases hfound
      rfl
  split at hnext
  next => cases hnext
  next =>
    cases hnext
    exact mem_ofEnumerations_of_decodeAt hat
  next => cases hnext

end TypeStream

namespace Resolve

variable {lookup : Lookup} {layout : IntegerLayout}

/-- An integer type that is reached has been looked up. -/
theorem exists_lookup_of_integerType {steps : Nat} {index : TypeIndex}
    (h : (integerType lookup steps index).outcome = .ok (some layout)) :
    ∃ last, (lookup last).outcome = .ok (some (.integer layout)) := by
  induction steps generalizing index with
  | zero => cases h
  | succ steps ih =>
    rw [integerType, Traced.outcome_bind] at h
    obtain ⟨record, hrecord, hnext⟩ := Image.bind_eq_ok_iff.1 h
    split at hnext
    next =>
      cases hnext
      exact ⟨index, hrecord⟩
    next => exact ih hnext
    next => exact ih hnext
    next => cases hnext

/-- An enumeration of a type stream has one of the layouts that enumerations can have. -/
theorem mem_ofEnumerations_of_enumLayout {t : TypeStream} {underlying : TypeIndex}
    (h : (enumLayout t.lookup underlying).outcome = .ok layout) :
    layout ∈ IntegerLayout.ofEnumerations := by
  rw [enumLayout, Traced.outcome_bind] at h
  obtain ⟨found, hfound, hlayout⟩ := Image.bind_eq_ok_iff.1 h
  cases found with
  | some found =>
    cases hlayout
    obtain ⟨last, hlast⟩ := exists_lookup_of_integerType hfound
    exact t.mem_ofEnumerations_of_lookup hlast
  | none =>
    cases hlayout
    exact List.mem_cons_self

end Resolve

end OffsetService
