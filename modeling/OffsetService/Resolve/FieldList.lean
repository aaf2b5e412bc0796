import OffsetService.Record
import OffsetService.Traced

/-!
# Walking a field list

A field list that is too long for one record goes on in another, which goes on in a third. `walk`
follows this chain and visits every entry in order. It ends at the first index that was visited
before, is absent, or is no field list, or as soon as a look-up or a visit fails.

Nothing bounds the chain in advance, for the records come from a file that may lie. The walk ends
because there are only `indexCount` indices and it visits none twice: `Visited` holds the indices so
far, without a repetition, and `Visited.remaining` counts those that are left.

The walk is stated for any monad, so that what it does (which indices it looks up, which entries it
visits, and in what order) can be observed by choosing a monad that records it.
-/

namespace OffsetService

/-- Indices that have been visited, each once. -/
structure Visited where
  indices : List TypeIndex
  nodup : indices.Nodup

namespace Visited

/-- How many indices there are. -/
def indexCount : Nat := 0x100000000

/-- Nothing visited yet. -/
def none : Visited := ⟨[], .nil⟩

/-- One more index. -/
def add (v : Visited) (index : TypeIndex) (h : index ∉ v.indices) : Visited :=
  ⟨index :: v.indices, List.nodup_cons.2 ⟨h, v.nodup⟩⟩

theorem length_le_of_forall_lt {n : Nat} {l : List Nat} (hl : l.Nodup) (h : ∀ x ∈ l, x < n) :
    l.length ≤ n := by
  induction n generalizing l with
  | zero =>
    cases l with
    | nil => simp
    | cons x _ => exact absurd (h x (by simp)) (Nat.not_lt_zero x)
  | succ n ih =>
    have hlen : (l.erase n).length ≤ n := by
      refine ih (hl.erase n) fun x hx => ?_
      obtain ⟨hne, hmem⟩ := hl.mem_erase_iff.1 hx
      have := h x hmem
      omega
    rw [List.length_erase] at hlen
    split at hlen <;> omega

theorem length_le (v : Visited) : v.indices.length ≤ indexCount := by
  have h : (v.indices.map UInt32.toNat).Nodup :=
    List.Pairwise.map _ (fun _ _ hne heq => hne (UInt32.toNat.inj heq)) v.nodup
  have := length_le_of_forall_lt (n := indexCount) h fun x hx => by
    obtain ⟨i, _, rfl⟩ := List.mem_map.1 hx
    exact i.toNat_lt
  simpa using this

/-- How many indices have not been visited. -/
def remaining (v : Visited) : Nat := indexCount - v.indices.length

theorem remaining_add_lt (v : Visited) {index : TypeIndex} (h : index ∉ v.indices) :
    (v.add index h).remaining < v.remaining := by
  have hle := (v.add index h).length_le
  simp only [add, remaining, List.length_cons] at hle ⊢
  omega

end Visited

namespace FieldList

variable {m : Type → Type} [Monad m] {σ : Type}

/-- Visit the entries of the field list at `index` and of the lists that continue it, from the state
`s` on. -/
def walkFrom (lookup : TypeIndex → m (Option TypeRecord)) (report : Event → m Unit)
    (visit : σ → FieldEntry → m σ) (visited : Visited) (index : TypeIndex) (s : σ) : m σ :=
  if h : index ∈ visited.indices then do
    report (.continuationCycle index)
    return s
  else do
    match ← lookup index with
    | some (.fieldList entries continuation) =>
      let s ← entries.foldlM visit s
      match continuation with
      | some next => walkFrom lookup report visit (visited.add index h) next s
      | none => return s
    | _ =>
      report (.notFieldList index)
      return s
termination_by visited.remaining
decreasing_by exact visited.remaining_add_lt h

/-- Visit every entry of the field list at `index`, from the state `s` on. -/
def walk (lookup : TypeIndex → m (Option TypeRecord)) (report : Event → m Unit)
    (visit : σ → FieldEntry → m σ) (index : TypeIndex) (s : σ) : m σ :=
  walkFrom lookup report visit Visited.none index s

end FieldList

end OffsetService
