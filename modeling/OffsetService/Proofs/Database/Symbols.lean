import Mathlib.Data.List.Perm.Subperm
import OffsetService.Proofs.Names
import OffsetService.SymbolStream

/-!
# The early stop of a symbol scan

A scan stops as soon as every wanted name has an address, so what it reads depends on what is wanted.
What it answers does not: `firstAddresses` takes the first address of each wanted name among all
symbols that the stream holds before it ends or breaks off, and `collect_eq_ok_iff` says that a scan
answers with it, if the stream ends well or the wanted names are `Covered` before it breaks off.
-/

namespace OffsetService

/-! ## Complete collections -/

namespace NameMap

variable {α β : Type}

theorem nodup_names (m : NameMap α) : m.names.Nodup :=
  (List.pairwise_map.2 m.ascending).imp fun h => String.ne_of_lt h

/-- A map whose names are all in another one has as many names exactly when it has all of them. -/
theorem size_eq_iff {found : NameMap α} {wanted : NameMap β}
    (h : ∀ name, found.contains name = true → wanted.contains name = true) :
    found.size = wanted.size ↔
      ∀ name, wanted.contains name = true → found.contains name = true := by
  have hsubset : found.names ⊆ wanted.names := fun name hname =>
    mem_names_iff.2 (h name (mem_names_iff.1 hname))
  have hfound : found.size = found.names.length := (List.length_map ..).symm
  have hwanted : wanted.size = wanted.names.length := (List.length_map ..).symm
  rw [hfound, hwanted]
  constructor
  · intro hlength name hname
    have hperm := (found.nodup_names.subperm hsubset).perm_of_length_le (Nat.le_of_eq hlength.symm)
    exact mem_names_iff.1 (hperm.mem_iff.2 (mem_names_iff.2 hname))
  · intro hall
    refine ((List.perm_ext_iff_of_nodup found.nodup_names wanted.nodup_names).2 fun name =>
      ⟨fun hname => hsubset hname, fun hname => ?_⟩).length_eq
    exact mem_names_iff.2 (hall name (mem_names_iff.1 hname))

end NameMap

namespace Collector

theorem wanted_offer (c : Collector) (name : String) (address : UInt64) :
    (c.offer name address).wanted = c.wanted := by
  rw [offer]
  split <;> rfl

/-- An offer adds an address of its own name only, and only where it is wanted and has none. -/
theorem get?_found_offer (c : Collector) (name : String) (address : UInt64) (other : String) :
    (c.offer name address).found.get? other = (c.found.get? other).or
      (if c.wanted.contains other ∧ other = name then some address.toInt64 else none) := by
  rw [offer]
  by_cases hname : other = name
  · subst hname
    by_cases hwanted : c.wanted.contains other <;> simp [hwanted, NameMap.get?_addNew]
  · by_cases hwanted : c.wanted.contains name <;> simp [hwanted, hname, NameMap.get?_addNew]

end Collector

/-! ## Symbols of a stream -/

namespace SymbolStream

/-- The symbols that a stream holds, and the defect at which it breaks off, if it does. -/
def readSymbols : (fuel : Nat) → Bytes → List Symbol × Option DatabaseDefect
  | 0, _ => ([], none)
  | fuel + 1, stream =>
    match Container.nextRecord .symbolTooShort stream with
    | .error defect => ([], some defect)
    | .ok none => ([], none)
    | .ok (some (data, rest)) =>
      let (symbols, defect) := readSymbols fuel rest
      ((symbol? data).toList ++ symbols, defect)

/-- The symbols of a whole stream, as far as it can be read. -/
def symbols (stream : Bytes) : List Symbol := (readSymbols (stream.length + 1) stream).1

/-- Why a stream cannot be read to its end. -/
def defect? (stream : Bytes) : Option DatabaseDefect :=
  (readSymbols (stream.length + 1) stream).2

/-- The address of a symbol of this name. -/
def addressOf? (addresses : AddressMap) (name : String) (s : Symbol) : Option UInt32 :=
  if s.name = name then addresses.address? s.sectionNumber s.offset else none

/-- The first addresses of the wanted names. -/
def firstAddresses (addresses : AddressMap) (wanted : NameSet) (found : List Symbol) : SymbolMap :=
  wanted.select fun name _ => (found.findSome? (addressOf? addresses name)).map
    fun address => address.toUInt64.toInt64

/-- There are symbols, and among them an address of each wanted name. -/
def Covered (addresses : AddressMap) (wanted : NameSet) (found : List Symbol) : Prop :=
  found ≠ [] ∧ ∀ name, wanted.contains name = true →
    ∃ address, found.findSome? (addressOf? addresses name) = some address

/-! ## Scanning symbols -/

/-- A scan of symbols that have been read, up to a defect if there is one. -/
def scanSymbols (addresses : AddressMap) (defect : Option DatabaseDefect) (c : Collector) :
    List Symbol → Except DatabaseDefect Collector
  | [] => defect.elim (.ok c) .error
  | s :: rest =>
    let c := offer addresses c s
    if c.isComplete then .ok c else scanSymbols addresses defect c rest

theorem scan_eq_scanSymbols (addresses : AddressMap) (fuel : Nat) (c : Collector)
    (stream : Bytes) :
    scan addresses fuel c stream
      = scanSymbols addresses (readSymbols fuel stream).2 c (readSymbols fuel stream).1 := by
  induction fuel generalizing c stream with
  | zero => rfl
  | succ fuel ih =>
    rw [scan, readSymbols]
    cases Container.nextRecord .symbolTooShort stream with
    | error defect => rfl
    | ok next =>
      rcases next with _ | ⟨data, rest⟩
      · rfl
      · simp only [Except.bind, bind]
        cases symbol? data with
        | none => exact ih c rest
        | some s =>
          rw [Option.toList_some, List.singleton_append, scanSymbols]
          dsimp only
          rw [ih]
          rfl

/-- A collector has addresses of wanted names only. -/
def FindsWanted (c : Collector) : Prop :=
  ∀ name, c.found.contains name = true → c.wanted.contains name = true

theorem FindsWanted.isComplete_iff {c : Collector} (h : FindsWanted c) :
    c.isComplete = true ↔ ∀ name, c.wanted.contains name = true → c.found.contains name = true := by
  rw [Collector.isComplete, beq_iff_eq]
  exact NameMap.size_eq_iff h

theorem FindsWanted.offer_address {c : Collector} (h : FindsWanted c) (name : String)
    (address : UInt64) : FindsWanted (c.offer name address) := by
  intro other hother
  rw [Collector.wanted_offer]
  rw [NameMap.contains, Collector.get?_found_offer] at hother
  by_cases hwanted : c.wanted.contains other ∧ other = name
  · exact hwanted.1
  · rw [if_neg hwanted, Option.or_none] at hother
    exact h other hother

theorem wanted_offer (addresses : AddressMap) (c : Collector) (s : Symbol) :
    (offer addresses c s).wanted = c.wanted := by
  rw [offer]
  cases addresses.address? s.sectionNumber s.offset with
  | none => rfl
  | some address => exact c.wanted_offer _ _

theorem get?_found_offer (addresses : AddressMap) (c : Collector) (s : Symbol) (name : String) :
    (offer addresses c s).found.get? name
      = (c.found.get? name).or (if c.wanted.contains name then
        (addressOf? addresses name s).map fun address => address.toUInt64.toInt64 else none) := by
  rw [offer, addressOf?]
  cases addresses.address? s.sectionNumber s.offset with
  | none => simp
  | some address =>
    dsimp only
    rw [Collector.get?_found_offer]
    by_cases hname : name = s.name
    · simp [hname]
    · simp [hname, Ne.symm hname]

theorem FindsWanted.offer {c : Collector} (h : FindsWanted c) (addresses : AddressMap) (s : Symbol) :
    FindsWanted (SymbolStream.offer addresses c s) := by
  rw [SymbolStream.offer]
  cases addresses.address? s.sectionNumber s.offset with
  | none => exact h
  | some address => exact h.offer_address _ _

theorem get?_firstAddresses (addresses : AddressMap) (wanted : NameSet) (found : List Symbol)
    (name : String) :
    (firstAddresses addresses wanted found).get? name
      = if wanted.contains name then (found.findSome? (addressOf? addresses name)).map
        fun address => address.toUInt64.toInt64 else none := by
  rw [firstAddresses, NameMap.get?_select, NameMap.contains]
  cases wanted.get? name <;> rfl

/-- The first address of a wanted name may be collected at once. -/
theorem found_offer_merge (addresses : AddressMap) (c : Collector) (s : Symbol)
    (rest : List Symbol) :
    (offer addresses c s).found.merge (fun first _ => first)
        (firstAddresses addresses c.wanted rest)
      = c.found.merge (fun first _ => first) (firstAddresses addresses c.wanted (s :: rest)) := by
  refine NameMap.ext_get? fun name => ?_
  rw [NameMap.get?_merge_first, NameMap.get?_merge_first, get?_found_offer, Option.or_assoc,
    get?_firstAddresses, get?_firstAddresses, List.findSome?_cons]
  by_cases hwanted : c.wanted.contains name
  · rw [if_pos hwanted, if_pos hwanted, if_pos hwanted]
    cases addressOf? addresses name s <;> rfl
  · rw [if_neg hwanted, if_neg hwanted, if_neg hwanted, Option.or_none]

/-- Where every wanted name has an address, later ones add nothing. -/
theorem merge_firstAddresses_of_complete (addresses : AddressMap) {found : SymbolMap}
    {wanted : NameSet} (h : ∀ name, wanted.contains name = true → found.contains name = true)
    (rest : List Symbol) :
    found.merge (fun first _ => first) (firstAddresses addresses wanted rest) = found := by
  refine NameMap.merge_first_eq_self fun name hnone => ?_
  have hunwanted : ¬wanted.contains name = true := fun hname => by
    have := h name hname
    rw [NameMap.contains, hnone] at this
    cases this
  rw [get?_firstAddresses, if_neg hunwanted]

/-- A wanted name has an address, found before or among symbols. -/
def Known (addresses : AddressMap) (c : Collector) (symbols : List Symbol) (name : String) : Prop :=
  c.found.contains name = true ∨
    ∃ address, symbols.findSome? (addressOf? addresses name) = some address

theorem known_offer_iff {addresses : AddressMap} {c : Collector} {s : Symbol} {rest : List Symbol}
    {name : String} (hwanted : c.wanted.contains name = true) :
    Known addresses (offer addresses c s) rest name ↔ Known addresses c (s :: rest) name := by
  rw [Known, Known, NameMap.contains, NameMap.contains, get?_found_offer, if_pos hwanted,
    List.findSome?_cons]
  cases c.found.get? name <;> cases addressOf? addresses name s <;> simp

/-- A scan from a collector that holds addresses of wanted names only: it answers when the symbols
end without a defect, or when all wanted names have an address behind the first symbol or later. -/
theorem scanSymbols_eq_ok_iff (addresses : AddressMap) (defect : Option DatabaseDefect)
    {c : Collector} (hc : FindsWanted c) (symbols : List Symbol) (m : SymbolMap) :
    (scanSymbols addresses defect c symbols).map (·.found) = .ok m ↔
      (defect = none ∨ symbols ≠ [] ∧
        ∀ name, c.wanted.contains name = true → Known addresses c symbols name) ∧
      m = c.found.merge (fun first _ => first) (firstAddresses addresses c.wanted symbols) := by
  induction symbols generalizing c with
  | nil =>
    have hnone : c.found.merge (fun first _ => first) (firstAddresses addresses c.wanted [])
        = c.found := NameMap.merge_first_eq_self fun name _ => by
      rw [get?_firstAddresses]
      exact ite_self _
    rw [hnone, scanSymbols]
    cases defect with
    | none =>
      exact ⟨fun h => ⟨.inl rfl, (Except.ok.inj h).symm⟩, fun h => congrArg Except.ok h.2.symm⟩
    | some defect =>
      constructor
      · intro h
        cases h
      · rintro ⟨hdefect | ⟨hne, -⟩, -⟩
        · cases hdefect
        · exact absurd rfl hne
  | cons s rest ih =>
    have hwanted := wanted_offer addresses c s
    have hc' := hc.offer addresses s
    have hknown : (∀ name, c.wanted.contains name = true →
          Known addresses (offer addresses c s) rest name) ↔
        ∀ name, c.wanted.contains name = true → Known addresses c (s :: rest) name :=
      forall₂_congr fun name hname => known_offer_iff hname
    rw [scanSymbols, ← found_offer_merge]
    by_cases hcomplete : (offer addresses c s).isComplete
    · have hall := hc'.isComplete_iff.1 hcomplete
      rw [hwanted] at hall
      rw [if_pos hcomplete, merge_firstAddresses_of_complete addresses hall]
      constructor
      · intro h
        exact ⟨.inr ⟨List.cons_ne_nil _ _, hknown.1 fun name hname => .inl (hall name hname)⟩,
          (Except.ok.inj h).symm⟩
      · rintro ⟨-, rfl⟩
        rfl
    · rw [if_neg hcomplete, ih hc', hwanted]
      refine and_congr_left fun _ => or_congr_right ?_
      constructor
      · rintro ⟨-, h⟩
        exact ⟨List.cons_ne_nil _ _, hknown.1 h⟩
      · rintro ⟨-, h⟩
        refine ⟨fun hrest => hcomplete ?_, hknown.2 h⟩
        subst hrest
        rw [hc'.isComplete_iff, hwanted]
        intro name hname
        exact (hknown.2 h name hname).resolve_right fun ⟨address, haddress⟩ => by cases haddress

/-- A scan of a stream answers with the first addresses of the wanted names, if the stream ends well
or the names are covered before it breaks off. -/
theorem collect_eq_ok_iff (addresses : AddressMap) (wanted : NameSet) (stream : Bytes)
    (m : SymbolMap) :
    collect addresses wanted stream = .ok m ↔
      (defect? stream = none ∨ Covered addresses wanted (symbols stream)) ∧
        m = firstAddresses addresses wanted (symbols stream) := by
  have hstart : (Collector.start wanted).found.merge (fun first _ => first)
      (firstAddresses addresses wanted (symbols stream))
        = firstAddresses addresses wanted (symbols stream) := NameMap.empty_merge _ _
  rw [collect, scan_eq_scanSymbols, scanSymbols_eq_ok_iff _ _ fun name hname => by cases hname]
  change _ ∧ m = (Collector.start wanted).found.merge (fun first _ => first)
    (firstAddresses addresses wanted (symbols stream)) ↔ _
  rw [hstart]
  refine and_congr_left fun _ => or_congr_right (and_congr_right fun _ => ?_)
  refine forall₂_congr fun name _ => ⟨fun h => ?_, fun h => .inr h⟩
  exact h.resolve_left fun hname => by cases hname

end SymbolStream

end OffsetService
