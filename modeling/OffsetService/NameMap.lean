import OffsetService.Entries

/-!
# Maps and sets of names

Requests and answers are collections keyed by name, and their written form lists the names in
ascending order of code points. A `NameMap` is therefore an ascending list of entries, with the
order as a field of the type, so that two maps are equal exactly when they answer alike
(`NameMap.ext_get?`).

The one way to add an entry keeps what is already there (`get?_addNew`): the first record of a name
wins everywhere in this library. A text that repeats a key is read from its end, so that the last
value stays (`get?_ofList`).
-/

namespace OffsetService

/-- Values by name, in ascending order of the names. -/
structure NameMap (α : Type) where
  entries : List (String × α)
  ascending : entries.Pairwise fun a b => a.1 < b.1

namespace NameMap

variable {α β : Type}

theorem name_lt_of_le_of_ne {a b : String} (hle : a ≤ b) (hne : a ≠ b) : a < b := by
  rcases Decidable.em (a < b) with h | h
  · exact h
  · exact absurd (String.le_antisymm hle (String.not_lt.1 h)) hne

/-- The map without entries. -/
def empty : NameMap α := ⟨[], .nil⟩

instance : EmptyCollection (NameMap α) := ⟨empty⟩

instance [DecidableEq α] : DecidableEq (NameMap α) := fun a b =>
  if h : a.entries = b.entries then
    isTrue (by cases a; cases b; subst h; rfl)
  else
    isFalse fun hab => h (hab ▸ rfl)

/-- The number of entries. -/
def size (m : NameMap α) : Nat := m.entries.length

/-- The value of a name. -/
def get? (m : NameMap α) (name : String) : Option α := m.entries.lookup name

/-- Whether a name has a value. -/
def contains (m : NameMap α) (name : String) : Bool := (m.get? name).isSome

/-- The names, ascending. -/
def names (m : NameMap α) : List String := m.entries.map (·.1)

/-- Place a new name among ascending entries; a name that is there keeps its value. -/
def place (name : String) (value : α) : List (String × α) → List (String × α)
  | [] => [(name, value)]
  | entry :: rest =>
    if name < entry.1 then (name, value) :: entry :: rest
    else if name = entry.1 then entry :: rest
    else entry :: place name value rest

theorem mem_place {name : String} {value : α} {e : String × α} {es : List (String × α)}
    (h : e ∈ place name value es) : e = (name, value) ∨ e ∈ es := by
  induction es with
  | nil => simpa [place] using h
  | cons x rest ih =>
    simp only [place] at h
    split at h
    · simpa using h
    · split at h
      · exact .inr h
      · rcases List.mem_cons.1 h with rfl | h
        · simp
        · rcases ih h with h | h
          · exact .inl h
          · exact .inr (List.mem_cons_of_mem _ h)

theorem pairwise_place (name : String) (value : α) {es : List (String × α)}
    (h : es.Pairwise fun a b => a.1 < b.1) :
    (place name value es).Pairwise fun a b => a.1 < b.1 := by
  induction es with
  | nil => simp [place]
  | cons x rest ih =>
    obtain ⟨hx, hrest⟩ := List.pairwise_cons.1 h
    simp only [place]
    split
    next hlt =>
      refine List.pairwise_cons.2 ⟨fun e he => ?_, h⟩
      rcases List.mem_cons.1 he with rfl | he
      · exact hlt
      · exact String.lt_trans hlt (hx e he)
    next hnlt =>
      split
      next => exact h
      next hne =>
        refine List.pairwise_cons.2 ⟨fun e he => ?_, ih hrest⟩
        rcases mem_place he with rfl | he
        · exact name_lt_of_le_of_ne (String.not_lt.1 hnlt) (Ne.symm hne)
        · exact hx e he

/-- Add a name; one that is there keeps its value. -/
def addNew (m : NameMap α) (name : String) (value : α) : NameMap α :=
  ⟨place name value m.entries, pairwise_place name value m.ascending⟩

/-- Take a name out. -/
def erase (m : NameMap α) (name : String) : NameMap α :=
  ⟨Entries.erase name m.entries, m.ascending.sublist List.filter_sublist⟩

/-- The map of a list of entries; of several entries of one name, the last one counts. -/
def ofList (entries : List (String × α)) : NameMap α :=
  entries.foldr (fun e m => m.addNew e.1 e.2) empty

theorem lookup_eq_none_of_forall_lt {name : String} {es : List (String × α)}
    (h : ∀ e ∈ es, name < e.1) : es.lookup name = none := by
  induction es with
  | nil => rfl
  | cons x rest ih =>
    have hne : (name == x.1) = false := by
      simpa using String.ne_of_lt (h x (by simp))
    rw [Entries.lookup_cons, hne]
    exact ih fun e he => h e (List.mem_cons_of_mem _ he)

theorem lookup_place (name : String) (value : α) {es : List (String × α)}
    (h : es.Pairwise fun a b => a.1 < b.1) (key : String) :
    (place name value es).lookup key
      = (es.lookup key).or (if key = name then some value else none) := by
  induction es with
  | nil =>
    by_cases hk : key = name
    · simp [place, Entries.lookup_cons, hk]
    · have hne : (key == name) = false := by simpa using hk
      simp [place, Entries.lookup_cons, hk, hne]
  | cons x rest ih =>
    obtain ⟨hx, hrest⟩ := List.pairwise_cons.1 h
    simp only [place]
    split
    next hlt =>
      by_cases hk : key = name
      · subst hk
        have hnone : (x :: rest).lookup key = none :=
          lookup_eq_none_of_forall_lt fun e he => by
            rcases List.mem_cons.1 he with rfl | he
            · exact hlt
            · exact String.lt_trans hlt (hx e he)
        rw [hnone]
        simp [Entries.lookup_cons]
      · have hne : (key == name) = false := by simpa using hk
        simp [Entries.lookup_cons, hne, hk]
    next =>
      split
      next heq =>
        by_cases hk : key = name
        · subst hk
          have he : (key == x.1) = true := by simpa using heq
          simp [Entries.lookup_cons, he]
        · simp [hk]
      next =>
        by_cases hkx : key = x.1
        · have he : (key == x.1) = true := by simpa using hkx
          simp [Entries.lookup_cons, he]
        · have he : (key == x.1) = false := by simpa using hkx
          rw [Entries.lookup_cons, Entries.lookup_cons, he]
          exact ih hrest

theorem get?_addNew (m : NameMap α) (name key : String) (value : α) :
    (m.addNew name value).get? key
      = (m.get? key).or (if key = name then some value else none) :=
  lookup_place name value m.ascending key

theorem get?_erase (m : NameMap α) (name key : String) :
    (m.erase name).get? key = if key = name then none else m.get? key :=
  Entries.lookup_erase name key m.entries

@[simp] theorem get?_empty (key : String) : (empty : NameMap α).get? key = none := rfl

theorem get?_ofList (entries : List (String × α)) (key : String) :
    (ofList entries).get? key = entries.reverse.lookup key := by
  induction entries with
  | nil => rfl
  | cons e rest ih =>
    have hstep : ofList (e :: rest) = (ofList rest).addNew e.1 e.2 := rfl
    rw [hstep, get?_addNew, ih, List.reverse_cons, List.lookup_append]
    congr 1
    by_cases hk : key = e.1
    · simp [Entries.lookup_cons, hk]
    · have hne : (key == e.1) = false := by simpa using hk
      simp [Entries.lookup_cons, hk, hne]

/-- Two maps that answer alike are equal. -/
theorem ext_get? {a b : NameMap α} (h : ∀ key, a.get? key = b.get? key) : a = b := by
  obtain ⟨as, has⟩ := a
  obtain ⟨bs, hbs⟩ := b
  have key : as = bs := by
    simp only [get?] at h
    induction as generalizing bs with
    | nil =>
      cases bs with
      | nil => rfl
      | cons y bs => simpa [Entries.lookup_cons] using h y.1
    | cons x as ih =>
      obtain ⟨hx, has'⟩ := List.pairwise_cons.1 has
      cases bs with
      | nil => simpa [Entries.lookup_cons] using h x.1
      | cons y bs =>
        obtain ⟨hy, hbs'⟩ := List.pairwise_cons.1 hbs
        have hxy : x.1 = y.1 := by
          rcases String.le_total x.1 y.1 with hle | hle
          · by_cases he : x.1 = y.1
            · exact he
            · have hlt : x.1 < y.1 := name_lt_of_le_of_ne hle he
              have hn : (y :: bs).lookup x.1 = none := lookup_eq_none_of_forall_lt fun e he => by
                rcases List.mem_cons.1 he with rfl | he
                · exact hlt
                · exact String.lt_trans hlt (hy e he)
              have := h x.1
              rw [hn] at this
              simp [Entries.lookup_cons] at this
          · by_cases he : x.1 = y.1
            · exact he
            · have hlt : y.1 < x.1 := name_lt_of_le_of_ne hle (Ne.symm he)
              have hn : (x :: as).lookup y.1 = none := lookup_eq_none_of_forall_lt fun e he => by
                rcases List.mem_cons.1 he with rfl | he
                · exact hlt
                · exact String.lt_trans hlt (hx e he)
              have := h y.1
              rw [hn] at this
              simp [Entries.lookup_cons] at this
        have hval : x.2 = y.2 := by
          have := h x.1
          rw [Entries.lookup_cons, Entries.lookup_cons] at this
          simpa [hxy] using this
        have htail : as = bs := by
          refine ih has' bs hbs' fun k => ?_
          have hk := h k
          by_cases hkx : k = x.1
          · subst hkx
            rw [lookup_eq_none_of_forall_lt hx]
            rw [lookup_eq_none_of_forall_lt fun e he => hxy ▸ hy e he]
          · have h1 : (k == x.1) = false := by simpa using hkx
            have h2 : (k == y.1) = false := by simpa [← hxy] using hkx
            simpa [Entries.lookup_cons, h1, h2] using hk
        subst htail
        congr 1
        exact Prod.ext hxy hval
  subst key
  rfl

end NameMap

/-- A set of names, as a map without values. -/
abbrev NameSet := NameMap Unit

/-- The set of a list of names. -/
def NameSet.ofNames (names : List String) : NameSet :=
  NameMap.ofList (names.map fun name => (name, ()))

end OffsetService
