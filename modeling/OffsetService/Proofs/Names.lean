import OffsetService.NameMap

/-!
# Selections and unions of named values

`NameMap.select` keeps the names for which a function has a value, and `NameMap.merge` puts two maps
together. As with the other operations, what they do to each name is all there is to know about them
(`get?_select`, `get?_merge`).
-/

namespace OffsetService.NameMap

variable {α β : Type}

/-- The names of a map for which `f` has a value, with that value. -/
def select (f : String → α → Option β) (m : NameMap α) : NameMap β where
  entries := m.entries.filterMap fun entry => (f entry.1 entry.2).map fun value => (entry.1, value)
  ascending := by
    refine List.Pairwise.filterMap _ (fun a a' hlt b hb b' hb' => ?_) m.ascending
    obtain ⟨_, -, rfl⟩ := Option.map_eq_some_iff.1 hb
    obtain ⟨_, -, rfl⟩ := Option.map_eq_some_iff.1 hb'
    exact hlt

theorem get?_select (f : String → α → Option β) (m : NameMap α) (name : String) :
    (m.select f).get? name = (m.get? name).bind (f name) := by
  obtain ⟨entries, ascending⟩ := m
  simp only [select, get?]
  induction entries with
  | nil => rfl
  | cons entry rest ih =>
    obtain ⟨hentry, hrest⟩ := List.pairwise_cons.1 ascending
    rw [Entries.lookup_cons]
    by_cases hname : name = entry.1
    · subst hname
      -- no later entry has this name, so a name without a value stays without one
      have hnone : rest.lookup entry.1 = none := lookup_eq_none_of_forall_lt hentry
      cases hvalue : f entry.1 entry.2 with
      | some value => simp [hvalue, Entries.lookup_cons]
      | none => simp [hvalue, ih hrest, hnone]
    · have hne : (name == entry.1) = false := by simpa using hname
      rw [hne]
      cases hvalue : f entry.1 entry.2 with
      | some value => simp [hvalue, Entries.lookup_cons, hne, ih hrest]
      | none => simp [hvalue, ih hrest]

theorem contains_iff {m : NameMap α} {name : String} :
    m.contains name = true ↔ ∃ a, m.get? name = some a :=
  Option.isSome_iff_exists

theorem get?_of_mem {m : NameMap α} {entry : String × α} (h : entry ∈ m.entries) :
    m.get? entry.1 = some entry.2 := by
  obtain ⟨entries, ascending⟩ := m
  simp only [get?] at h ⊢
  induction entries with
  | nil => cases h
  | cons first rest ih =>
    obtain ⟨hfirst, hrest⟩ := List.pairwise_cons.1 ascending
    rw [Entries.lookup_cons]
    rcases List.mem_cons.1 h with rfl | hmem
    · simp
    · have hne : (entry.1 == first.1) = false := by
        simpa using (String.ne_of_lt (hfirst entry hmem)).symm
      rw [hne]
      exact ih hrest hmem

theorem mem_of_get? {m : NameMap α} {name : String} {a : α} (h : m.get? name = some a) :
    (name, a) ∈ m.entries := by
  obtain ⟨entries, ascending⟩ := m
  simp only [get?] at h ⊢
  clear ascending
  induction entries with
  | nil => cases h
  | cons first rest ih =>
    rw [Entries.lookup_cons] at h
    split at h
    next heq =>
      obtain rfl : name = first.1 := by simpa using heq
      obtain rfl := Option.some.inj h
      exact List.mem_cons_self ..
    next => exact List.mem_cons_of_mem _ (ih h)

/-- A name is in the set of a list exactly when it is in the list. -/
theorem get?_ofNames (names : List String) (name : String) :
    (NameSet.ofNames names).get? name = if name ∈ names then some () else none := by
  rw [NameSet.ofNames, get?_ofList, ← List.map_reverse]
  by_cases hname : name ∈ names
  · rw [if_pos hname]
    generalize hreverse : names.reverse = reversed
    have hmem : name ∈ reversed := by simpa [← hreverse] using hname
    clear hreverse hname
    induction reversed with
    | nil => cases hmem
    | cons first rest ih =>
      rw [List.map_cons, Entries.lookup_cons]
      rcases List.mem_cons.1 hmem with rfl | hmem
      · simp
      · split
        · rfl
        · exact ih hmem
  · rw [if_neg hname, List.lookup_eq_none_iff]
    intro entry hentry
    obtain ⟨other, hother, rfl⟩ := List.mem_map.1 hentry
    have hne : other ≠ name := fun heq => hname (heq ▸ List.mem_reverse.1 hother)
    simpa using hne.symm

theorem mem_names_iff {m : NameMap α} {name : String} : name ∈ m.names ↔ m.contains name = true := by
  rw [contains_iff, names, List.mem_map]
  constructor
  · rintro ⟨entry, hentry, rfl⟩
    exact ⟨entry.2, get?_of_mem hentry⟩
  · rintro ⟨a, ha⟩
    exact ⟨(name, a), mem_of_get? ha, rfl⟩

/-! ## Unions -/

/-- The names of two maps; where a name is in both, `both` joins its values. -/
def merge (both : α → α → α) (a b : NameMap α) : NameMap α :=
  (NameSet.ofNames (a.names ++ b.names)).select fun name _ =>
    Option.merge both (a.get? name) (b.get? name)

theorem get?_merge (both : α → α → α) (a b : NameMap α) (name : String) :
    (a.merge both b).get? name = Option.merge both (a.get? name) (b.get? name) := by
  rw [merge, get?_select, get?_ofNames]
  by_cases hname : name ∈ a.names ++ b.names
  · rw [if_pos hname, Option.bind_some]
  · rw [if_neg hname, Option.bind_none]
    have hnone : ∀ {m : NameMap α}, name ∉ m.names → m.get? name = none := fun {m} h => by
      rw [mem_names_iff, contains, Bool.not_eq_true, Option.isSome_eq_false_iff] at h
      exact Option.isNone_iff_eq_none.1 h
    rw [List.mem_append, not_or] at hname
    rw [hnone hname.1, hnone hname.2]
    rfl

theorem empty_merge (both : α → α → α) (m : NameMap α) : empty.merge both m = m := by
  refine ext_get? fun name => ?_
  rw [get?_merge, get?_empty]
  cases m.get? name <;> rfl

/-- Where the first map wins, the second only adds names. -/
theorem get?_merge_first (a b : NameMap α) (name : String) :
    (a.merge (fun first _ => first) b).get? name = (a.get? name).or (b.get? name) := by
  rw [get?_merge]
  cases a.get? name <;> cases b.get? name <;> rfl

/-- A second map without names of its own adds nothing. -/
theorem merge_first_eq_self {a b : NameMap α}
    (h : ∀ name, a.get? name = none → b.get? name = none) :
    a.merge (fun first _ => first) b = a := by
  refine ext_get? fun name => ?_
  rw [get?_merge_first]
  cases hname : a.get? name with
  | some value => rfl
  | none => rw [h name hname, Option.or_none]

/-! ## Selections entry by entry -/

section Cons

variable {name : String} {a : α} {rest : List (String × α)}
  {ascending : ((name, a) :: rest).Pairwise fun x y => x.1 < y.1} {f : String → α → Option β}

theorem select_cons_of_none (h : f name a = none) :
    select f ⟨(name, a) :: rest, ascending⟩
      = select f ⟨rest, (List.pairwise_cons.1 ascending).2⟩ := by
  simp only [select, List.filterMap_cons, h, Option.map_none]

/-- The first name that is selected may be added at once. -/
theorem merge_select_cons_of_some {b : β} (h : f name a = some b) (found : NameMap β) :
    found.merge (fun first _ => first) (select f ⟨(name, a) :: rest, ascending⟩)
      = (found.addNew name b).merge (fun first _ => first)
        (select f ⟨rest, (List.pairwise_cons.1 ascending).2⟩) := by
  have hentries : (select f ⟨(name, a) :: rest, ascending⟩).entries
      = (name, b) :: (select f ⟨rest, (List.pairwise_cons.1 ascending).2⟩).entries := by
    simp only [select, List.filterMap_cons, h, Option.map_some]
  refine ext_get? fun key => ?_
  rw [get?_merge_first, get?_merge_first, get?_addNew, Option.or_assoc]
  congr 1
  rw [get?, hentries, Entries.lookup_cons]
  by_cases hkey : key = name
  · simp [hkey]
  · have hne : (key == name) = false := by simpa using hkey
    simp [hkey, hne, get?]

end Cons

end OffsetService.NameMap
