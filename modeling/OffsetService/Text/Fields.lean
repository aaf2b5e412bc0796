/-!
# Fields

A text is cut into the fields between its separators: there is one field more than there are
separators, and fields may be empty. Putting the separator back between the fields gives the text
again (`intercalate_split`), and fields that do not hold the separator are cut apart again when they
have been joined by it (`split_intercalate`).
-/

namespace OffsetService.Fields

/-- The fields between the characters that separate; there is always one. -/
def split (separates : Char → Bool) : List Char → List (List Char)
  | [] => [[]]
  | c :: rest =>
    if separates c then [] :: split separates rest
    else
      match split separates rest with
      | first :: more => (c :: first) :: more
      | [] => [[c]]

theorem split_ne_nil (separates : Char → Bool) (text : List Char) : split separates text ≠ [] := by
  cases text with
  | nil => simp [split]
  | cons c rest =>
    rw [split]
    split
    · simp
    · split <;> simp

/-- A character that does not separate is in a field. -/
theorem exists_field_of_mem {separates : Char → Bool} {c : Char} {text : List Char} (h : c ∈ text)
    (hc : separates c = false) : ∃ field ∈ split separates text, c ∈ field := by
  induction text with
  | nil => cases h
  | cons next rest ih =>
    rw [split]
    by_cases hnext : separates next = true
    · have hrest : c ∈ rest := (List.mem_cons.1 h).resolve_left fun heq => by simp_all
      obtain ⟨field, hfield, hmem⟩ := ih hrest
      rw [if_pos hnext]
      exact ⟨field, List.mem_cons_of_mem _ hfield, hmem⟩
    · obtain ⟨first, more, hsplit⟩ := List.exists_cons_of_ne_nil (split_ne_nil separates rest)
      rw [if_neg hnext, hsplit]
      rcases List.mem_cons.1 h with rfl | hrest
      · exact ⟨c :: first, List.mem_cons_self, List.mem_cons_self⟩
      · obtain ⟨field, hfield, hmem⟩ := ih hrest
        rw [hsplit] at hfield
        rcases List.mem_cons.1 hfield with rfl | hmore
        · exact ⟨next :: field, List.mem_cons_self, List.mem_cons_of_mem _ hmem⟩
        · exact ⟨field, List.mem_cons_of_mem _ hmore, hmem⟩

theorem intercalate_split (separator : Char) (text : List Char) :
    [separator].intercalate (split (· = separator) text) = text := by
  induction text with
  | nil => rfl
  | cons c rest ih =>
    rw [split]
    obtain ⟨first, more, h⟩ := List.exists_cons_of_ne_nil (split_ne_nil (· = separator) rest)
    by_cases hc : c = separator
    · simp only [hc, decide_true, if_true]
      rw [h] at ih ⊢
      simpa [List.intercalate] using ih
    · simp only [hc, decide_false, Bool.false_eq_true, if_false]
      rw [h] at ih ⊢
      cases more with
      | nil => simpa [List.intercalate] using ih
      | cons next more => simpa [List.intercalate] using ih

/-- The fields of two texts with a separator between them. -/
theorem split_append (separator : Char) (before after : List Char) :
    split (· = separator) (before ++ separator :: after)
      = split (· = separator) before ++ split (· = separator) after := by
  induction before with
  | nil => simp [split]
  | cons c rest ih =>
    obtain ⟨first, more, hrest⟩ := List.exists_cons_of_ne_nil (split_ne_nil (· = separator) rest)
    rw [hrest] at ih
    by_cases hc : c = separator
    · simp [split, hc, ih, hrest]
    · simp [split, hc, ih, hrest]

/-- A text without a separator is one field. -/
theorem split_of_notMem {separator : Char} {text : List Char} (h : separator ∉ text) :
    split (· = separator) text = [text] := by
  induction text with
  | nil => rfl
  | cons c rest ih =>
    rw [List.mem_cons, not_or] at h
    have hc : c ≠ separator := fun heq => h.1 heq.symm
    simp [split, hc, ih h.2]

/-- Fields with the separator between them are cut again where they were joined. -/
theorem split_intercalate {separator : Char} {fields : List (List Char)} (hne : fields ≠ [])
    (h : ∀ field ∈ fields, separator ∉ field) :
    split (· = separator) ([separator].intercalate fields) = fields := by
  induction fields with
  | nil => exact absurd rfl hne
  | cons field rest ih =>
    have hfield := split_of_notMem (h field List.mem_cons_self)
    cases rest with
    | nil => rw [List.intercalate_singleton, hfield]
    | cons next more =>
      have hrest := ih (List.cons_ne_nil next more) fun f hf => h f (List.mem_cons_of_mem _ hf)
      rw [List.intercalate_cons_cons, List.append_assoc, List.singleton_append, split_append,
        hfield, hrest]
      rfl

/-! ## The first field -/

/-- What stands before the first separator. -/
theorem takeWhile_append {separator : Char} {field : List Char} (h : separator ∉ field)
    (rest : List Char) :
    (field ++ separator :: rest).takeWhile (· ≠ separator) = field := by
  have hall : ∀ c ∈ field, decide (c ≠ separator) = true :=
    fun c hc => decide_eq_true fun heq => h (heq ▸ hc)
  rw [List.takeWhile_append_of_pos hall, List.takeWhile_cons_of_neg (by simp), List.append_nil]

/-- A text without a separator is taken whole. -/
theorem takeWhile_of_notMem {separator : Char} {text : List Char} (h : separator ∉ text) :
    text.takeWhile (· ≠ separator) = text := by
  have hall : ∀ c ∈ text, decide (c ≠ separator) = true :=
    fun c hc => decide_eq_true fun heq => h (heq ▸ hc)
  have hwhole : (text ++ []).takeWhile (· ≠ separator) = text ++ [].takeWhile (· ≠ separator) :=
    List.takeWhile_append_of_pos hall
  rwa [List.append_nil, List.takeWhile_nil, List.append_nil] at hwhole

end OffsetService.Fields
