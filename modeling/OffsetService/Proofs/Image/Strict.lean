import OffsetService.Image

/-!
# Operations that can break off

The operations of a machine of 64 bits do not always have a result: a sum or a product may be no
word, a difference may be below zero, an index or a slice may be outside of its bytes, and a text
may be cut inside a character. In `Strict` each of them breaks off there, and what a computation
that broke off would have gone on to do is not done: it has neither a result nor a fault.

A computation that never breaks off is a `Traced` one, with all of its events (`safe`), and a
sequence is one when each of its parts is (`safe_bind`): the later parts only have to be for what
the earlier parts give. So a bound on what has been read carries over to what is computed from it.
-/

namespace OffsetService.Image

/-- A computation that may break off. -/
abbrev Strict : Type → Type := OptionT Traced

namespace Strict

variable {α β ι : Type}

/-- What has to be there: the computation breaks off without it. -/
def need (found : Option α) : Strict α :=
  OptionT.mk (pure found)

/-- A computation that does not break off. -/
def safe (x : Traced α) : Strict α :=
  OptionT.lift x

/-- An outcome that is there. -/
def sure (outcome : Except Fault α) : Strict α :=
  safe (.ofExcept outcome)

/-! ## Sequences -/

theorem safe_eq (x : Traced α) : safe x = OptionT.mk ⟨x.events, x.outcome.map some⟩ := by
  obtain ⟨events, outcome⟩ := x
  cases outcome with
  | error fault => rfl
  | ok b =>
    show OptionT.mk (Traced.andThen ⟨events, .ok b⟩ fun b => Traced.result (some b)) = _
    simp only [Traced.andThen, Traced.result, List.append_nil]
    rfl

/-- What a computation that does not break off does is determined. -/
theorem safe_inj {x y : Traced α} (h : safe x = safe y) : x = y := by
  rw [safe_eq, safe_eq] at h
  obtain ⟨events, outcome⟩ := x
  obtain ⟨events', outcome'⟩ := y
  obtain ⟨rfl, houtcome⟩ := Traced.mk.inj h
  cases outcome <;> cases outcome' <;> cases houtcome <;> rfl

theorem sure_inj {x y : Except Fault α} (h : sure x = sure y) : x = y :=
  congrArg Traced.outcome (safe_inj h)

theorem safe_bind {x : Traced α} {f : α → Strict β} {g : α → Traced β}
    (h : ∀ b, x.outcome = .ok b → f b = safe (g b)) : safe x >>= f = safe (x >>= g) := by
  obtain ⟨events, outcome⟩ := x
  cases outcome with
  | error fault => rfl
  | ok b =>
    have hf := h b rfl
    rw [safe_eq ⟨events, .ok b⟩]
    show OptionT.mk (Traced.andThen ⟨events, .ok (some b)⟩ fun
      | some b => f b
      | none => Traced.result none) = _
    simp only [Traced.andThen, hf, safe_eq]
    rfl

/-- The same without events. -/
theorem sure_bind {x : Except Fault α} {f : α → Strict β} {g : α → Except Fault β}
    (h : ∀ b, x = .ok b → f b = sure (g b)) : sure x >>= f = sure (x >>= g) := by
  cases x with
  | error fault => rfl
  | ok b =>
    show pure b >>= f = _
    rw [pure_bind]
    exact h b rfl

theorem mapM_eq_sure {l : List ι} {f : ι → Strict β} {g : ι → Except Fault β}
    (h : ∀ i ∈ l, f i = sure (g i)) : l.mapM f = sure (l.mapM g) := by
  induction l with
  | nil => rfl
  | cons i l ih =>
    rw [List.mapM_cons, List.mapM_cons, h i List.mem_cons_self]
    apply sure_bind
    intro b _
    rw [ih fun j hj => h j (List.mem_cons_of_mem i hj)]
    apply sure_bind
    intro bs _
    rfl

theorem findM?_eq_pure {l : List ι} {p : ι → Strict Bool} {q : ι → Bool}
    (h : ∀ i ∈ l, p i = pure (q i)) : l.findM? p = pure (l.find? q) := by
  induction l with
  | nil => rfl
  | cons i l ih =>
    rw [List.findM?, h i List.mem_cons_self, pure_bind, List.find?]
    cases q i with
    | true => rfl
    | false => exact ih fun j hj => h j (List.mem_cons_of_mem i hj)

/-! ## Numbers -/

/-- A sum of 64 bits, if it is one. -/
def sum? (x y : Nat) : Option Nat :=
  if x + y < 0x10000000000000000 then some (x + y) else none

/-- A sum of 64 bits. -/
def sum (x y : Nat) : Strict Nat :=
  need (sum? x y)

/-- A product of 64 bits. -/
def product (x y : Nat) : Strict Nat :=
  need (if x * y < 0x10000000000000000 then some (x * y) else none)

/-- A difference without a sign. -/
def difference (x y : Nat) : Strict Nat :=
  need (if y ≤ x then some (x - y) else none)

theorem sum?_of_lt {x y : Nat} (h : x + y < 0x10000000000000000) : sum? x y = some (x + y) :=
  if_pos h

theorem sum_of_lt {x y : Nat} (h : x + y < 0x10000000000000000) : sum x y = pure (x + y) := by
  rw [sum, sum?_of_lt h]
  rfl

example : (sum 0xFFFFFFFFFFFFFFFF 1).run.outcome = .ok none := rfl

theorem product_of_lt {x y : Nat} (h : x * y < 0x10000000000000000) :
    product x y = pure (x * y) := by
  rw [product, if_pos h]
  rfl

theorem difference_of_le {x y : Nat} (h : y ≤ x) : difference x y = pure (x - y) := by
  rw [difference, if_pos h]
  rfl

/-! ## Bytes -/

/-- The byte at an index. -/
def byte (bytes : Bytes) (i : Nat) : Strict UInt8 :=
  need bytes[i]?

/-- Bytes one after another, each by its index. -/
def bytesFrom (bytes : Bytes) (start width : Nat) : Strict Bytes :=
  (List.range width).mapM fun i => byte bytes (start + i)

/-- The bytes from one place to another, if both are inside. -/
def part? (bytes : Bytes) (start stop : Nat) : Option Bytes :=
  if start ≤ stop ∧ stop ≤ bytes.length then some ((bytes.drop start).take (stop - start)) else none

/-- The bytes from one place to another. -/
def part (bytes : Bytes) (start stop : Nat) : Strict Bytes :=
  need (part? bytes start stop)

/-- Bytes for a place of so many bytes. -/
def sized (size : Nat) (bytes : Bytes) : Strict Bytes :=
  need (if bytes.length = size then some bytes else none)

theorem part?_of_le {bytes : Bytes} {start stop : Nat} (h : start ≤ stop)
    (inside : stop ≤ bytes.length) :
    part? bytes start stop = some ((bytes.drop start).take (stop - start)) :=
  if_pos ⟨h, inside⟩

theorem part_of_le {bytes : Bytes} {start stop : Nat} (h : start ≤ stop)
    (inside : stop ≤ bytes.length) :
    part bytes start stop = pure ((bytes.drop start).take (stop - start)) := by
  rw [part, part?_of_le h inside]
  rfl

theorem part_to_end {bytes : Bytes} {start : Nat} (h : start ≤ bytes.length) :
    part bytes start bytes.length = pure (bytes.drop start) := by
  rw [part_of_le h (Nat.le_refl _), ← List.length_drop, List.take_length]

theorem sized_of_length {size : Nat} {bytes : Bytes} (h : bytes.length = size) :
    sized size bytes = pure bytes := by
  rw [sized, if_pos h]
  rfl

theorem bytesFrom_of_le {bytes : Bytes} {start width : Nat} (h : start + width ≤ bytes.length) :
    bytesFrom bytes start width = pure ((bytes.drop start).take width) := by
  have hbyte : ∀ i ∈ List.range width,
      byte bytes (start + i) = sure (pure (bytes.getD (start + i) 0)) := by
    intro i hi
    rw [List.mem_range] at hi
    have hget : bytes[start + i]? = some (bytes.getD (start + i) 0) := by
      rw [List.getD_eq_getElem?_getD, List.getElem?_eq_getElem (by omega), Option.getD_some]
    rw [byte, hget]
    rfl
  have hbytes : (List.range width).map (fun i => bytes.getD (start + i) 0)
      = (bytes.drop start).take width := by
    apply List.ext_getElem
    · rw [List.length_map, List.length_range, List.length_take, List.length_drop]
      omega
    · intro i hi _
      rw [List.length_map, List.length_range] at hi
      rw [List.getElem_map, List.getElem_range, List.getElem_take, List.getElem_drop,
        List.getD_eq_getElem?_getD, List.getElem?_eq_getElem (by omega), Option.getD_some]
  rw [bytesFrom, mapM_eq_sure hbyte, List.mapM_pure, hbytes]
  rfl

/-! ## Texts -/

/-- The text from a byte on, which has to be the first byte of a character or the end. -/
def textFrom : (text : List Char) → (place : Nat) → Strict (List Char)
  | text, 0 => pure text
  | [], _ + 1 => need none
  | c :: rest, place + 1 =>
    if c.utf8Size ≤ place + 1 then textFrom rest (place + 1 - c.utf8Size) else need none

/-- The byte at which the last separator begins, in a text that begins at a byte. -/
def lastSeparator? : (text : List Char) → (start : Nat) → Option Nat
  | [], _ => none
  | c :: rest, start =>
    match lastSeparator? rest (start + c.utf8Size) with
    | some place => some place
    | none => if isSeparator c then some start else none

/-- How many bytes a text takes. -/
def size : (text : List Char) → Nat
  | [] => 0
  | c :: rest => c.utf8Size + size rest

theorem size_append (text rest : List Char) : size (text ++ rest) = size text + size rest := by
  induction text with
  | nil => exact (Nat.zero_add _).symm
  | cons c text ih => rw [List.cons_append, size, size, ih, Nat.add_assoc]

theorem size_le (text : List Char) : size text ≤ 4 * text.length := by
  induction text with
  | nil => exact Nat.le_refl 0
  | cons c rest ih =>
    have hc : c.utf8Size ≤ 4 := c.utf8Size_le_four
    rw [size, List.length_cons]
    omega

/-- A text can be cut behind any of its characters. -/
theorem textFrom_append (above rest : List Char) :
    textFrom (above ++ rest) (size above) = pure rest := by
  induction above with
  | nil => rw [textFrom.eq_def]; rfl
  | cons c above ih =>
    have hsize : size (c :: above) = c.utf8Size + size above := rfl
    have hpos : 0 < c.utf8Size := c.utf8Size_pos
    obtain ⟨place, hplace⟩ : ∃ place, size (c :: above) = place + 1 :=
      ⟨c.utf8Size + size above - 1, by omega⟩
    rw [hplace, List.cons_append, textFrom, if_pos (by omega)]
    have hrest : place + 1 - c.utf8Size = size above := by omega
    rw [hrest]
    exact ih

example : (textFrom ['é', 'a'] 1).run.outcome = .ok none := rfl

theorem lastSeparator?_eq_none {text : List Char} {start : Nat}
    (h : lastSeparator? text start = none) : ∀ c ∈ text, isSeparator c = false := by
  induction text generalizing start with
  | nil =>
    intro c hc
    cases hc
  | cons c rest ih =>
    rw [lastSeparator?] at h
    split at h
    next => cases h
    next hrest =>
      split at h
      next => cases h
      next hplain =>
        intro d hd
        rcases List.mem_cons.1 hd with rfl | hd
        · exact Bool.eq_false_iff.2 hplain
        · exact ih hrest d hd

/-- What is found begins at a separator, and none follows it. -/
theorem lastSeparator?_eq_some {text : List Char} {start place : Nat}
    (h : lastSeparator? text start = some place) : ∃ above c name, text = above ++ c :: name ∧
      isSeparator c = true ∧ (∀ d ∈ name, isSeparator d = false) ∧ place = start + size above := by
  induction text generalizing start with
  | nil => cases h
  | cons c rest ih =>
    rw [lastSeparator?] at h
    split at h
    next place' hrest =>
      cases h
      obtain ⟨above, d, name, rfl, hd, hname, rfl⟩ := ih hrest
      refine ⟨c :: above, d, name, rfl, hd, hname, ?_⟩
      rw [size]
      omega
    next hrest =>
      split at h
      next hc =>
        cases h
        exact ⟨[], c, rest, rfl, hc, lastSeparator?_eq_none hrest, rfl⟩
      next => cases h

/-- A separator is one byte. -/
theorem utf8Size_of_isSeparator {c : Char} (h : isSeparator c = true) : c.utf8Size = 1 := by
  rw [isSeparator, Bool.or_eq_true, decide_eq_true_iff, decide_eq_true_iff] at h
  rcases h with rfl | rfl
  · rfl
  · rfl

end Strict

end OffsetService.Image
