import OffsetService.Proofs.Json.Numbers

/-!
# Parts up to a closing mark

The items of a sequence and the members of an object are read by one loop (`partsFrom`): one part
after the other, with a comma between them, up to the closing mark. The loop is taken apart one turn
at a time (`partsFrom_succ_eq_ok_iff`), and parts that are written with commas between them are read
by it (`partsFrom_commas`), since each turn takes one of them.

Loops carry a budget. A text has at least as many characters as parts (`length_le_length_commas`), so
its length is enough.
-/

namespace OffsetService.Json

/-! ## Parts with commas -/

theorem commas_singleton (part : List Char) : commas [part] = part := by
  simp [commas, List.intercalate]

theorem commas_cons_cons (part next : List Char) (parts : List (List Char)) :
    commas (part :: next :: parts) = part ++ ',' :: commas (next :: parts) := by
  simp [commas, List.intercalate]

theorem exists_commas_cons (part : List Char) (parts : List (List Char)) :
    ∃ more, commas (part :: parts) = part ++ more := by
  cases parts with
  | nil => exact ⟨[], by rw [commas_singleton, List.append_nil]⟩
  | cons next parts => exact ⟨_, commas_cons_cons part next parts⟩

theorem length_le_of_mem {part : List Char} {parts : List (List Char)} (h : part ∈ parts) :
    part.length ≤ (commas parts).length := by
  induction parts with
  | nil => cases h
  | cons first parts ih =>
    cases parts with
    | nil => simp_all [commas_singleton]
    | cons next parts =>
      rw [commas_cons_cons, List.length_append, List.length_cons]
      rcases List.mem_cons.1 h with rfl | h
      · omega
      · have := ih h
        omega

/-- There are no more parts than characters in them. -/
theorem length_le_length_commas {parts : List (List Char)} (h : ∀ part ∈ parts, part ≠ []) :
    parts.length ≤ (commas parts).length := by
  induction parts with
  | nil => exact Nat.zero_le _
  | cons first parts ih =>
    have hfirst : 0 < first.length := List.length_pos_iff.2 (h first (by simp))
    have hrest := ih fun part hpart => h part (List.mem_cons_of_mem _ hpart)
    cases parts with
    | nil => simpa [commas_singleton] using Nat.succ_le_of_lt hfirst
    | cons next parts =>
      simp only [commas_cons_cons, List.length_append, List.length_cons] at hrest ⊢
      omega

namespace Reader

variable {α β σ : Type} {input rest : List Char}

/-! ## One step after another -/

theorem bind_eq {x : Reader α} {f : α → Reader β} {text rest : List Char} {a : α}
    (h : x text = .ok (a, rest)) : (x >>= f) text = f a rest := by
  show (x text >>= fun next => f next.1 next.2) = f a rest
  rw [h]
  rfl

theorem peek?_cons {c : Char} (h : isBlank c = false) (rest : List Char) :
    peek? (c :: rest) = .ok (some c, c :: rest) := by
  rw [peek?, List.dropWhile_cons_of_neg (by simp [h])]
  rfl

theorem drop_cons (c : Char) (rest : List Char) : drop (c :: rest) = .ok ((), rest) := rfl

/-- A sequence succeeds when its first part does and then its second part. -/
theorem bind_eq_ok_iff {x : Reader α} {f : α → Reader β} {b : β} :
    (x >>= f) input = .ok (b, rest) ↔
      ∃ a mid, x input = .ok (a, mid) ∧ f a mid = .ok (b, rest) := by
  constructor
  · intro h
    cases hx : x input with
    | error refusal =>
      have hbind : (x >>= f) input = .error refusal := by
        show (x input >>= fun next => f next.1 next.2) = _
        rw [hx]
        rfl
      rw [hbind] at h
      cases h
    | ok taken => exact ⟨taken.1, taken.2, rfl, (bind_eq hx).symm.trans h⟩
  · rintro ⟨a, mid, hx, hf⟩
    rw [bind_eq hx, hf]

theorem pure_eq_ok_iff {a b : α} :
    (pure a : Reader α) input = .ok (b, rest) ↔ b = a ∧ rest = input := by
  constructor
  · intro h
    cases h
    exact ⟨rfl, rfl⟩
  · rintro ⟨rfl, rfl⟩
    rfl

/-! ## White space -/

/-- White space between tokens. -/
def Spacing (input : List Char) : Prop :=
  ∀ c ∈ input, isBlank c = true

/-- The next character is the first one behind white space. -/
theorem peek?_spacing {spacing : List Char} (hspacing : Spacing spacing)
    (hrest : ∀ c, rest.head? = some c → isBlank c = false) :
    peek? (spacing ++ rest) = .ok (rest.head?, rest) := by
  rw [peek?, dropWhile_eq_longest hspacing hrest]

theorem exists_spacing (input : List Char) :
    ∃ spacing rest, input = spacing ++ rest ∧ Spacing spacing ∧
      ∀ c, rest.head? = some c → isBlank c = false :=
  exists_longest isBlank input

/-! ## Parts up to a closing mark -/

/-- Parts up to a closing mark, which is read as well. Each part takes the state on, and a comma
leads to the next one. -/
def partsFrom (close : Char) (part : σ → Reader σ) : (turns : Nat) → σ → Reader σ
  | 0, _ => malformed
  | turns + 1, s => do
    let s ← part s
    let mark ← peek?
    if mark = some ',' then
      drop
      partsFrom close part turns s
    else if mark = some close then
      drop
      return s
    else malformed

theorem itemsFrom_eq_partsFrom (item : Reader α) (turns : Nat) (found : List α) :
    itemsFrom item turns found = (do
      return (← partsFrom ']' (fun found => do return (← item) :: found) turns found).reverse) := by
  induction turns generalizing found with
  | zero => rfl
  | succ turns ih =>
    unfold itemsFrom partsFrom
    simp only [bind_assoc, pure_bind]
    congr
    funext a
    congr
    funext mark
    split <;> simp_all
    rfl

theorem membersFrom_eq_partsFrom (step : σ → String → Reader σ) (turns : Nat) (s : σ) :
    membersFrom step turns s = partsFrom '}' (fun s => memberName >>= step s) turns s := by
  induction turns generalizing s with
  | zero => rfl
  | succ turns ih =>
    unfold membersFrom partsFrom
    simp only [bind_assoc]
    congr
    funext name
    congr
    funext next
    congr
    funext mark
    split <;> simp_all

section Parts

variable {close : Char} {part : σ → Reader σ} {turns : Nat} {s last : σ}

/-- One part, and then a comma and more of them, or the closing mark. -/
theorem partsFrom_succ_eq_ok_iff (hclose : isBlank close = false ∧ close ≠ ',') :
    partsFrom close part (turns + 1) s input = .ok (last, rest) ↔
      ∃ next spacing mark more, part s input = .ok (next, spacing ++ mark :: more) ∧
        Spacing spacing ∧
        (mark = ',' ∧ partsFrom close part turns next more = .ok (last, rest) ∨
          mark = close ∧ more = rest ∧ last = next) := by
  rw [partsFrom]
  constructor
  · intro h
    obtain ⟨next, mid, hpart, h⟩ := bind_eq_ok_iff.1 h
    obtain ⟨spacing, behind, rfl, hspacing, hbehind⟩ := exists_spacing mid
    rw [bind_eq (peek?_spacing hspacing hbehind)] at h
    split at h
    next hmark =>
      obtain ⟨more, rfl⟩ := List.head?_eq_some_iff.1 hmark
      exact ⟨next, spacing, ',', more, hpart, hspacing, .inl ⟨rfl, h⟩⟩
    next =>
      split at h
      next hmark =>
        obtain ⟨more, rfl⟩ := List.head?_eq_some_iff.1 hmark
        cases h
        exact ⟨_, spacing, close, _, hpart, hspacing, .inr ⟨rfl, rfl, rfl⟩⟩
      next => cases h
  · rintro ⟨next, spacing, mark, more, hpart, hspacing, ⟨rfl, hnext⟩ | ⟨rfl, rfl, rfl⟩⟩
    · rw [bind_eq hpart, bind_eq (peek?_spacing hspacing fun c hc => by cases hc; rfl)]
      exact hnext
    · have hmark : ¬some mark = some ',' := fun heq => hclose.2 (Option.some.inj heq)
      rw [bind_eq hpart, bind_eq (peek?_spacing hspacing fun c hc => by cases hc; exact hclose.1),
        List.head?_cons, if_neg hmark, if_pos rfl]
      rfl

/-- Parts lead from one state to another: each of them is read behind the one before it, up to the
white space behind it. -/
inductive RunsParts (part : σ → Reader σ) : σ → List (List Char) → σ → Prop where
  | nil (s : σ) : RunsParts part s [] s
  | cons {s next last : σ} {text : List Char} {texts : List (List Char)}
    (hrun : ∀ rest, Delimits rest →
      ∃ spacing, Spacing spacing ∧ part s (text ++ rest) = .ok (next, spacing ++ rest))
    (hparts : RunsParts part next texts last) : RunsParts part s (text :: texts) last

/-- Parts are read one after the other when commas stand between them. -/
theorem partsFrom_commas (hclose : close = ']' ∨ close = '}') {texts : List (List Char)}
    (h : RunsParts part s texts last) (hne : texts ≠ []) (hturns : texts.length ≤ turns)
    (rest : List Char) :
    partsFrom close part turns s (commas texts ++ close :: rest) = .ok (last, rest) := by
  have hmark : isBlank close = false ∧ close ≠ ',' := by rcases hclose with rfl | rfl <;> decide
  induction h generalizing turns with
  | nil => exact absurd rfl hne
  | @cons s next last text texts hrun hparts ih =>
    obtain ⟨turns, rfl⟩ : ∃ n, turns = n + 1 := ⟨turns - 1, by simp at hturns; omega⟩
    rw [partsFrom_succ_eq_ok_iff hmark]
    cases hparts with
    | nil =>
      obtain ⟨spacing, hspacing, hrun⟩ := hrun (close :: rest) (delimits_cons (.inr hclose))
      rw [commas_singleton]
      exact ⟨_, spacing, close, rest, hrun, hspacing, .inr ⟨rfl, rfl, rfl⟩⟩
    | @cons _ _ _ following texts hfollowing hparts =>
      obtain ⟨spacing, hspacing, hrun⟩ :=
        hrun (',' :: (commas (following :: texts) ++ close :: rest)) (delimits_cons (.inl rfl))
      rw [commas_cons_cons, List.append_assoc, List.cons_append]
      exact ⟨_, spacing, ',', _, hrun, hspacing,
        .inl ⟨rfl, ih (by simp) (Nat.le_of_succ_le_succ hturns)⟩⟩

/-- Parts are closed at once, or there is a first one. -/
theorem opening_eq_ok_iff (hclose : isBlank close = false) {first : Reader α} {result a : α} :
    (do if (← peek?) = some close then
          drop
          return result
        else first : Reader α) input = .ok (a, rest) ↔
      (∃ spacing, input = spacing ++ close :: rest ∧ Spacing spacing ∧ a = result) ∨
      ∃ spacing more, input = spacing ++ more ∧ Spacing spacing ∧
        (∀ c, more.head? = some c → isBlank c = false ∧ c ≠ close) ∧
        first more = .ok (a, rest) := by
  constructor
  · intro h
    obtain ⟨spacing, behind, rfl, hspacing, hbehind⟩ := exists_spacing input
    rw [bind_eq (peek?_spacing hspacing hbehind)] at h
    split at h
    next hmark =>
      obtain ⟨more, rfl⟩ := List.head?_eq_some_iff.1 hmark
      cases h
      exact .inl ⟨spacing, rfl, hspacing, rfl⟩
    next hmark =>
      refine .inr ⟨spacing, behind, rfl, hspacing, fun c hc => ⟨hbehind c hc, ?_⟩, h⟩
      rintro rfl
      exact hmark hc
  · rintro (⟨spacing, rfl, hspacing, rfl⟩ | ⟨spacing, more, rfl, hspacing, hmore, hfirst⟩)
    · rw [bind_eq (peek?_spacing hspacing fun c hc => by cases hc; exact hclose), List.head?_cons,
        if_pos rfl]
      rfl
    · rw [bind_eq (peek?_spacing hspacing fun c hc => (hmore c hc).1),
        if_neg fun heq => (hmore close heq).2 rfl]
      exact hfirst

theorem ne_nil_of_opens {texts : List (List Char)}
    (hopens : ∀ text ∈ texts, ∃ c more, text = c :: more ∧ isBlank c = false ∧ c ≠ close) :
    ∀ text ∈ texts, text ≠ [] := by
  intro text htext
  obtain ⟨c, more, rfl, -⟩ := hopens text htext
  exact List.cons_ne_nil c more

/-- Parts that begin with marks of their own are told from the closing mark. -/
theorem opening_commas (hclose : isBlank close = false) {first : Reader α} {result a : α}
    {texts : List (List Char)}
    (hopens : ∀ text ∈ texts, ∃ c more, text = c :: more ∧ isBlank c = false ∧ c ≠ close)
    (hnil : texts = [] → a = result)
    (hfirst : texts ≠ [] → first (commas texts ++ close :: rest) = .ok (a, rest)) :
    (do if (← peek?) = some close then
          drop
          return result
        else first : Reader α) (commas texts ++ close :: rest) = .ok (a, rest) := by
  rw [opening_eq_ok_iff hclose]
  cases texts with
  | nil => exact .inl ⟨[], rfl, by simp [Spacing], hnil rfl⟩
  | cons text texts =>
    refine .inr ⟨[], _, rfl, by simp [Spacing], fun c hc => ?_, hfirst (by simp)⟩
    obtain ⟨mark, more, rfl, hmark⟩ := hopens text List.mem_cons_self
    obtain ⟨behind, hbehind⟩ := exists_commas_cons (mark :: more) texts
    rw [hbehind] at hc
    cases hc
    exact hmark

theorem members_eq_ok_iff {step : σ → String → Reader σ} {budget : Nat} :
    members step budget s input = .ok (last, rest) ↔
      (∃ spacing, input = spacing ++ '}' :: rest ∧ Spacing spacing ∧ last = s) ∨
      ∃ spacing more, input = spacing ++ more ∧ Spacing spacing ∧
        (∀ c, more.head? = some c → isBlank c = false ∧ c ≠ '}') ∧
        membersFrom step budget s more = .ok (last, rest) :=
  opening_eq_ok_iff rfl

end Parts

end Reader

end OffsetService.Json
