import OffsetService.Proofs.Json.NumberEnds
import OffsetService.Proofs.Json.Reading

/-!
# Readers look at nothing behind what they read

A reader that succeeds takes characters off the front of a text. What it has then depends on these
characters alone: it takes the same ones, and has the same value, whatever else stands behind them
(`Steady`), within any budget that is as long as they are. A number only ends where the text cannot
go on with it, so values are steady in front of such texts (`Ends`); everything that has a closing
mark is steady in front of `Anything`.

Items and members are steady since one turn of the loop over them is (`partsFrom_split`). A whole
text is steady text and white space (`whole_eq_ok_iff`).
-/

namespace OffsetService.Json.Reader

variable {α β σ : Type} {input rest : List Char}

/-! ## Steady readers -/

/-- Any text at all. -/
def Anything (_ : List Char) : Prop := True

/-- A reader takes these characters off the front of every text in which such a text stands behind
them, and has this value then. -/
def Takes (behind : List Char → Prop) (reader : Reader α) (used : List Char) (a : α) : Prop :=
  ∀ rest, behind rest → reader (used ++ rest) = .ok (a, rest)

/-- A reader takes the same characters, and has the same value, whatever such text stands behind
them, within any budget that is as long as they are. -/
def Steady (behind : List Char → Prop) (reader : (budget : Nat) → Reader α) : Prop :=
  ∀ ⦃budget : Nat⦄ ⦃input : List Char⦄ ⦃a : α⦄ ⦃rest : List Char⦄,
    reader budget input = .ok (a, rest) →
      ∃ used, input = used ++ rest ∧
        ∀ budget, used.length ≤ budget → Takes behind (reader budget) used a

section Steady

variable {behind : List Char → Prop} {reader : Nat → Reader α}

theorem Steady.ends (h : Steady Anything reader) : Steady Ends reader := by
  intro budget input a rest hrun
  obtain ⟨used, htext, htakes⟩ := h hrun
  exact ⟨used, htext, fun budget hbudget rest _ => htakes budget hbudget rest trivial⟩

theorem Steady.bind (h : Steady Anything reader) {next : Nat → α → Reader β}
    (hnext : ∀ a, Steady behind fun budget => next budget a) :
    Steady behind fun budget => reader budget >>= next budget := by
  intro budget input b rest hrun
  obtain ⟨a, mid, hfirst, hlast⟩ := bind_eq_ok_iff.1 hrun
  obtain ⟨used, rfl, htakes⟩ := h hfirst
  obtain ⟨used', rfl, htakes'⟩ := hnext a hlast
  refine ⟨used ++ used', (List.append_assoc ..).symm, fun budget hbudget rest hrest => ?_⟩
  rw [List.length_append] at hbudget
  show (reader budget >>= next budget) _ = _
  rw [List.append_assoc, bind_eq (htakes budget (by omega) _ trivial)]
  exact htakes' budget (by omega) rest hrest

theorem Steady.map (h : Steady behind reader) (f : α → β) :
    Steady behind fun budget => reader budget >>= fun a => pure (f a) := by
  intro budget input b rest hrun
  obtain ⟨a, mid, hfirst, hlast⟩ := bind_eq_ok_iff.1 hrun
  obtain ⟨used, rfl, htakes⟩ := h hfirst
  obtain ⟨rfl, rfl⟩ := pure_eq_ok_iff.1 hlast
  refine ⟨used, rfl, fun budget hbudget rest hrest => ?_⟩
  exact bind_eq (htakes budget hbudget rest hrest)

/-- A reader that never succeeds is steady. -/
theorem Steady.of_ne_ok (h : ∀ budget input a rest, reader budget input ≠ .ok (a, rest)) :
    Steady behind reader :=
  fun budget input a rest hrun => absurd hrun (h budget input a rest)

/-- A reader that decides by the next character is steady when it is behind each of them. -/
theorem Steady.peek {next : Nat → Option Char → Reader α}
    (hnone : ∀ budget a rest, next budget none [] ≠ .ok (a, rest))
    (hsome : ∀ c, isBlank c = false →
      Steady behind fun budget input => next budget (some c) (c :: input)) :
    Steady behind fun budget => peek? >>= next budget := by
  intro budget input a rest hrun
  obtain ⟨spacing, mid, rfl, hspacing, hmid⟩ := exists_spacing input
  have hrun : (peek? >>= next budget) (spacing ++ mid) = .ok (a, rest) := hrun
  rw [bind_eq (peek?_spacing hspacing hmid)] at hrun
  cases mid with
  | nil => exact absurd hrun (hnone budget a rest)
  | cons c mid =>
    have hc : isBlank c = false := hmid c rfl
    obtain ⟨used, rfl, htakes⟩ := hsome c hc hrun
    refine ⟨spacing ++ c :: used, by simp, fun budget hbudget rest hrest => ?_⟩
    show (peek? >>= next budget) _ = _
    rw [List.append_assoc, List.cons_append,
      bind_eq (peek?_spacing hspacing fun d hd => by cases hd; exact hc)]
    refine htakes budget ?_ rest hrest
    rw [List.length_append, List.length_cons] at hbudget
    omega

/-- A reader that does not succeed on an empty text is steady behind the character it begins
with. -/
theorem Steady.behindMark {reader : Reader α} (h : Steady Ends fun _ => reader)
    (hnil : ∀ a, reader [] ≠ .ok (a, [])) (c : Char) :
    Steady Ends fun _ input => reader (c :: input) := by
  intro budget input a rest hrun
  obtain ⟨used, htext, htakes⟩ := @h 0 _ _ _ hrun
  cases used with
  | nil => exact absurd (htakes 0 (Nat.le_refl 0) [] delimits_nil.ends) (hnil a)
  | cons d used =>
    obtain ⟨rfl, rfl⟩ := List.cons.inj htext
    exact ⟨used, rfl, fun _ _ rest hrest => htakes (used.length + 1) (Nat.le_refl _) rest hrest⟩

end Steady

/-! ## Tokens -/

theorem steady_exactly (expected : List Char) : Steady Anything fun _ => exactly expected := by
  intro budget input a rest hrun
  have hrun : exactly expected input = .ok (a, rest) := hrun
  unfold exactly at hrun
  split at hrun
  next hprefix =>
    obtain ⟨more, rfl⟩ := List.isPrefixOf_iff_prefix.1 hprefix
    rw [List.drop_left] at hrun
    cases hrun
    refine ⟨expected, rfl, fun _ _ rest _ => ?_⟩
    show exactly expected (expected ++ rest) = _
    unfold exactly
    rw [if_pos (List.isPrefixOf_iff_prefix.2 (List.prefix_append ..)), List.drop_left]
  next => cases hrun

theorem steady_number : Steady Ends fun _ => number := by
  intro budget input n rest hrun
  have hrun : number input = .ok (n, rest) := hrun
  unfold number at hrun
  split at hrun
  next => cases hrun
  next shown mid hshown =>
    split at hrun
    next => cases hrun
    next hvalue =>
      cases hrun
      obtain ⟨used, rfl, htakes⟩ := takeNumber_split hshown
      refine ⟨used, rfl, fun _ _ rest hrest => ?_⟩
      show number (used ++ rest) = _
      unfold number
      rw [htakes rest hrest]
      dsimp only
      rw [hvalue]

theorem steady_textFrom (kept : Bool) (state : Inside) (found : List Char) :
    Steady Anything fun _ => (textFrom kept state found : Reader String) := by
  intro budget input s rest hrun
  induction input generalizing state found with
  | nil => cases hrun
  | cons c input ih =>
    have hrun : textFrom kept state found (c :: input) = .ok (s, rest) := hrun
    by_cases hquote : c = '"' ∧ state = .plain
    · rw [textFrom, if_pos hquote] at hrun
      cases hrun
      refine ⟨[c], rfl, fun _ _ rest _ => ?_⟩
      show textFrom kept state found (c :: rest) = _
      rw [textFrom, if_pos hquote]
    · cases hstep : stepText kept state c with
      | error refusal =>
        rw [textFrom, if_neg hquote, hstep] at hrun
        cases hrun
      | ok stepped =>
        rw [textFrom_cons hstep hquote] at hrun
        obtain ⟨used, rfl, htakes⟩ := ih stepped.1 _ hrun
        refine ⟨c :: used, rfl, fun _ _ rest _ => ?_⟩
        show textFrom kept state found (c :: (used ++ rest)) = _
        rw [textFrom_cons hstep hquote]
        exact htakes used.length (Nat.le_refl _) rest trivial

theorem steady_memberName : Steady Anything fun _ => memberName := by
  refine Steady.peek (fun budget name rest h => by cases h) fun c _ => ?_
  by_cases hc : c = '"'
  · subst hc
    exact steady_textFrom true .plain []
  · simp only [Option.some.injEq, if_neg hc]
    exact .of_ne_ok fun _ _ _ _ h => by cases h

theorem token_eq_ok_iff {c : Char} (hc : isBlank c = false) {a : Unit} :
    token c input = .ok (a, rest) ↔
      ∃ spacing, input = spacing ++ c :: rest ∧ Spacing spacing := by
  unfold token
  constructor
  · intro h
    obtain ⟨spacing, behind, rfl, hspacing, hbehind⟩ := exists_spacing input
    rw [bind_eq (peek?_spacing hspacing hbehind)] at h
    split at h
    next hmark =>
      obtain ⟨more, rfl⟩ := List.head?_eq_some_iff.1 hmark
      cases h
      exact ⟨spacing, rfl, hspacing⟩
    next => cases h
  · rintro ⟨spacing, rfl, hspacing⟩
    rw [bind_eq (peek?_spacing hspacing fun d hd => by cases hd; exact hc), List.head?_cons,
      if_pos rfl]
    rfl

theorem steady_token {c : Char} (hc : isBlank c = false) : Steady Anything fun _ => token c := by
  intro budget input a rest hrun
  obtain ⟨spacing, rfl, hspacing⟩ := (token_eq_ok_iff hc).1 hrun
  refine ⟨spacing ++ [c], by simp, fun _ _ rest _ => ?_⟩
  exact (token_eq_ok_iff hc).2 ⟨spacing, by simp, hspacing⟩

theorem Steady.colon {value : Nat → Reader α} {behind : List Char → Prop}
    (h : Steady behind value) : Steady behind fun budget => colon (value budget) :=
  (steady_token rfl).bind fun _ => h

/-! ## Values -/

theorem steady_scalar (c : Char) : Steady Ends fun _ input => scalar c (c :: input) := by
  have hword : ∀ (c : Char) (word : List Char) (v : Value), Steady Ends fun _ input =>
      (exactly (c :: word) >>= fun _ => pure v : Reader Value) (c :: input) := by
    intro c word v
    exact ((steady_exactly _).ends.map _).behindMark (fun _ h => by cases h) c
  unfold scalar scalar?
  split
  next =>
    simp only [bind_assoc, pure_bind]
    exact hword 'n' _ _
  next =>
    simp only [bind_assoc, pure_bind]
    exact hword 't' _ _
  next =>
    simp only [bind_assoc, pure_bind]
    exact hword 'f' _ _
  next =>
    simp only [bind_assoc, pure_bind]
    exact (steady_textFrom true .plain []).ends.map Value.text
  next =>
    by_cases hc : c = '-' ∨ isDigit c = true
    · simp only [if_pos hc, bind_assoc, pure_bind]
      exact (steady_number.map Value.number).behindMark (fun _ h => by cases h) c
    · simp only [if_neg hc, pure_bind]
      exact .of_ne_ok fun _ _ _ _ h => by cases h

/-! ## Sequences and objects -/

theorem ends_spacing {spacing rest : List Char} (h : Spacing spacing) (hrest : Ends rest) :
    Ends (spacing ++ rest) := by
  cases spacing with
  | nil => exact hrest
  | cons blank spacing =>
    intro c hc
    cases hc
    have hblank : isBlank blank = true := h blank List.mem_cons_self
    simp only [isBlank, Bool.or_eq_true, decide_eq_true_eq] at hblank
    rcases hblank with ((rfl | rfl) | rfl) | rfl <;> decide

section Parts

variable {close : Char} {part : Nat → σ → Reader σ}

theorem partsFrom_split (hclose : close = ']' ∨ close = '}')
    (hpart : ∀ s, Steady Ends fun budget => part budget s) {turns budget : Nat} {s last : σ}
    (h : partsFrom close (part budget) turns s input = .ok (last, rest)) :
    ∃ used, input = used ++ rest ∧ used ≠ [] ∧ ∀ turns budget, used.length ≤ turns →
      used.length ≤ budget → Takes Anything (partsFrom close (part budget) turns s) used last := by
  have hmark : isBlank close = false ∧ close ≠ ',' := by
    rcases hclose with rfl | rfl <;> decide
  induction turns generalizing s input with
  | zero => cases h
  | succ turns ih =>
    obtain ⟨next, spacing, mark, more, hfirst, hspacing, hmore⟩ :=
      (partsFrom_succ_eq_ok_iff hmark).1 h
    obtain ⟨used, rfl, htakes⟩ := hpart s hfirst
    have hends : ∀ rest, Ends (spacing ++ mark :: rest) := by
      refine fun rest => ends_spacing hspacing (delimits_cons ?_).ends
      rcases hmore with ⟨rfl, -⟩ | ⟨rfl, -⟩
      · exact .inl rfl
      · exact .inr hclose
    obtain ⟨used', rfl, hlast⟩ : ∃ used', more = used' ++ rest ∧ ∀ turns budget,
        used'.length ≤ turns → used'.length ≤ budget → ∀ rest,
          mark = ',' ∧ partsFrom close (part budget) turns next (used' ++ rest) = .ok (last, rest) ∨
            mark = close ∧ used' ++ rest = rest ∧ last = next := by
      rcases hmore with ⟨rfl, hnext⟩ | ⟨rfl, rfl, rfl⟩
      · obtain ⟨used', hmore, -, htakes'⟩ := ih hnext
        exact ⟨used', hmore, fun turns budget hturns hbudget rest =>
          .inl ⟨rfl, htakes' turns budget hturns hbudget rest trivial⟩⟩
      · exact ⟨[], rfl, fun _ _ _ _ _ => .inr ⟨rfl, rfl, rfl⟩⟩
    refine ⟨used ++ (spacing ++ mark :: used'), by simp, by simp, ?_⟩
    intro turns budget hturns hbudget rest _
    simp only [List.length_append, List.length_cons] at hturns hbudget
    obtain ⟨turns, rfl⟩ : ∃ n, turns = n + 1 := ⟨turns - 1, by omega⟩
    refine (partsFrom_succ_eq_ok_iff hmark).2 ⟨next, spacing, mark, used' ++ rest, ?_, hspacing,
      hlast turns budget (by omega) (by omega) rest⟩
    rw [List.append_assoc, List.append_assoc, List.cons_append]
    exact htakes budget (by omega) _ (hends _)

/-- What opens is closed at once, or goes on with parts that take something. -/
theorem Steady.opening (hclose : isBlank close = false) {first : Nat → Reader α} {result : α}
    (hfirst : ∀ ⦃budget input a rest⦄, first budget input = .ok (a, rest) →
      ∃ used, input = used ++ rest ∧ used ≠ [] ∧
        ∀ budget, used.length ≤ budget → Takes Anything (first budget) used a) :
    Steady Anything fun budget => (do
      if (← peek?) = some close then
        drop
        return result
      else first budget : Reader α) := by
  intro budget input a rest hrun
  rcases (opening_eq_ok_iff hclose).1 hrun with
    ⟨spacing, rfl, hspacing, rfl⟩ | ⟨spacing, more, rfl, hspacing, hmore, hrun⟩
  · refine ⟨spacing ++ [close], by simp, fun budget _ rest _ => ?_⟩
    exact (opening_eq_ok_iff hclose).2 (.inl ⟨spacing, by simp, hspacing, rfl⟩)
  · obtain ⟨used, rfl, hne, htakes⟩ := hfirst hrun
    obtain ⟨c, used, rfl⟩ := List.exists_cons_of_ne_nil hne
    refine ⟨spacing ++ c :: used, by simp, fun budget hbudget rest hrest => ?_⟩
    rw [List.length_append] at hbudget
    exact (opening_eq_ok_iff hclose).2 (.inr ⟨spacing, c :: used ++ rest, by simp, hspacing, hmore,
      htakes budget (by omega) rest hrest⟩)

theorem Steady.items {item : Nat → Reader α} (h : Steady Ends item) :
    Steady Anything fun budget => items (item budget) budget := by
  refine Steady.opening rfl ?_
  intro budget input as rest hrun
  simp only [itemsFrom_eq_partsFrom] at hrun ⊢
  obtain ⟨found, _, hparts, hlast⟩ := bind_eq_ok_iff.1 hrun
  obtain ⟨rfl, rfl⟩ := pure_eq_ok_iff.1 hlast
  have hpart : ∀ found, Steady Ends fun budget =>
      (do return (← item budget) :: found : Reader (List α)) :=
    fun found => h.map (· :: found)
  obtain ⟨used, rfl, hne, htakes⟩ := partsFrom_split (.inl rfl) hpart hparts
  refine ⟨used, rfl, hne, fun budget hbudget rest hrest => ?_⟩
  exact bind_eq (htakes budget budget hbudget hbudget rest hrest)

theorem Steady.members {step : Nat → σ → String → Reader σ}
    (h : ∀ s name, Steady Ends fun budget => step budget s name) (s : σ) :
    Steady Anything fun budget => members (step budget) budget s := by
  refine Steady.opening rfl ?_
  intro budget input last rest hrun
  simp only [membersFrom_eq_partsFrom] at hrun ⊢
  have hpart : ∀ s, Steady Ends fun budget => memberName >>= step budget s :=
    fun s => steady_memberName.bind (h s)
  obtain ⟨used, rfl, hne, htakes⟩ := partsFrom_split (.inr rfl) hpart hrun
  exact ⟨used, rfl, hne, fun budget hbudget => htakes budget budget hbudget hbudget⟩

end Parts

/-! ## Kept values -/

theorem steady_value (depth : Nat) : Steady Ends fun budget => value budget depth := by
  induction depth with
  | zero => exact Steady.peek (fun _ _ _ h => by cases h) fun c _ => steady_scalar c
  | succ depth ih =>
    refine Steady.peek (fun _ _ _ h => by cases h) fun c _ => ?_
    generalize hmark : some c = mark
    split
    next => cases hmark
    next =>
      cases hmark
      exact (ih.items.map Value.sequence).ends
    next =>
      cases hmark
      have hmember : ∀ found name, Steady Ends fun budget =>
          collectMember (value budget depth) found name :=
        fun found name => ih.colon.map fun v => (name, v) :: found
      exact ((Steady.members hmember []).map fun found => Value.object found.reverse).ends
    next =>
      cases hmark
      exact steady_scalar c

/-! ## Whole texts -/

theorem whole_eq_ok_iff_run {reader : Nat → Reader α} {a : α} :
    whole reader input false = .ok a ↔
      ∃ spacing, Spacing spacing ∧ reader (input.length + 1) input = .ok (a, spacing) := by
  have hempty : ∀ rest : List Char, (rest.dropWhile isBlank).isEmpty = true ↔ Spacing rest := by
    intro rest
    rw [List.isEmpty_iff, List.dropWhile_eq_nil_iff]
    rfl
  unfold whole
  constructor
  · intro h
    split at h
    next => cases h
    next b rest hrun =>
      split at h
      next hrest =>
        cases h
        exact ⟨rest, (hempty rest).1 (by simpa using hrest), hrun⟩
      next => cases h
  · rintro ⟨spacing, hspacing, hrun⟩
    rw [StateT.run, hrun]
    dsimp only
    rw [(hempty spacing).2 hspacing]
    rfl

/-- A whole text is what a steady reader takes and white space behind it. -/
theorem whole_eq_ok_iff {reader : Nat → Reader α} (h : Steady Ends reader) {a : α} :
    whole reader input false = .ok a ↔ ∃ used spacing, input = used ++ spacing ∧ Spacing spacing ∧
      ∀ budget, used.length ≤ budget → Takes Ends (reader budget) used a := by
  rw [whole_eq_ok_iff_run]
  constructor
  · rintro ⟨spacing, hspacing, hrun⟩
    obtain ⟨used, hinput, htakes⟩ := h hrun
    exact ⟨used, spacing, hinput, hspacing, htakes⟩
  · rintro ⟨used, spacing, rfl, hspacing, htakes⟩
    have hends : Ends spacing := by
      have hbehind := ends_spacing hspacing delimits_nil.ends
      rwa [List.append_nil] at hbehind
    refine ⟨spacing, hspacing, htakes _ ?_ spacing hends⟩
    rw [List.length_append]
    omega

end OffsetService.Json.Reader
