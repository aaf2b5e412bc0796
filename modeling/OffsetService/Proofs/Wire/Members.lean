import OffsetService.Proofs.Json.Objects
import OffsetService.Wire.Decode

/-!
# What a request says

A request is read in two ways at once: its query where it stands, and its other members as values
that are decoded behind the last one. Both come to the same. A text reads as a request exactly when it
reads as an object in which each of the four members stands once and says its part (`Spells`), and
then the request is what they say (`request_eq_ok_iff`). Nothing else about the text matters: not the
order of the members, nor what other members there are.

A reader that wants a value of one kind does what decoding the value that stands there does
(`Decodes`). Members are folded into a state (`members_tells`), in which a name has a slot that is
filled at most once (`once_iff_slotOf`).
-/

namespace OffsetService

open Json Json.Reader

variable {α β σ μ : Type} {input mid rest : List Char} {budget depth : Nat}

namespace Json.Reader

/-! ## Two readers of the same parts -/

theorem mapM_cons_eq_some_iff {decode : β → Option α} {v : β} {items : List β} {as : List α} :
    (v :: items).mapM decode = some as ↔
      ∃ a rest, decode v = some a ∧ items.mapM decode = some rest ∧ as = a :: rest := by
  rw [List.mapM_cons]
  simp only [bind, Option.bind_eq_some_iff, pure, Option.some.injEq]
  grind

theorem mapM_reverse_eq_some_iff {decode : β → Option α} {items : List β} {as : List α} :
    items.reverse.mapM decode = some as.reverse ↔ items.mapM decode = some as := by
  have hforall : ∀ {items : List β} {as : List α},
      items.mapM decode = some as ↔ List.Forall₂ (fun v a => decode v = some a) items as := by
    intro items as
    induction items generalizing as with
    | nil => simp [eq_comm]
    | cons v items ih => simp only [mapM_cons_eq_some_iff, List.forall₂_cons_left_iff, ih]
  rw [hforall, hforall, List.forall₂_reverse_iff]

section Parts

variable {close : Char} (hclose : isBlank close = false ∧ close ≠ ',')
  {part : σ → Reader σ} {read : Reader μ}

include hclose in
/-- Parts that were collected before stay. -/
theorem suffix_of_partsFrom {turns : Nat} {found all : List μ}
    (h : partsFrom close (fun found => do return (← read) :: found) turns found input
      = .ok (all, rest)) : found <:+ all := by
  induction turns generalizing found input with
  | zero => cases h
  | succ turns ih =>
    obtain ⟨next, _, _, _, hpart, -, hmark⟩ := (partsFrom_succ_eq_ok_iff hclose).1 h
    obtain ⟨m, _, -, hpure⟩ := bind_eq_ok_iff.1 hpart
    obtain ⟨rfl, -⟩ := pure_eq_ok_iff.1 hpure
    rcases hmark with ⟨-, hnext⟩ | ⟨-, -, rfl⟩
    · exact (List.suffix_cons m found).trans (ih hnext)
    · exact List.suffix_cons m found

include hclose in
/-- When each part takes the state on as the collected part tells, all parts do. -/
theorem partsFrom_tells (Tells : List μ → σ → Prop)
    (hpart : ∀ ⦃found s input next mid⦄, Tells found s → (part s input = .ok (next, mid) ↔
      ∃ m, read input = .ok (m, mid) ∧ Tells (m :: found) next))
    (htail : ∀ ⦃m found next⦄, Tells (m :: found) next → ∃ s, Tells found s)
    {turns : Nat} {found : List μ} {s last : σ} (h : Tells found s) :
    partsFrom close part turns s input = .ok (last, rest) ↔
      ∃ all, partsFrom close (fun found => do return (← read) :: found) turns found input
        = .ok (all, rest) ∧ Tells all last := by
  have hsuffix : ∀ {found all last}, found <:+ all → Tells all last → ∃ s, Tells found s := by
    rintro found _ last ⟨front, rfl⟩ htells
    induction front generalizing last with
    | nil => exact ⟨last, htells⟩
    | cons m front ih =>
      obtain ⟨s, hs⟩ := htail htells
      exact ih hs
  induction turns generalizing found s input with
  | zero =>
    constructor
    · intro hrun
      cases hrun
    · rintro ⟨_, hrun, -⟩
      cases hrun
  | succ turns ih =>
    simp only [partsFrom_succ_eq_ok_iff hclose]
    constructor
    · rintro ⟨next, spacing, mark, more, hrun, hspacing, hmark⟩
      obtain ⟨m, hread, htells⟩ := (hpart h).1 hrun
      have hcollect := bind_eq (f := fun m => (pure (m :: found) : Reader (List μ))) hread
      rcases hmark with ⟨rfl, hnext⟩ | ⟨rfl, rfl, rfl⟩
      · obtain ⟨all, hall, hlast⟩ := (ih htells).1 hnext
        exact ⟨all, ⟨_, spacing, _, more, hcollect, hspacing, .inl ⟨rfl, hall⟩⟩, hlast⟩
      · exact ⟨_, ⟨_, spacing, _, more, hcollect, hspacing, .inr ⟨rfl, rfl, rfl⟩⟩, htells⟩
    · rintro ⟨all, ⟨_, spacing, mark, more, hcollect, hspacing, hmark⟩, hlast⟩
      obtain ⟨m, _, hread, hpure⟩ := bind_eq_ok_iff.1 hcollect
      obtain ⟨rfl, rfl⟩ := pure_eq_ok_iff.1 hpure
      rcases hmark with ⟨rfl, hnext⟩ | ⟨rfl, rfl, rfl⟩
      · obtain ⟨next, htells⟩ := hsuffix (suffix_of_partsFrom hclose hnext) hlast
        exact ⟨next, spacing, _, more, (hpart h).2 ⟨m, hread, htells⟩, hspacing,
          .inl ⟨rfl, (ih htells).2 ⟨all, hnext, hlast⟩⟩⟩
      · exact ⟨last, spacing, _, more, (hpart h).2 ⟨m, hread, hlast⟩, hspacing,
          .inr ⟨rfl, rfl, rfl⟩⟩

include hclose in
/-- Parts that are decoded one by one are decoded from the collected ones. -/
theorem partsFrom_mapM {decode : μ → Option α} {decoded : Reader α}
    (hdecoded : ∀ ⦃input a mid⦄, decoded input = .ok (a, mid) ↔
      ∃ m, read input = .ok (m, mid) ∧ decode m = some a) {turns : Nat} {as : List α} :
    partsFrom close (fun as => do return (← decoded) :: as) turns [] input = .ok (as, rest) ↔
      ∃ found, partsFrom close (fun found => do return (← read) :: found) turns [] input
        = .ok (found, rest) ∧ found.mapM decode = some as := by
  refine partsFrom_tells hclose (fun found as => found.mapM decode = some as) ?_ ?_ rfl
  · intro found as input next mid htells
    simp only [bind_eq_ok_iff, pure_eq_ok_iff, hdecoded, mapM_cons_eq_some_iff]
    constructor
    · rintro ⟨a, _, ⟨m, hm, hdecode⟩, rfl, rfl⟩
      exact ⟨m, hm, a, as, hdecode, htells, rfl⟩
    · rintro ⟨m, hm, a, _, hdecode, hfound, rfl⟩
      cases htells.symm.trans hfound
      exact ⟨a, _, ⟨m, hm, hdecode⟩, rfl, rfl⟩
  · intro m found next htells
    obtain ⟨_, as, -, hfound, -⟩ := mapM_cons_eq_some_iff.1 htells
    exact ⟨as, hfound⟩

/-- When the parts tell the result, so does all that opens with them. -/
theorem opening_tells {close : Char} (hclose : isBlank close = false)
    (Tells : List μ → σ → Prop) {first : Reader σ} {collect : Reader (List μ)} {empty last : σ}
    (hempty : ∀ s, Tells [] s ↔ s = empty)
    (hfirst : ∀ more, first more = .ok (last, rest) ↔
      ∃ found, collect more = .ok (found, rest) ∧ Tells found last) :
    (do if (← peek?) = some close then
          drop
          return empty
        else first : Reader σ) input = .ok (last, rest) ↔
      ∃ found, (do
        if (← peek?) = some close then
          drop
          return []
        else collect : Reader (List μ)) input = .ok (found, rest) ∧ Tells found last := by
  simp only [opening_eq_ok_iff hclose, hfirst]
  constructor
  · rintro (⟨spacing, rfl, hspacing, rfl⟩ |
      ⟨spacing, more, rfl, hspacing, hmore, found, hfound, hlast⟩)
    · exact ⟨[], .inl ⟨spacing, rfl, hspacing, rfl⟩, (hempty last).2 rfl⟩
    · exact ⟨found, .inr ⟨spacing, more, rfl, hspacing, hmore, hfound⟩, hlast⟩
  · rintro ⟨found, ⟨spacing, rfl, hspacing, rfl⟩ | ⟨spacing, more, rfl, hspacing, hmore, hfound⟩,
      hlast⟩
    · exact .inl ⟨spacing, rfl, hspacing, (hempty last).1 hlast⟩
    · exact .inr ⟨spacing, more, rfl, hspacing, hmore, found, hfound, hlast⟩

end Parts

/-- A member: its name, and its value behind a colon. -/
def namedMember (value : Reader α) : Reader (String × α) := do
  let name ← memberName
  return (name, ← colon value)

/-- Members are collected as parts that are read by themselves. -/
theorem membersFrom_collectMember (value : Reader α) (turns : Nat) (found : List (String × α)) :
    membersFrom (collectMember value) turns found
      = partsFrom '}' (fun found => do return (← namedMember value) :: found) turns found := by
  rw [membersFrom_eq_partsFrom]
  congr 1
  funext found
  simp only [namedMember, bind_assoc, pure_bind]
  rfl

/-- An object is read by any step that does what the collected members tell. -/
theorem members_tells {step : σ → String → Reader σ} (Tells : List (String × Value) → σ → Prop)
    (hstep : ∀ ⦃found s name input next mid⦄, Tells found s →
      (step s name input = .ok (next, mid) ↔ ∃ v,
        colon (value budget depth) input = .ok (v, mid) ∧ Tells ((name, v) :: found) next))
    (htail : ∀ ⦃member found next⦄, Tells (member :: found) next → ∃ s, Tells found s)
    {s last : σ} (h : ∀ t, Tells [] t ↔ t = s) :
    members step budget s input = .ok (last, rest) ↔
      ∃ found, members (collectMember (value budget depth)) budget [] input = .ok (found, rest) ∧
        Tells found last := by
  have hpart : ∀ ⦃found s input next mid⦄, Tells found s →
      ((memberName >>= step s) input = .ok (next, mid) ↔ ∃ member,
        namedMember (value budget depth) input = .ok (member, mid) ∧
          Tells (member :: found) next) := by
    intro found s input next mid htells
    simp only [namedMember, bind_eq_ok_iff, pure_eq_ok_iff]
    constructor
    · rintro ⟨name, key, hname, hrun⟩
      obtain ⟨v, hvalue, hnext⟩ := (hstep htells).1 hrun
      exact ⟨(name, v), ⟨name, key, hname, v, mid, hvalue, rfl, rfl⟩, hnext⟩
    · rintro ⟨_, ⟨name, key, hname, v, _, hvalue, rfl, rfl⟩, hnext⟩
      exact ⟨name, key, hname, (hstep htells).2 ⟨v, hvalue, hnext⟩⟩
  refine opening_tells rfl Tells h fun more => ?_
  rw [membersFrom_eq_partsFrom, membersFrom_collectMember]
  exact partsFrom_tells (by decide) Tells hpart htail ((h s).2 rfl)

end Json.Reader

namespace Wire

/-! ## Readers and the values in their place -/

/-- A reader succeeds exactly where a kept value can stand from which its result is decoded. -/
def Decodes (reader : (budget : Nat) → Reader α) (depth : Nat) (decode : Value → Option α) : Prop :=
  ∀ ⦃budget : Nat⦄ ⦃input : List Char⦄ ⦃a : α⦄ ⦃rest : List Char⦄,
    reader budget input = .ok (a, rest) ↔
      ∃ v, value budget depth input = .ok (v, rest) ∧ decode v = some a

/-- The text in a value. -/
def textIn? : Value → Option String
  | .text s => some s
  | _ => none

/-- The set of names in a value. -/
def namesIn? : Value → Option NameSet
  | .sequence items => (items.mapM textIn?).map NameSet.ofNames
  | _ => none

/-- What is found in a member, with its name. -/
def entryIn? (decode : Value → Option α) (member : String × Value) : Option (String × α) :=
  (decode member.2).map (member.1, ·)

/-- What is found by name in a value. -/
def mapIn? (decode : Value → Option α) : Value → Option (NameMap α)
  | .object entries => (entries.mapM (entryIn? decode)).map NameMap.ofList
  | _ => none

theorem mismatch_ne_ok {expected : String} {a : α} : mismatch expected input ≠ .ok (a, rest) := by
  unfold mismatch
  intro h
  obtain ⟨_, _, -, hunfit⟩ := bind_eq_ok_iff.1 h
  cases hunfit

/-- A reader that asks for a mark, and refuses whatever else stands there. -/
theorem marked_eq_ok_iff {mark : Char} (hmark : isBlank mark = false) {expected : String}
    {inner : Reader α} {a : α} :
    (do if (← peek?) = some mark then
          drop
          inner
        else mismatch expected : Reader α) input = .ok (a, rest) ↔
      ∃ spacing more, input = spacing ++ mark :: more ∧ Spacing spacing ∧
        inner more = .ok (a, rest) := by
  constructor
  · intro h
    obtain ⟨spacing, behind, rfl, hspacing, hbehind⟩ := exists_spacing input
    rw [bind_eq (peek?_spacing hspacing hbehind)] at h
    split at h
    next hhead =>
      obtain ⟨more, rfl⟩ := List.head?_eq_some_iff.1 hhead
      exact ⟨spacing, more, rfl, hspacing, h⟩
    next => exact absurd h mismatch_ne_ok
  · rintro ⟨spacing, more, rfl, hspacing, hinner⟩
    rw [bind_eq (peek?_spacing hspacing fun c hc => by cases hc; exact hmark), List.head?_cons,
      if_pos rfl]
    exact hinner

section Decodes

variable {reader : (budget : Nat) → Reader α} {decode : Value → Option α}

theorem decodes_text (depth : Nat) : Decodes (fun _ => text) depth textIn? := by
  intro budget input s rest
  constructor
  · intro h
    exact ⟨.text s, value_text_iff.2 ((marked_eq_ok_iff rfl).1 h), rfl⟩
  · rintro ⟨v, hvalue, hdecode⟩
    unfold textIn? at hdecode
    split at hdecode
    next =>
      cases hdecode
      exact (marked_eq_ok_iff rfl).2 (value_text_iff.1 hvalue)
    next => cases hdecode

theorem Decodes.colon (h : Decodes reader depth decode) {a : α} :
    colon (reader budget) input = .ok (a, rest) ↔
      ∃ v, colon (value budget depth) input = .ok (v, rest) ∧ decode v = some a := by
  unfold Reader.colon
  simp only [bind_eq_ok_iff]
  constructor
  · rintro ⟨_, mid, htoken, hread⟩
    obtain ⟨v, hvalue, hdecode⟩ := h.1 hread
    exact ⟨v, ⟨(), mid, htoken, hvalue⟩, hdecode⟩
  · rintro ⟨v, ⟨_, mid, htoken, hvalue⟩, hdecode⟩
    exact ⟨(), mid, htoken, h.2 ⟨v, hvalue, hdecode⟩⟩

theorem Decodes.items (h : Decodes reader depth decode) {as : List α} :
    items (reader budget) budget input = .ok (as, rest) ↔
      ∃ found, items (value budget depth) budget input = .ok (found, rest) ∧
        found.mapM decode = some as := by
  refine opening_tells rfl (fun found as => found.mapM decode = some as) (by simp [eq_comm]) ?_
  intro more
  have hclose : isBlank ']' = false ∧ ']' ≠ ',' := by decide
  simp only [itemsFrom_eq_partsFrom, bind_eq_ok_iff, pure_eq_ok_iff,
    partsFrom_mapM hclose (@h budget)]
  constructor
  · rintro ⟨as, _, ⟨found, hfound, hdecode⟩, rfl, rfl⟩
    exact ⟨_, ⟨found, _, hfound, rfl, rfl⟩, mapM_reverse_eq_some_iff.2 hdecode⟩
  · rintro ⟨_, ⟨found, _, hfound, rfl, rfl⟩, hdecode⟩
    rw [← List.reverse_reverse as, mapM_reverse_eq_some_iff] at hdecode
    exact ⟨as.reverse, _, ⟨found, hfound, hdecode⟩, (List.reverse_reverse as).symm, rfl⟩

theorem Decodes.namedMember (h : Decodes reader depth decode) {entry : String × α} :
    namedMember (reader budget) input = .ok (entry, rest) ↔
      ∃ member, namedMember (value budget depth) input = .ok (member, rest) ∧
        entryIn? decode member = some entry := by
  unfold Reader.namedMember
  simp only [bind_eq_ok_iff, pure_eq_ok_iff, h.colon]
  constructor
  · rintro ⟨name, key, hname, a, _, ⟨v, hvalue, hdecode⟩, rfl, rfl⟩
    exact ⟨(name, v), ⟨name, key, hname, v, _, hvalue, rfl, rfl⟩, by simp [entryIn?, hdecode]⟩
  · rintro ⟨_, ⟨name, key, hname, v, _, hvalue, rfl, rfl⟩, hentry⟩
    obtain ⟨a, hdecode, rfl⟩ := Option.map_eq_some_iff.1 hentry
    exact ⟨name, key, hname, a, _, ⟨v, hvalue, hdecode⟩, rfl, rfl⟩

theorem Decodes.nameMap (h : Decodes reader depth decode) :
    Decodes (fun budget => nameMap (reader budget) budget) (depth + 1) (mapIn? decode) := by
  have hmembers : ∀ {budget : Nat} {input : List Char} {as : List (String × α)} {rest : List Char},
      members (collectMember (reader budget)) budget [] input = .ok (as, rest) ↔ ∃ found,
        members (collectMember (value budget depth)) budget [] input = .ok (found, rest) ∧
          found.mapM (entryIn? decode) = some as := by
    intro budget input as rest
    refine opening_tells rfl (fun found as => found.mapM (entryIn? decode) = some as)
      (by simp [eq_comm]) fun more => ?_
    rw [membersFrom_collectMember, membersFrom_collectMember]
    exact partsFrom_mapM (by decide) fun _ _ _ => h.namedMember
  intro budget input names rest
  refine (marked_eq_ok_iff rfl).trans ?_
  simp only [bind_eq_ok_iff, pure_eq_ok_iff, hmembers]
  constructor
  · rintro ⟨spacing, more, rfl, hspacing, as, _, ⟨found, hfound, hdecode⟩, rfl, rfl⟩
    refine ⟨.object found.reverse, value_object hspacing hfound, ?_⟩
    rw [mapIn?, mapM_reverse_eq_some_iff.2 hdecode]
    rfl
  · rintro ⟨v, hvalue, hdecode⟩
    unfold mapIn? at hdecode
    split at hdecode
    next entries =>
      obtain ⟨as, hentries, rfl⟩ := Option.map_eq_some_iff.1 hdecode
      obtain ⟨spacing, more, rfl, hspacing, hfound⟩ := value_object_iff.1 hvalue
      refine ⟨spacing, more, rfl, hspacing, as.reverse, _, ⟨_, hfound, ?_⟩, ?_, rfl⟩
      · exact mapM_reverse_eq_some_iff.2 hentries
      · rw [List.reverse_reverse]
    next => cases hdecode

theorem decodes_nameSet (depth : Nat) : Decodes nameSet (depth + 1) namesIn? := by
  intro budget input names rest
  refine (marked_eq_ok_iff rfl).trans ?_
  simp only [bind_eq_ok_iff, pure_eq_ok_iff, (decodes_text depth).items]
  constructor
  · rintro ⟨spacing, more, rfl, hspacing, texts, _, ⟨found, hfound, hdecode⟩, rfl, rfl⟩
    refine ⟨.sequence found, value_sequence hspacing hfound, ?_⟩
    rw [namesIn?, hdecode]
    rfl
  · rintro ⟨v, hvalue, hdecode⟩
    unfold namesIn? at hdecode
    split at hdecode
    next found =>
      obtain ⟨texts, htexts, rfl⟩ := Option.map_eq_some_iff.1 hdecode
      obtain ⟨spacing, more, rfl, hspacing, hfound⟩ := value_sequence_iff.1 hvalue
      exact ⟨spacing, more, rfl, hspacing, texts, _, ⟨found, hfound, htexts⟩, rfl, rfl⟩
    next => cases hdecode

theorem decodes_nestedQuery (depth : Nat) : Decodes nestedQuery (depth + 2) (mapIn? namesIn?) :=
  (decodes_nameSet depth).nameMap

end Decodes

/-! ## Members that may stand once -/

/-- The values of the members with a name. -/
def valuesOf (name : String) (entries : List (String × Value)) : List Value :=
  (entries.filter (·.1 = name)).map Prod.snd

/-- What is known of a member that may stand once: nothing yet, or what its value says. -/
def slotOf (name : String) (decode : Value → Option α) (entries : List (String × Value)) :
    Option (Option α) :=
  match valuesOf name entries with
  | [] => some none
  | [v] => (decode v).map some
  | _ => none

section Slots

variable {name other : String} {decode : Value → Option α} {entries : List (String × Value)}
  {v : Value} {slot : Option α} {a : α}

theorem valuesOf_cons_self (name : String) (v : Value) (entries : List (String × Value)) :
    valuesOf name ((name, v) :: entries) = v :: valuesOf name entries := by
  simp [valuesOf]

theorem valuesOf_cons_of_ne (h : other ≠ name) (v : Value) (entries : List (String × Value)) :
    valuesOf name ((other, v) :: entries) = valuesOf name entries := by
  simp [valuesOf, h]

theorem slotOf_cons_self : slotOf name decode ((name, v) :: entries) = some slot ↔
    slotOf name decode entries = some none ∧ ∃ a, decode v = some a ∧ slot = some a := by
  unfold slotOf
  rw [valuesOf_cons_self]
  cases hvalues : valuesOf name entries with
  | nil => simp [eq_comm]
  | cons w values => cases values <;> simp

theorem slotOf_cons_of_ne (h : other ≠ name) :
    slotOf name decode ((other, v) :: entries) = slotOf name decode entries := by
  unfold slotOf
  rw [valuesOf_cons_of_ne h]

theorem exists_slotOf_of_cons {entry : String × Value}
    (h : slotOf name decode (entry :: entries) = some slot) :
    ∃ slot, slotOf name decode entries = some slot := by
  obtain ⟨other, v⟩ := entry
  by_cases hname : other = name
  · subst hname
    exact ⟨none, (slotOf_cons_self.1 h).1⟩
  · exact ⟨slot, (slotOf_cons_of_ne hname).symm.trans h⟩

theorem slotOf_eq_some_some_iff :
    slotOf name decode entries = some (some a) ↔
      ∃ v, valuesOf name entries = [v] ∧ decode v = some a := by
  unfold slotOf
  cases hvalues : valuesOf name entries with
  | nil => simp
  | cons w values => cases values <;> simp

end Slots

theorem once_eq_ok_iff {name : String} {known slot : Option α} {reader : Reader α} :
    once name known reader input = .ok (slot, rest) ↔
      known = none ∧ ∃ a, reader input = .ok (a, rest) ∧ slot = some a := by
  cases known with
  | none =>
    show (reader >>= fun a => pure (some a)) input = _ ↔ _
    simp only [bind_eq_ok_iff, pure_eq_ok_iff]
    grind
  | some a => exact iff_of_false (fun h => by cases h) fun h => by cases h.1

/-- A member is noted exactly when it may stand behind those before it. -/
theorem once_iff_slotOf {name : String} {decode : Value → Option α} {v : Value}
    {entries : List (String × Value)} {known slot : Option α} {reader : Reader α}
    (h : slotOf name decode entries = some known)
    (hreader : ∀ {a rest}, reader input = .ok (a, rest) ↔ decode v = some a ∧ rest = mid) :
    once name known reader input = .ok (slot, rest) ↔
      slotOf name decode ((name, v) :: entries) = some slot ∧ rest = mid := by
  rw [once_eq_ok_iff, slotOf_cons_self, h]
  simp only [hreader, Option.some.injEq]
  grind

theorem required_eq_ok_iff {name : String} {slot : Option α} {a : α} :
    required name slot input = .ok (a, rest) ↔ slot = some a ∧ rest = input := by
  cases slot with
  | none => exact iff_of_false (fun h => by cases h) fun h => by cases h.1
  | some b =>
    refine pure_eq_ok_iff.trans ?_
    grind

theorem close_eq_ok_iff {found : PartialIdentity} {id : Identity} :
    found.close input = .ok (id, rest) ↔
      found = ⟨some id.name, some id.uniqueId, some id.age⟩ ∧ rest = input := by
  unfold PartialIdentity.close
  simp only [bind_eq_ok_iff, required_eq_ok_iff, pure_eq_ok_iff]
  constructor
  · rintro ⟨name, _, ⟨hname, rfl⟩, uniqueId, _, ⟨hid, rfl⟩, age, _, ⟨hage, rfl⟩, rfl, rfl⟩
    cases found
    simp_all
  · rintro ⟨rfl, rfl⟩
    exact ⟨_, _, ⟨rfl, rfl⟩, _, _, ⟨rfl, rfl⟩, _, _, ⟨rfl, rfl⟩, rfl, rfl⟩

/-! ## The members of an identity -/

/-- The unique id in a value. -/
def uniqueIdIn? (v : Value) : Option String :=
  (textIn? v).map uniqueIdOf

/-- The age in a value. -/
def ageIn? (v : Value) : Option UInt32 :=
  (ageOf v).toOption

theorem textIn_eq_ok_iff {v : Value} {s : String} :
    textIn v input = .ok (s, rest) ↔ textIn? v = some s ∧ rest = input := by
  cases v with
  | text t =>
    refine pure_eq_ok_iff.trans ?_
    simp only [textIn?, Option.some.injEq, eq_comm]
  | null | boolean | number | sequence | object =>
    exact iff_of_false (fun h => by cases h) fun h => by cases h.1

theorem uniqueIdOf_textIn_eq_ok_iff {v : Value} {s : String} :
    (uniqueIdOf <$> textIn v) input = .ok (s, rest) ↔ uniqueIdIn? v = some s ∧ rest = input := by
  rw [uniqueIdIn?, Option.map_eq_some_iff, map_eq_pure_bind, bind_eq_ok_iff]
  simp only [textIn_eq_ok_iff, pure_eq_ok_iff]
  grind

theorem fit_ageOf_eq_ok_iff {v : Value} {n : UInt32} :
    fit (ageOf v) input = .ok (n, rest) ↔ ageIn? v = some n ∧ rest = input := by
  unfold ageIn?
  cases ageOf v with
  | error misfit => exact iff_of_false (fun h => by cases h) fun h => by cases h.1
  | ok m =>
    refine pure_eq_ok_iff.trans ?_
    simp only [Except.toOption, Option.some.injEq, eq_comm]

/-- What is known of an identity behind these members. -/
structure Kept (entries : List (String × Value)) (found : PartialIdentity) : Prop where
  name : slotOf "name" textIn? entries = some found.name
  uniqueId : slotOf "guid" uniqueIdIn? entries = some found.uniqueId
  age : slotOf "age" ageIn? entries = some found.age

theorem kept_iff {entries : List (String × Value)} {found : PartialIdentity} :
    Kept entries found ↔ slotOf "name" textIn? entries = some found.name ∧
      slotOf "guid" uniqueIdIn? entries = some found.uniqueId ∧
      slotOf "age" ageIn? entries = some found.age :=
  ⟨fun h => ⟨h.name, h.uniqueId, h.age⟩, fun h => ⟨h.1, h.2.1, h.2.2⟩⟩

/-- A kept member is taken in exactly when it may stand behind those before it. -/
theorem keptMember_eq_ok_iff {entries : List (String × Value)} {found next : PartialIdentity}
    (h : Kept entries found) {member : String × Value} :
    keptMember found member input = .ok (next, rest) ↔
      Kept (member :: entries) next ∧ rest = input := by
  obtain ⟨hname, hid, hage⟩ := h
  unfold keptMember
  split
  next v =>
    simp only [bind_eq_ok_iff, once_iff_slotOf hname textIn_eq_ok_iff, pure_eq_ok_iff, kept_iff,
      slotOf_cons_of_ne (show "name" ≠ "guid" by decide), hid,
      slotOf_cons_of_ne (show "name" ≠ "age" by decide), hage, Option.some.injEq]
    cases next
    grind
  next v =>
    simp only [bind_eq_ok_iff, once_iff_slotOf hid uniqueIdOf_textIn_eq_ok_iff, pure_eq_ok_iff,
      kept_iff, slotOf_cons_of_ne (show "guid" ≠ "name" by decide), hname,
      slotOf_cons_of_ne (show "guid" ≠ "age" by decide), hage, Option.some.injEq]
    cases next
    grind
  next v =>
    simp only [bind_eq_ok_iff, once_iff_slotOf hage fit_ageOf_eq_ok_iff, pure_eq_ok_iff, kept_iff,
      slotOf_cons_of_ne (show "age" ≠ "name" by decide), hname,
      slotOf_cons_of_ne (show "age" ≠ "guid" by decide), hid, Option.some.injEq]
    cases next
    grind
  next hnameNe hidNe hageNe =>
    obtain ⟨other, v⟩ := member
    have hother : ∀ name, (∀ v', (other, v) = (name, v') → False) → other ≠ name :=
      fun name h heq => h v (by rw [heq])
    simp only [pure_eq_ok_iff, kept_iff, slotOf_cons_of_ne (hother _ hnameNe), hname,
      slotOf_cons_of_ne (hother _ hidNe), hid, slotOf_cons_of_ne (hother _ hageNe), hage,
      Option.some.injEq]
    cases next
    cases found
    grind

/-- The kept members are taken in, in the order in which they stood, as what they make known. -/
theorem foldlM_keptMember_eq_ok_iff {entries : List (String × Value)} {found : PartialIdentity} :
    entries.reverse.foldlM keptMember PartialIdentity.none input = .ok (found, rest) ↔
      Kept entries found ∧ rest = input := by
  induction entries generalizing found rest with
  | nil =>
    refine pure_eq_ok_iff.trans ?_
    have hnone : ∀ {β : Type} (name : String) (decode : Value → Option β),
        slotOf name decode [] = some none := fun _ _ => rfl
    simp only [kept_iff, hnone, Option.some.injEq, PartialIdentity.none]
    cases found
    grind
  | cons member entries ih =>
    rw [List.reverse_cons, List.foldlM_append]
    simp only [bind_eq_ok_iff, ih, List.foldlM_cons, List.foldlM_nil, pure_eq_ok_iff]
    constructor
    · rintro ⟨s, _, ⟨hs, rfl⟩, _, _, hrun, rfl, rfl⟩
      exact (keptMember_eq_ok_iff hs).1 hrun
    · rintro ⟨hkept, rfl⟩
      obtain ⟨name, hname⟩ := exists_slotOf_of_cons hkept.name
      obtain ⟨uniqueId, hid⟩ := exists_slotOf_of_cons hkept.uniqueId
      obtain ⟨age, hage⟩ := exists_slotOf_of_cons hkept.age
      have hs : Kept entries ⟨name, uniqueId, age⟩ := ⟨hname, hid, hage⟩
      exact ⟨_, _, ⟨hs, rfl⟩, found, _, (keptMember_eq_ok_iff hs).2 ⟨hkept, rfl⟩, rfl, rfl⟩

/-! ## Requests -/

/-- The members of an object spell a request: each of the four members stands once, and says its
part. -/
structure Spells (decode : Value → Option α) (entries : List (String × Value)) (r : Request α) :
    Prop where
  name : ∃ v, valuesOf "name" entries = [v] ∧ textIn? v = some r.identity.name
  uniqueId : ∃ v, valuesOf "guid" entries = [v] ∧ uniqueIdIn? v = some r.identity.uniqueId
  age : ∃ v, valuesOf "age" entries = [v] ∧ ageIn? v = some r.identity.age
  query : ∃ v, valuesOf "query" entries = [v] ∧ decode v = some r.query

section Requests

variable {decode : Value → Option α} {entries : List (String × Value)}
  {found next : PartialRequest α}

theorem valuesOf_reverse (name : String) (entries : List (String × Value)) :
    valuesOf name entries.reverse = (valuesOf name entries).reverse := by
  simp [valuesOf, List.filter_reverse, List.map_reverse]

/-- The query is not among the values of the other members. -/
theorem slotOf_filter {name : String} (h : name ≠ "query") {decode : Value → Option β} :
    slotOf name decode (entries.filter (·.1 ≠ "query")) = slotOf name decode entries := by
  have hvalues : valuesOf name (entries.filter (·.1 ≠ "query")) = valuesOf name entries := by
    unfold valuesOf
    rw [List.filter_filter]
    congr 2
    funext entry
    grind
  unfold slotOf
  rw [hvalues]

theorem spells_reverse_iff {r : Request α} :
    Spells decode entries.reverse r ↔ slotOf "query" decode entries = some (some r.query) ∧
      Kept (entries.filter (·.1 ≠ "query"))
        ⟨some r.identity.name, some r.identity.uniqueId, some r.identity.age⟩ := by
  have hslot : ∀ {β : Type} {name : String} {decode : Value → Option β} {a : β},
      (∃ v, valuesOf name entries.reverse = [v] ∧ decode v = some a) ↔
        slotOf name decode entries = some (some a) := by
    intro β name decode a
    simp only [slotOf_eq_some_some_iff, valuesOf_reverse, List.reverse_eq_iff,
      List.reverse_singleton]
  rw [kept_iff, slotOf_filter (by decide), slotOf_filter (by decide), slotOf_filter (by decide)]
  constructor
  · rintro ⟨hname, hid, hage, hquery⟩
    exact ⟨hslot.1 hquery, hslot.1 hname, hslot.1 hid, hslot.1 hage⟩
  · rintro ⟨hquery, hname, hid, hage⟩
    exact ⟨hslot.2 hname, hslot.2 hid, hslot.2 hage, hslot.2 hquery⟩

/-- What is known of a request behind these members. -/
structure Collected (decode : Value → Option α) (entries : List (String × Value))
    (found : PartialRequest α) : Prop where
  query : slotOf "query" decode entries = some found.query
  others : found.others = entries.filter (·.1 ≠ "query")

/-- A member of a request is read exactly when it may stand behind those before it. -/
theorem requestMember_eq_ok_iff {reader : Nat → Reader α}
    (hquery : Decodes reader innerDepth decode) (h : Collected decode entries found)
    {name : String} :
    requestMember (reader budget) budget found name input = .ok (next, rest) ↔
      ∃ v, colon (value budget innerDepth) input = .ok (v, rest) ∧
        Collected decode ((name, v) :: entries) next := by
  obtain ⟨hslot, hothers⟩ := h
  unfold requestMember
  split
  next =>
    simp only [bind_eq_ok_iff, once_eq_ok_iff, pure_eq_ok_iff, hquery.colon]
    constructor
    · rintro ⟨_, _, ⟨hnone, q, ⟨v, hvalue, hdecode⟩, rfl⟩, rfl, rfl⟩
      refine ⟨v, hvalue, slotOf_cons_self.2 ⟨hnone ▸ hslot, q, hdecode, rfl⟩, ?_⟩
      rw [hothers, List.filter_cons_of_neg (by simp)]
    · rintro ⟨v, hvalue, hnext, hrest⟩
      obtain ⟨hnone, q, hdecode, hsome⟩ := slotOf_cons_self.1 hnext
      rw [List.filter_cons_of_neg (by simp), ← hothers] at hrest
      refine ⟨some q, rest, ⟨Option.some.inj (hslot.symm.trans hnone), q, ⟨v, hvalue, hdecode⟩,
        rfl⟩, ?_, rfl⟩
      rw [← hsome, ← hrest]
  next hne =>
    unfold collectMember
    simp only [bind_eq_ok_iff, pure_eq_ok_iff]
    constructor
    · rintro ⟨_, _, ⟨v, _, hvalue, rfl, rfl⟩, rfl, rfl⟩
      refine ⟨v, hvalue, (slotOf_cons_of_ne hne).trans hslot, ?_⟩
      rw [hothers, List.filter_cons_of_pos (by simpa using hne)]
    · rintro ⟨v, hvalue, hnext, hrest⟩
      rw [slotOf_cons_of_ne hne, hslot] at hnext
      rw [List.filter_cons_of_pos (by simpa using hne), ← hothers] at hrest
      refine ⟨_, _, ⟨v, _, hvalue, rfl, rfl⟩, ?_, rfl⟩
      rw [← hrest, Option.some.inj hnext]

theorem request_eq_ok_iff {reader : Nat → Reader α} (hquery : Decodes reader innerDepth decode)
    {expected : String} {r : Request α} :
    request expected reader budget input = .ok (r, rest) ↔
      ∃ entries, value budget (innerDepth + 1) input = .ok (.object entries, rest) ∧
        Spells decode entries r := by
  have hmembers : ∀ {more rest : List Char} {found : PartialRequest α},
      members (requestMember (reader budget) budget) budget ⟨none, []⟩ more = .ok (found, rest) ↔
        ∃ entries, members (collectMember (value budget innerDepth)) budget [] more
          = .ok (entries, rest) ∧ Collected decode entries found := by
    intro more rest found
    refine members_tells (Collected decode) ?_ ?_ ?_
    · exact fun entries found name input next mid h => requestMember_eq_ok_iff hquery h
    · rintro entry entries found ⟨hslot, -⟩
      obtain ⟨slot, hslot⟩ := exists_slotOf_of_cons hslot
      exact ⟨⟨slot, _⟩, hslot, rfl⟩
    · rintro ⟨query, others⟩
      constructor
      · rintro ⟨hslot, rfl⟩
        cases hslot
        rfl
      · rintro ⟨⟩
        exact ⟨rfl, rfl⟩
  refine (marked_eq_ok_iff rfl).trans ?_
  simp only [bind_eq_ok_iff, hmembers, required_eq_ok_iff, foldlM_keptMember_eq_ok_iff,
    close_eq_ok_iff, pure_eq_ok_iff]
  constructor
  · rintro ⟨spacing, more, rfl, hspacing, found, _, ⟨entries, hrun, hslot, hothers⟩, query, _,
      ⟨hquery, rfl⟩, known, _, ⟨hkept, rfl⟩, id, _, ⟨rfl, rfl⟩, rfl, rfl⟩
    refine ⟨entries.reverse, value_object hspacing hrun, spells_reverse_iff.2 ⟨?_, ?_⟩⟩
    · rw [hslot, hquery]
    · exact hothers ▸ hkept
  · rintro ⟨entries, hvalue, hspells⟩
    obtain ⟨spacing, more, rfl, hspacing, hrun⟩ := value_object_iff.1 hvalue
    rw [← List.reverse_reverse entries, spells_reverse_iff] at hspells
    exact ⟨spacing, more, rfl, hspacing, ⟨_, _⟩, _, ⟨_, hrun, hspells.1, rfl⟩, r.query, _,
      ⟨rfl, rfl⟩, _, _, ⟨hspells.2, rfl⟩, r.identity, _, ⟨rfl, rfl⟩, rfl, rfl⟩

end Requests

end Wire

end OffsetService
