import OffsetService.Proofs.Json.Steady

/-!
# Objects, as they are written

A text is read as an object exactly when it is written as one (`whole_object_iff`): braces, and
between them members with commas, with white space around. A member is a name, a colon and a value,
and its name and its value are texts that are read by themselves (`WrittenMember`), so members can be
moved from one object to another as they stand (`WrittenObject`).

Both directions follow the turns of the loop that reads members: written members are read one after
the other (`runsParts_written`), and what a turn takes off the front is a written member
(`exists_written_of_partsFrom`).
-/

namespace OffsetService.Json.Reader

variable {α σ μ : Type} {input rest : List Char} {budget depth : Nat}

/-! ## How values begin -/

/-- A value that is written as one token, other than a text. -/
def IsWord (v : Value) : Prop :=
  (∀ s, v ≠ .text s) ∧ (∀ items, v ≠ .sequence items) ∧ ∀ entries, v ≠ .object entries

/-- How a value goes on behind the character that it begins with. -/
inductive GoesOn (budget : Nat) : (depth : Nat) → Char → List Char → Value → List Char → Prop where
  | text {depth : Nat} {s : String} {more rest : List Char}
    (h : textBody true more = .ok (s, rest)) : GoesOn budget depth '"' more (.text s) rest
  | sequence {depth : Nat} {found : List Value} {more rest : List Char}
    (h : items (value budget depth) budget more = .ok (found, rest)) :
    GoesOn budget (depth + 1) '[' more (.sequence found) rest
  | object {depth : Nat} {found : List (String × Value)} {more rest : List Char}
    (h : members (collectMember (value budget depth)) budget [] more = .ok (found, rest)) :
    GoesOn budget (depth + 1) '{' more (.object found.reverse) rest
  | word {depth : Nat} {c : Char} {v : Value} {more rest : List Char} (h : IsWord v) :
    GoesOn budget depth c more v rest

theorem goesOn_of_scalar {c : Char} {v : Value} (h : scalar c (c :: input) = .ok (v, rest)) :
    GoesOn budget depth c input v rest := by
  have hword : ∀ {α : Type} {x : Reader α} {f : α → Value} {input : List Char},
      (x >>= fun a => pure (f a)) input = .ok (v, rest) → (∀ a, IsWord (f a)) → IsWord v := by
    intro α x f input h hf
    obtain ⟨a, _, -, hpure⟩ := bind_eq_ok_iff.1 h
    obtain ⟨rfl, -⟩ := pure_eq_ok_iff.1 hpure
    exact hf a
  unfold scalar scalar? at h
  split at h
  next =>
    simp only [bind_assoc, pure_bind] at h
    exact .word (hword h fun _ => by simp [IsWord])
  next =>
    simp only [bind_assoc, pure_bind] at h
    exact .word (hword h fun _ => by simp [IsWord])
  next =>
    simp only [bind_assoc, pure_bind] at h
    exact .word (hword h fun _ => by simp [IsWord])
  next =>
    simp only [bind_assoc, pure_bind] at h
    have hbind : (textBody true >>= fun s => pure (Value.text s)) input = .ok (v, rest) := h
    obtain ⟨s, _, hbody, hpure⟩ := bind_eq_ok_iff.1 hbind
    obtain ⟨rfl, rfl⟩ := pure_eq_ok_iff.1 hpure
    exact .text hbody
  next =>
    split at h
    · simp only [bind_assoc, pure_bind] at h
      exact .word (hword h fun _ => by simp [IsWord])
    · cases h

/-- A value stands behind white space and goes on as its first character says. -/
theorem goesOn_of_value {v : Value} (h : value budget depth input = .ok (v, rest)) :
    ∃ spacing c more, input = spacing ++ c :: more ∧ Spacing spacing ∧
      GoesOn budget depth c more v rest := by
  obtain ⟨spacing, behind, rfl, hspacing, hbehind⟩ := exists_spacing input
  cases depth with
  | zero =>
    unfold value at h
    rw [bind_eq (peek?_spacing hspacing hbehind)] at h
    cases behind with
    | nil => cases h
    | cons c more => exact ⟨spacing, c, more, rfl, hspacing, goesOn_of_scalar h⟩
  | succ depth =>
    unfold value at h
    rw [bind_eq (peek?_spacing hspacing hbehind)] at h
    generalize hmark : behind.head? = mark at h
    split at h
    next => cases h
    next =>
      obtain ⟨more, rfl⟩ := List.head?_eq_some_iff.1 hmark
      have hbind : (items (value budget depth) budget >>= fun found =>
        pure (Value.sequence found)) more = .ok (v, rest) := h
      obtain ⟨found, _, hitems, hpure⟩ := bind_eq_ok_iff.1 hbind
      obtain ⟨rfl, rfl⟩ := pure_eq_ok_iff.1 hpure
      exact ⟨spacing, '[', more, rfl, hspacing, .sequence hitems⟩
    next =>
      obtain ⟨more, rfl⟩ := List.head?_eq_some_iff.1 hmark
      have hbind : (members (collectMember (value budget depth)) budget [] >>= fun found =>
        pure (Value.object found.reverse)) more = .ok (v, rest) := h
      obtain ⟨found, _, hmembers, hpure⟩ := bind_eq_ok_iff.1 hbind
      obtain ⟨rfl, rfl⟩ := pure_eq_ok_iff.1 hpure
      exact ⟨spacing, '{', more, rfl, hspacing, .object hmembers⟩
    next c _ _ =>
      obtain ⟨more, rfl⟩ := List.head?_eq_some_iff.1 hmark
      exact ⟨spacing, c, more, rfl, hspacing, goesOn_of_scalar h⟩

section

variable {spacing more : List Char} (hspacing : Spacing spacing)
include hspacing

theorem value_text {s : String} (h : textBody true more = .ok (s, rest)) :
    value budget depth (spacing ++ '"' :: more) = .ok (.text s, rest) := by
  have hscalar : scalar '"' ('"' :: more) = .ok (.text s, rest) := by
    refine scalar_of_scalar? ?_
    show (textBody true >>= fun s => pure (some (Value.text s))) more = _
    rw [bind_eq h]
    rfl
  cases depth <;> unfold value <;>
    rw [bind_eq (peek?_spacing hspacing fun c hc => by cases hc; rfl)] <;> exact hscalar

theorem value_sequence {found : List Value}
    (h : items (value budget depth) budget more = .ok (found, rest)) :
    value budget (depth + 1) (spacing ++ '[' :: more) = .ok (.sequence found, rest) := by
  unfold value
  rw [bind_eq (peek?_spacing hspacing fun c hc => by cases hc; rfl)]
  show (items (value budget depth) budget >>= fun found => pure (Value.sequence found)) more = _
  exact bind_eq h

theorem value_object {found : List (String × Value)}
    (h : members (collectMember (value budget depth)) budget [] more = .ok (found, rest)) :
    value budget (depth + 1) (spacing ++ '{' :: more) = .ok (.object found.reverse, rest) := by
  unfold value
  rw [bind_eq (peek?_spacing hspacing fun c hc => by cases hc; rfl)]
  show (members (collectMember (value budget depth)) budget [] >>= fun found =>
    pure (Value.object found.reverse)) more = _
  exact bind_eq h

end

theorem value_text_iff {s : String} :
    value budget depth input = .ok (.text s, rest) ↔ ∃ spacing more,
      input = spacing ++ '"' :: more ∧ Spacing spacing ∧ textBody true more = .ok (s, rest) := by
  constructor
  · intro h
    obtain ⟨spacing, c, more, rfl, hspacing, hvalue⟩ := goesOn_of_value h
    cases hvalue with
    | text hbody => exact ⟨spacing, more, rfl, hspacing, hbody⟩
    | word hword => exact absurd rfl (hword.1 s)
  · rintro ⟨spacing, more, rfl, hspacing, hbody⟩
    exact value_text hspacing hbody

theorem value_sequence_iff {found : List Value} :
    value budget (depth + 1) input = .ok (.sequence found, rest) ↔ ∃ spacing more,
      input = spacing ++ '[' :: more ∧ Spacing spacing ∧
        items (value budget depth) budget more = .ok (found, rest) := by
  constructor
  · intro h
    obtain ⟨spacing, c, more, rfl, hspacing, hvalue⟩ := goesOn_of_value h
    cases hvalue with
    | sequence hitems => exact ⟨spacing, more, rfl, hspacing, hitems⟩
    | word hword => exact absurd rfl (hword.2.1 found)
  · rintro ⟨spacing, more, rfl, hspacing, hitems⟩
    exact value_sequence hspacing hitems

theorem value_object_iff {entries : List (String × Value)} :
    value budget (depth + 1) input = .ok (.object entries, rest) ↔ ∃ spacing more,
      input = spacing ++ '{' :: more ∧ Spacing spacing ∧
        members (collectMember (value budget depth)) budget [] more
          = .ok (entries.reverse, rest) := by
  constructor
  · intro h
    obtain ⟨spacing, c, more, rfl, hspacing, hvalue⟩ := goesOn_of_value h
    cases hvalue with
    | object hmembers =>
      rw [List.reverse_reverse]
      exact ⟨spacing, more, rfl, hspacing, hmembers⟩
    | word hword => exact absurd rfl (hword.2.2 entries)
  · rintro ⟨spacing, more, rfl, hspacing, hmembers⟩
    simpa using value_object hspacing hmembers

/-! ## Written members -/

/-- A member of an object as it is written: its name and its value, each a text that is read by
itself. The value may be nested as deep as given. -/
structure WrittenMember (depth : Nat) where
  /-- What stands before the colon. -/
  key : List Char
  /-- What stands behind the colon. -/
  value : List Char
  name : String
  content : Value
  named : whole (fun _ => memberName) key false = .ok name
  valued : whole (fun budget => Reader.value budget depth) value false = .ok content

namespace WrittenMember

/-- The name, a colon and the value. -/
def text (m : WrittenMember depth) : List Char :=
  m.key ++ ':' :: m.value

/-- What the member says. -/
def entry (m : WrittenMember depth) : String × Value :=
  (m.name, m.content)

/-- A written member is read with its value, whatever members were found before. -/
theorem run (m : WrittenMember depth) (hbudget : m.text.length ≤ budget) (hrest : Delimits rest)
    (found : List (String × Value)) :
    ∃ spacing, Spacing spacing ∧
      (memberName >>= collectMember (Reader.value budget depth) found) (m.text ++ rest)
        = .ok (m.entry :: found, spacing ++ rest) := by
  obtain ⟨key, spacing, hkey, hspacing, htakesKey⟩ :=
    (whole_eq_ok_iff steady_memberName.ends).1 m.named
  obtain ⟨shown, spacing', hvalue, hspacing', htakesValue⟩ :=
    (whole_eq_ok_iff (steady_value depth)).1 m.valued
  have hcolon : ∀ rest, Ends (':' :: rest) := by
    intro rest c hc
    cases hc
    decide
  have htext : m.text ++ rest = key ++ (spacing ++ ':' :: (shown ++ (spacing' ++ rest))) := by
    rw [text, hkey, hvalue]
    simp
  have hlength : shown.length ≤ budget := by
    rw [text, hvalue] at hbudget
    simp only [List.length_append, List.length_cons] at hbudget
    omega
  have hname := htakesKey key.length (Nat.le_refl _) _
    (ends_spacing hspacing (hcolon (shown ++ (spacing' ++ rest))))
  have htoken : token ':' (spacing ++ ':' :: (shown ++ (spacing' ++ rest)))
      = .ok ((), shown ++ (spacing' ++ rest)) := (token_eq_ok_iff rfl).2 ⟨spacing, rfl, hspacing⟩
  have hcontent := htakesValue budget hlength _ (ends_spacing hspacing' hrest.ends)
  have hmember : colon (Reader.value budget depth) (spacing ++ ':' :: (shown ++ (spacing' ++ rest)))
      = .ok (m.content, spacing' ++ rest) := (bind_eq htoken).trans hcontent
  refine ⟨spacing', hspacing', ?_⟩
  rw [htext, bind_eq hname]
  exact bind_eq hmember

/-- Whatever is read as a member is a written one. -/
theorem exists_of_run {found next : List (String × Value)} {spacing : List Char}
    (hspacing : Spacing spacing)
    (h : (memberName >>= collectMember (Reader.value budget depth) found) input
      = .ok (next, spacing ++ rest)) :
    ∃ m : WrittenMember depth, input = m.text ++ rest ∧ next = m.entry :: found := by
  obtain ⟨name, mid, hname, h⟩ := bind_eq_ok_iff.1 h
  obtain ⟨content, _, hcolon, hpure⟩ := bind_eq_ok_iff.1 h
  obtain ⟨rfl, rfl⟩ := pure_eq_ok_iff.1 hpure
  obtain ⟨_, behind, htoken, hvalue⟩ := bind_eq_ok_iff.1 hcolon
  have hsteady : Steady Ends fun _ => memberName := steady_memberName.ends
  obtain ⟨key, rfl, htakesKey⟩ := @hsteady 0 _ _ _ hname
  obtain ⟨spacing', rfl, hspacing'⟩ := (token_eq_ok_iff rfl).1 htoken
  obtain ⟨shown, rfl, htakesValue⟩ := steady_value depth hvalue
  refine ⟨⟨key ++ spacing', shown ++ spacing, name, content,
    (whole_eq_ok_iff hsteady).2 ⟨key, spacing', rfl, hspacing', htakesKey⟩,
    (whole_eq_ok_iff (steady_value depth)).2 ⟨shown, spacing, rfl, hspacing, htakesValue⟩⟩, ?_, rfl⟩
  simp [text]

end WrittenMember

/-! ## Written objects -/

/-- The name of a member is a text behind white space. -/
theorem memberName_begins {name : String} (h : memberName input = .ok (name, rest)) :
    ∃ spacing more, input = spacing ++ '"' :: more ∧ Spacing spacing := by
  obtain ⟨spacing, behind, rfl, hspacing, hbehind⟩ := exists_spacing input
  unfold memberName at h
  rw [bind_eq (peek?_spacing hspacing hbehind)] at h
  split at h
  next hmark =>
    obtain ⟨more, rfl⟩ := List.head?_eq_some_iff.1 hmark
    exact ⟨spacing, more, rfl, hspacing⟩
  next => cases h

theorem memberName_spacing {spacing : List Char} (hspacing : Spacing spacing) (more : List Char) :
    memberName (spacing ++ '"' :: more) = memberName ('"' :: more) := by
  unfold memberName
  rw [bind_eq (peek?_spacing hspacing fun c hc => by cases hc; rfl), bind_eq (peek?_cons rfl more)]
  rfl

/-- White space before the first member is not looked at. -/
theorem membersFrom_spacing {step : σ → String → Reader σ} {s : σ} {spacing : List Char}
    (hspacing : Spacing spacing) (more : List Char) :
    membersFrom step budget s (spacing ++ '"' :: more)
      = membersFrom step budget s ('"' :: more) := by
  cases budget with
  | zero => rfl
  | succ budget =>
    unfold membersFrom
    show (memberName (spacing ++ '"' :: more) >>= fun _ => _) = _
    rw [memberName_spacing hspacing]
    rfl

/-- Written members are read one after the other. -/
theorem runsParts_written {ms : List (WrittenMember depth)}
    (hbudget : (commas (ms.map WrittenMember.text)).length ≤ budget)
    (found : List (String × Value)) :
    RunsParts (fun found => memberName >>= collectMember (value budget depth) found) found
      (ms.map WrittenMember.text) ((ms.map WrittenMember.entry).reverse ++ found) := by
  have hfits : ∀ m ∈ ms, m.text.length ≤ budget := fun m hm =>
    Nat.le_trans (length_le_of_mem (List.mem_map_of_mem hm)) hbudget
  clear hbudget
  induction ms generalizing found with
  | nil => exact .nil found
  | cons m ms ih =>
    obtain ⟨hm, hms⟩ := List.forall_mem_cons.1 hfits
    rw [List.map_cons, List.map_cons, List.reverse_cons, List.append_assoc]
    exact .cons (fun rest hrest => m.run hm hrest found) (ih (m.entry :: found) hms)

/-- Whatever is read up to the closing brace is written members with commas between them. -/
theorem exists_written_of_partsFrom {turns : Nat} {found last : List (String × Value)}
    (h : partsFrom '}' (fun found => memberName >>= collectMember (value budget depth) found) turns
      found input = .ok (last, rest)) :
    ∃ ms : List (WrittenMember depth), ms ≠ [] ∧
      input = commas (ms.map WrittenMember.text) ++ '}' :: rest ∧
      last = (ms.map WrittenMember.entry).reverse ++ found := by
  induction turns generalizing found input with
  | zero => cases h
  | succ turns ih =>
    obtain ⟨_, spacing, mark, more, hrun, hspacing, hmark⟩ :=
      (partsFrom_succ_eq_ok_iff (by decide)).1 h
    obtain ⟨m, rfl, rfl⟩ := WrittenMember.exists_of_run hspacing hrun
    rcases hmark with ⟨rfl, hmore⟩ | ⟨rfl, rfl, rfl⟩
    · obtain ⟨ms, hne, rfl, rfl⟩ := ih hmore
      obtain ⟨next, ms, rfl⟩ := List.exists_cons_of_ne_nil hne
      refine ⟨m :: next :: ms, by simp, ?_, by simp⟩
      simp [commas_cons_cons]
    · exact ⟨[m], by simp, by simp [commas_singleton], rfl⟩

/-- An object as it is written: its members with commas between them, the braces, and white space
before, behind and inside them. -/
structure WrittenObject (depth : Nat) where
  before : List Char
  inside : List Char
  members : List (WrittenMember depth)
  behind : List Char
  spaced : Spacing before ∧ Spacing inside ∧ Spacing behind

namespace WrittenObject

def text (o : WrittenObject depth) : List Char :=
  o.before ++ '{' :: (o.inside ++ (commas (o.members.map WrittenMember.text) ++ '}' :: o.behind))

/-- What the members say, in the order in which they are written. -/
def entries (o : WrittenObject depth) : List (String × Value) :=
  o.members.map WrittenMember.entry

end WrittenObject

/-- The members of a written object are read. -/
theorem members_written {inside : List Char} (hinside : Spacing inside)
    (ms : List (WrittenMember depth))
    (hbudget : (commas (ms.map WrittenMember.text)).length < budget) (rest : List Char) :
    members (collectMember (value budget depth)) budget []
        (inside ++ (commas (ms.map WrittenMember.text) ++ '}' :: rest))
      = .ok ((ms.map WrittenMember.entry).reverse, rest) := by
  rw [members_eq_ok_iff]
  cases ms with
  | nil => exact .inl ⟨inside, rfl, hinside, rfl⟩
  | cons m ms =>
    have hparts : ∀ part ∈ (m :: ms).map WrittenMember.text, part ≠ [] := by
      simp [WrittenMember.text]
    have hturns : ((m :: ms).map WrittenMember.text).length ≤ budget := by
      have hcount := length_le_length_commas hparts
      omega
    have hrun := partsFrom_commas (.inr rfl) (runsParts_written (Nat.le_of_lt hbudget) [])
      (by simp) hturns rest
    obtain ⟨turns, rfl⟩ : ∃ n, budget = n + 1 := ⟨budget - 1, by omega⟩
    obtain ⟨_, _, _, _, hpart, -⟩ := (partsFrom_succ_eq_ok_iff (by decide)).1 hrun
    obtain ⟨_, _, hname, -⟩ := bind_eq_ok_iff.1 hpart
    obtain ⟨spacing, more, htext, hspacing⟩ := memberName_begins hname
    rw [← membersFrom_eq_partsFrom, htext, membersFrom_spacing hspacing, List.append_nil] at hrun
    refine .inr ⟨inside ++ spacing, '"' :: more, by rw [htext, List.append_assoc], ?_, ?_, hrun⟩
    · exact List.forall_mem_append.2 ⟨hinside, hspacing⟩
    · intro c hc
      cases hc
      decide

/-- A text reads as an object exactly when it is written as one. -/
theorem whole_object_iff {entries : List (String × Value)} :
    whole (fun budget => value budget (depth + 1)) input false = .ok (.object entries) ↔
      ∃ o : WrittenObject depth, o.text = input ∧ o.entries = entries := by
  rw [whole_eq_ok_iff_run]
  constructor
  · rintro ⟨behind, hbehind, hrun⟩
    obtain ⟨before, more, rfl, hbefore, hmembers⟩ := value_object_iff.1 hrun
    rcases members_eq_ok_iff.1 hmembers with
      ⟨inside, rfl, hinside, hentries⟩ | ⟨inside, more, rfl, hinside, -, hmembers⟩
    · rw [List.reverse_eq_nil_iff] at hentries
      subst hentries
      exact ⟨⟨before, inside, [], behind, hbefore, hinside, hbehind⟩, rfl, rfl⟩
    · rw [membersFrom_eq_partsFrom] at hmembers
      obtain ⟨ms, -, rfl, hentries⟩ := exists_written_of_partsFrom hmembers
      rw [List.append_nil, List.reverse_inj] at hentries
      exact ⟨⟨before, inside, ms, behind, hbefore, hinside, hbehind⟩, rfl, hentries.symm⟩
  · rintro ⟨⟨before, inside, ms, behind, hbefore, hinside, hbehind⟩, rfl, rfl⟩
    refine ⟨behind, hbehind, value_object_iff.2 ⟨before, _, rfl, hbefore, ?_⟩⟩
    refine members_written hinside ms ?_ behind
    simp only [WrittenObject.text, List.length_append, List.length_cons]
    omega

end OffsetService.Json.Reader
