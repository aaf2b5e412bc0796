import OffsetService.Remote

/-!
# Copying a body, read by read

A body is copied by two readers over one connection: the first collects a head of four bytes, the
second copies what is left. `Phase.step` is one read of either, into a buffer with room for so many
bytes, so a chunk can arrive in several reads, and the head can end in the middle of a chunk.

What a copy comes to depends on the bytes and on how they end, and not on the chunks (`copyBody_eq`)
or on the buffers (`run_eq_done`): no read loses a byte, repeats one or counts it twice (`Keeps`).
-/

namespace OffsetService.Remote

/-- What is written of a body, and the outcome, by its bytes and by what broke it off. -/
def copied (bytes : Bytes) (broken : Option String) : Bytes × Except BodyFault Nat :=
  if cabinetMark <+: bytes then ([], .error .cabinet)
  else
    match broken with
    | none => (bytes, .ok bytes.length)
    | some detail =>
      (if bytes.length < cabinetMark.length then [] else bytes, .error (.broken detail))

variable {bytes : Bytes} {broken : Option String}

theorem copied_of_mark (h : cabinetMark <+: bytes) (broken : Option String) :
    copied bytes broken = ([], .error .cabinet) :=
  if_pos h

theorem copied_none (h : ¬cabinetMark <+: bytes) : copied bytes none = (bytes, .ok bytes.length) :=
  if_neg h

theorem copied_of_short (h : bytes.length < cabinetMark.length) (detail : String) :
    copied bytes (some detail) = ([], .error (.broken detail)) := by
  have hmark : ¬cabinetMark <+: bytes := fun hmark => Nat.not_le.2 h hmark.length_le
  simp only [copied, if_neg hmark, if_pos h]

theorem copied_of_long (hmark : ¬cabinetMark <+: bytes)
    (h : cabinetMark.length ≤ bytes.length) (detail : String) :
    copied bytes (some detail) = (bytes, .error (.broken detail)) := by
  simp only [copied, if_neg hmark, if_neg (Nat.not_lt.2 h)]

/-- Only a body that is whole and is no cabinet is copied to its end, and then all of it. -/
theorem of_copied_eq_ok {written : Bytes} {size : Nat}
    (h : copied bytes broken = (written, .ok size)) :
    broken = none ∧ written = bytes ∧ size = bytes.length ∧ ¬cabinetMark <+: bytes := by
  by_cases hmark : cabinetMark <+: bytes
  · rw [copied_of_mark hmark] at h
    cases h
  · cases broken with
    | none =>
      rw [copied_none hmark] at h
      cases h
      exact ⟨rfl, rfl, rfl, hmark⟩
    | some detail =>
      rw [copied, if_neg hmark] at h
      cases h

/-! ## All chunks at once -/

theorem splitHead_fst (n : Nat) (chunks : List Bytes) :
    (splitHead n chunks).1 = chunks.flatten.take n := by
  induction chunks generalizing n with
  | nil => cases n <;> rfl
  | cons chunk chunks ih =>
    cases n with
    | zero => rfl
    | succ n =>
      rw [splitHead, List.flatten_cons, List.take_append]
      split
      next hlt =>
        dsimp only
        rw [ih, List.take_of_length_le (Nat.le_of_lt hlt)]
      next hle =>
        rw [Nat.sub_eq_zero_of_le (Nat.not_lt.1 hle), List.take_zero, List.append_nil]

theorem splitHead_snd (n : Nat) (chunks : List Bytes) :
    (splitHead n chunks).2.flatten = chunks.flatten.drop n := by
  induction chunks generalizing n with
  | nil => cases n <;> rfl
  | cons chunk chunks ih =>
    cases n with
    | zero => rfl
    | succ n =>
      rw [splitHead, List.flatten_cons, List.drop_append]
      split
      next hlt =>
        dsimp only
        rw [ih, List.drop_of_length_le (Nat.le_of_lt hlt), List.nil_append]
      next hle =>
        rw [List.flatten_cons, Nat.sub_eq_zero_of_le (Nat.not_lt.1 hle), List.drop_zero]

/-- How a body is divided into chunks does not matter. -/
theorem copyBody_eq (body : ArrivingBody) : copyBody body = copied body.bytes body.broken := by
  have hfst : (splitHead cabinetMark.length body.chunks).1 = body.bytes.take cabinetMark.length :=
    splitHead_fst _ _
  have hsnd : (splitHead cabinetMark.length body.chunks).2.flatten
      = body.bytes.drop cabinetMark.length := splitHead_snd _ _
  unfold copyBody
  dsimp only
  rw [hfst, hsnd, List.take_append_drop, List.length_take]
  by_cases hmark : cabinetMark <+: body.bytes
  · have hlong := hmark.length_le
    have hhead := List.prefix_iff_eq_take.1 hmark
    rw [copied_of_mark hmark, ← hhead]
    cases body.broken with
    | none => rfl
    | some detail =>
      dsimp only
      rw [if_neg (Nat.not_lt.2 (Nat.le_min.2 ⟨Nat.le_refl _, hlong⟩)), if_pos rfl]
  · have hhead : body.bytes.take cabinetMark.length ≠ cabinetMark := fun heq =>
      hmark (List.prefix_iff_eq_take.2 heq.symm)
    simp only [if_neg hhead]
    cases body.broken with
    | none => rw [copied_none hmark]
    | some detail =>
      by_cases hshort : body.bytes.length < cabinetMark.length
      · rw [copied_of_short hshort]
        exact if_pos (by omega)
      · rw [copied_of_long hmark (Nat.not_lt.1 hshort)]
        exact if_neg (by omega)

/-! ## Read by read -/

/-- A read into a buffer with so much room: the bytes that it brings, and the chunks behind. Nothing
is brought at the end of the chunks, and no read goes beyond a chunk. -/
def read (room : Nat) : List Bytes → Bytes × List Bytes
  | [] => ([], [])
  | chunk :: rest =>
    if chunk.length ≤ room then (chunk, rest) else (chunk.take room, chunk.drop room :: rest)

theorem read_append (room : Nat) (chunks : List Bytes) :
    (read room chunks).1 ++ (read room chunks).2.flatten = chunks.flatten := by
  cases chunks with
  | nil => rfl
  | cons chunk chunks =>
    rw [read, List.flatten_cons]
    split
    next => rfl
    next => rw [List.flatten_cons, ← List.append_assoc, List.take_append_drop]

theorem length_read_le (room : Nat) (chunks : List Bytes) : (read room chunks).1.length ≤ room := by
  cases chunks with
  | nil => exact Nat.zero_le room
  | cons chunk chunks =>
    rw [read]
    split
    next hle => exact hle
    next => exact List.length_take_le room chunk

/-- What is left of chunks with bytes in them is chunks with bytes in them. -/
theorem read_snd_ne_nil {room : Nat} {chunks : List Bytes} (full : ∀ chunk ∈ chunks, chunk ≠ []) :
    ∀ chunk ∈ (read room chunks).2, chunk ≠ [] := by
  cases chunks with
  | nil => exact full
  | cons first chunks =>
    rw [read]
    split
    next => exact fun chunk hmem => full chunk (List.mem_cons_of_mem _ hmem)
    next hmore =>
      intro chunk hmem
      rcases List.mem_cons.1 hmem with rfl | hmem
      · exact fun heq => hmore (List.drop_eq_nil_iff.1 heq)
      · exact full chunk (List.mem_cons_of_mem _ hmem)

/-- A read that brings nothing has come to the end. -/
theorem eq_nil_of_read_fst {room : Nat} {chunks : List Bytes} (hroom : 0 < room)
    (full : ∀ chunk ∈ chunks, chunk ≠ []) (h : (read room chunks).1 = []) : chunks = [] := by
  cases chunks with
  | nil => rfl
  | cons chunk chunks =>
    have hchunk := full chunk List.mem_cons_self
    rw [read] at h
    split at h
    next => exact absurd h hchunk
    next =>
      rcases List.take_eq_nil_iff.1 h with hnone | hnone
      · omega
      · exact absurd hnone hchunk

/-- How far a copy has come. -/
inductive Phase where
  /-- The head so far. Nothing is written. -/
  | heading (head : Bytes)
  /-- What is written, and the number of bytes that were counted. -/
  | streaming (written : Bytes) (count : Nat)
  | done (written : Bytes) (outcome : Except BodyFault Nat)

namespace Phase

/-- What is written at a phase. -/
def written : Phase → Bytes
  | .heading _ => []
  | .streaming written _ => written
  | .done written _ => written

/-- The phase behind the head. -/
def behind (head : Bytes) : Phase :=
  if head = cabinetMark then .done [] (.error .cabinet) else .streaming head head.length

/-- The phase behind the end of the chunks. -/
def ended (broken : Option String) : Phase → Phase
  | .heading head =>
    match broken with
    | none => behind head
    | some detail => .done [] (.error (.broken detail))
  | .streaming written count =>
    match broken with
    | none => .done written (.ok count)
    | some detail => .done written (.error (.broken detail))
  | .done written outcome => .done written outcome

/-- The phase after bytes were read. -/
def got (more : Bytes) : Phase → Phase
  | .heading head => .heading (head ++ more)
  | .streaming written count => .streaming (written ++ more) (count + more.length)
  | .done written outcome => .done written outcome

/-- A read at a phase. -/
def reading (broken : Option String) (room : Nat) (phase : Phase) (left : List Bytes) :
    Phase × List Bytes :=
  let (more, left) := read room left
  (if more = [] then phase.ended broken else phase.got more, left)

/-- One step, and what is left to be read. The reader of the head never asks for more than the head
still needs, and hands over to the other one when it needs nothing. -/
def step (broken : Option String) (room : Nat) : Phase → List Bytes → Phase × List Bytes
  | .heading head, left =>
    if head.length < cabinetMark.length then
      reading broken (min room (cabinetMark.length - head.length)) (.heading head) left
    else (behind head, left)
  | .streaming written count, left => reading broken room (.streaming written count) left
  | .done written outcome, left => (.done written outcome, left)

/-- Steps with buffers of these sizes, one after the other. -/
def run (broken : Option String) : List Nat → Phase → List Bytes → Phase × List Bytes
  | [], phase, left => (phase, left)
  | room :: rooms, phase, left =>
    let (phase, left) := phase.step broken room left
    phase.run broken rooms left

/-- The most steps that a copy still takes. -/
def ahead : Phase → (left : List Bytes) → Nat
  | .heading _, left => left.flatten.length + 2
  | .streaming _ _, left => left.flatten.length + 1
  | .done _ _, _ => 0

/-- What holds at a phase of copying a body: no byte is lost or repeated, none that was written is
left uncounted, nothing is written of a cabinet or of a body that breaks off inside its head, and
the outcome is the one that the bytes call for. -/
def Keeps (body : ArrivingBody) : Phase → (left : List Bytes) → Prop
  | .heading head, left => head ++ left.flatten = body.bytes ∧ head.length ≤ cabinetMark.length
  | .streaming written count, left => written ++ left.flatten = body.bytes ∧
    count = written.length ∧ ¬cabinetMark <+: body.bytes ∧
    ∀ detail, body.broken = some detail → cabinetMark.length ≤ written.length
  | .done written outcome, _ => (written, outcome) = copied body.bytes body.broken

variable {body : ArrivingBody} {left later : List Bytes} {head more : Bytes} {phase : Phase}
  {room : Nat}

namespace Keeps

/-- Behind a head that is complete, or is all there is. -/
theorem behind (h : head ++ left.flatten = body.bytes) (hle : head.length ≤ cabinetMark.length)
    (ready : head.length = cabinetMark.length ∨ left = [] ∧ body.broken = none) :
    Keeps body (Phase.behind head) left := by
  have hhead : head <+: body.bytes := ⟨_, h⟩
  rw [Phase.behind]
  split
  next heq => exact (copied_of_mark (heq ▸ hhead) _).symm
  next hne =>
    refine ⟨h, rfl, fun hmark => ?_, fun detail hbroken => ?_⟩
    · have hbegins := List.prefix_of_prefix_length_le hhead hmark hle
      rcases ready with hwhole | ⟨rfl, -⟩
      · exact hne (hbegins.eq_of_length hwhole)
      · rw [← h, List.flatten_nil, List.append_nil] at hmark
        exact hne (hbegins.eq_of_length_le hmark.length_le)
    · rcases ready with hwhole | ⟨-, hnone⟩
      · exact Nat.le_of_eq hwhole.symm
      · rw [hnone] at hbroken
        cases hbroken

/-- At the end of the chunks. -/
theorem ended (keeps : Keeps body phase [])
    (early : ∀ head, phase = .heading head → head.length < cabinetMark.length) :
    Keeps body (phase.ended body.broken) [] := by
  cases phase with
  | heading head =>
    obtain ⟨h, hle⟩ := keeps
    cases hbroken : body.broken with
    | none => exact behind h hle (.inr ⟨rfl, hbroken⟩)
    | some detail =>
      have hshort := early head rfl
      rw [List.flatten_nil, List.append_nil] at h
      rw [h] at hshort
      rw [Phase.ended, Keeps, hbroken, copied_of_short hshort]
  | streaming written count =>
    obtain ⟨h, rfl, hmark, hlong⟩ := keeps
    rw [List.flatten_nil, List.append_nil] at h
    subst h
    cases hbroken : body.broken with
    | none => rw [Phase.ended, Keeps, hbroken, copied_none hmark]
    | some detail =>
      rw [Phase.ended, Keeps, hbroken, copied_of_long hmark (hlong detail hbroken)]
  | done written outcome => exact keeps

/-- After bytes were read. -/
theorem got (keeps : Keeps body phase left) (h : more ++ later.flatten = left.flatten)
    (fits : ∀ head, phase = .heading head → (head ++ more).length ≤ cabinetMark.length) :
    Keeps body (phase.got more) later := by
  cases phase with
  | heading head =>
    obtain ⟨hbytes, -⟩ := keeps
    exact ⟨by rw [List.append_assoc, h, hbytes], fits head rfl⟩
  | streaming written count =>
    obtain ⟨hbytes, rfl, hmark, hlong⟩ := keeps
    refine ⟨by rw [List.append_assoc, h, hbytes], List.length_append.symm, hmark, ?_⟩
    intro detail hbroken
    have := hlong detail hbroken
    rw [List.length_append]
    omega
  | done written outcome => exact keeps

theorem reading (keeps : Keeps body phase left) (hroom : 0 < room)
    (full : ∀ chunk ∈ left, chunk ≠ [])
    (fits : ∀ head, phase = .heading head → head.length + room ≤ cabinetMark.length) :
    Keeps body (phase.reading body.broken room left).1
      (phase.reading body.broken room left).2 := by
  rw [Phase.reading]
  dsimp only
  split
  next hend =>
    obtain rfl := eq_nil_of_read_fst hroom full hend
    refine keeps.ended fun head hphase => ?_
    have := fits head hphase
    omega
  next =>
    refine keeps.got (read_append room left) fun head hphase => ?_
    have := fits head hphase
    have := length_read_le room left
    rw [List.length_append]
    omega

/-- Every step keeps what holds of a copy. -/
theorem step (keeps : Keeps body phase left) (hroom : 0 < room)
    (full : ∀ chunk ∈ left, chunk ≠ []) :
    Keeps body (phase.step body.broken room left).1 (phase.step body.broken room left).2 := by
  cases phase with
  | heading head =>
    rw [Phase.step]
    split
    next hlt =>
      refine keeps.reading (by omega) full fun head hphase => ?_
      cases hphase
      omega
    next hge =>
      obtain ⟨h, hle⟩ := keeps
      exact behind h hle (.inl (by omega))
  | streaming written count => exact keeps.reading hroom full fun head hphase => by cases hphase
  | done written outcome => exact keeps

end Keeps

/-- What is written at a phase is the beginning of what is written in the end. -/
theorem Keeps.written_isPrefix (keeps : Keeps body phase left) :
    phase.written <+: (copied body.bytes body.broken).1 := by
  cases phase with
  | heading head => exact List.nil_prefix
  | streaming written count =>
    obtain ⟨h, -, hmark, hlong⟩ := keeps
    have hwritten : written <+: body.bytes := ⟨_, h⟩
    cases hbroken : body.broken with
    | none => rwa [copied_none hmark]
    | some detail =>
      rwa [copied_of_long hmark (Nat.le_trans (hlong detail hbroken) hwritten.length_le)]
  | done written outcome =>
    rw [← show (written, outcome) = _ from keeps]
    exact List.prefix_refl _

/-! ### The end of a copy -/

theorem ahead_behind_le (head : Bytes) (left : List Bytes) :
    (behind head).ahead left ≤ left.flatten.length + 1 := by
  rw [behind]
  split
  next => exact Nat.zero_le _
  next => exact Nat.le_refl _

theorem ahead_ended_lt (running : phase.ahead [] ≠ 0) :
    (phase.ended broken).ahead [] < phase.ahead [] := by
  cases phase with
  | heading head =>
    cases broken with
    | none => exact Nat.lt_succ_of_le (ahead_behind_le head [])
    | some detail => exact Nat.zero_lt_succ _
  | streaming written count => cases broken <;> exact Nat.zero_lt_succ _
  | done written outcome => exact absurd rfl running

theorem ahead_got_lt (h : more ++ later.flatten = left.flatten) (some : more ≠ [])
    (running : phase.ahead left ≠ 0) : (phase.got more).ahead later < phase.ahead left := by
  have hlength := congrArg List.length h
  have hpos := List.length_pos_iff.2 some
  rw [List.length_append] at hlength
  cases phase with
  | heading head =>
    simp only [got, ahead]
    omega
  | streaming written count =>
    simp only [got, ahead]
    omega
  | done written outcome => exact absurd rfl running

theorem ahead_reading_lt (hroom : 0 < room) (full : ∀ chunk ∈ left, chunk ≠ [])
    (running : phase.ahead left ≠ 0) :
    (phase.reading broken room left).1.ahead (phase.reading broken room left).2
      < phase.ahead left := by
  rw [reading]
  dsimp only
  split
  next hend =>
    obtain rfl := eq_nil_of_read_fst hroom full hend
    exact ahead_ended_lt running
  next hmore => exact ahead_got_lt (read_append room left) hmore running

/-- A copy that has not ended comes closer to its end with every step. -/
theorem ahead_step_lt (broken : Option String) (hroom : 0 < room)
    (full : ∀ chunk ∈ left, chunk ≠ []) (running : phase.ahead left ≠ 0) :
    (phase.step broken room left).1.ahead (phase.step broken room left).2 < phase.ahead left := by
  cases phase with
  | heading head =>
    rw [step]
    split
    next hlt => exact ahead_reading_lt (by omega) full running
    next => exact Nat.lt_succ_of_le (ahead_behind_le head left)
  | streaming written count => exact ahead_reading_lt hroom full running
  | done written outcome => exact absurd rfl running

theorem step_snd_ne_nil (full : ∀ chunk ∈ left, chunk ≠ []) :
    ∀ chunk ∈ (phase.step broken room left).2, chunk ≠ [] := by
  cases phase with
  | heading head =>
    rw [step]
    split
    next => exact read_snd_ne_nil full
    next => exact full
  | streaming written count => exact read_snd_ne_nil full
  | done written outcome => exact full

/-- A run keeps what holds of a copy, and takes a step for each buffer until it has ended. -/
theorem Keeps.run {rooms : List Nat} (keeps : Keeps body phase left)
    (hrooms : ∀ room ∈ rooms, 0 < room) (full : ∀ chunk ∈ left, chunk ≠ []) :
    Keeps body (phase.run body.broken rooms left).1 (phase.run body.broken rooms left).2 ∧
      (phase.run body.broken rooms left).1.ahead (phase.run body.broken rooms left).2
        ≤ phase.ahead left - rooms.length := by
  induction rooms generalizing phase left with
  | nil => exact ⟨keeps, Nat.le_refl _⟩
  | cons room rooms ih =>
    have hroom := hrooms room List.mem_cons_self
    have hrest := ih (keeps.step hroom full)
      (fun room hmem => hrooms room (List.mem_cons_of_mem _ hmem)) (step_snd_ne_nil full)
    refine ⟨hrest.1, Nat.le_trans hrest.2 ?_⟩
    rw [List.length_cons]
    by_cases hrunning : phase.ahead left = 0
    · cases phase with
      | heading head => cases hrunning
      | streaming written count => cases hrunning
      | done written outcome =>
        show 0 - rooms.length ≤ _
        rw [Nat.zero_sub]
        exact Nat.zero_le _
    · have := ahead_step_lt body.broken hroom full hrunning
      omega

theorem Keeps.start (body : ArrivingBody) : Keeps body (.heading []) body.chunks :=
  ⟨rfl, Nat.zero_le _⟩

/-- At any time, what is written is a beginning of what is written in the end. -/
theorem written_run_isPrefix {rooms : List Nat} (hrooms : ∀ room ∈ rooms, 0 < room)
    (full : ∀ chunk ∈ body.chunks, chunk ≠ []) :
    ((Phase.heading []).run body.broken rooms body.chunks).1.written <+: (copyBody body).1 := by
  have hkeeps := ((Keeps.start body).run hrooms full).1
  rw [copyBody_eq]
  exact Keeps.written_isPrefix hkeeps

/-- Buffers do not matter. -/
theorem run_eq_done {rooms : List Nat} (hrooms : ∀ room ∈ rooms, 0 < room)
    (full : ∀ chunk ∈ body.chunks, chunk ≠ []) (enough : body.bytes.length + 2 ≤ rooms.length) :
    ((Phase.heading []).run body.broken rooms body.chunks).1
      = .done (copyBody body).1 (copyBody body).2 := by
  obtain ⟨hkeeps, hahead⟩ := (Keeps.start body).run hrooms full
  have hend : (Phase.heading []).ahead body.chunks = body.bytes.length + 2 := rfl
  rw [hend, Nat.sub_eq_zero_of_le enough] at hahead
  rw [copyBody_eq]
  generalize (Phase.heading []).run body.broken rooms body.chunks = reached at hkeeps hahead
  obtain ⟨phase, left⟩ := reached
  cases phase with
  | heading head => cases hahead
  | streaming written count => cases hahead
  | done written outcome => rw [← show (written, outcome) = _ from hkeeps]

end Phase

end OffsetService.Remote
