import OffsetService.Proofs.Crowd.History
import OffsetService.Proofs.Places

/-!
# What the steps of a call do to files

A call relies on certain files at each stage (`Stands`): while it fetches, its database is missing;
while it holds a temporary file, that file has what the archive delivered; once it has succeeded,
its database is there. A step of the call brings it to the next stage with what that stage promises
(`Transition.stands`), and touches no file but its temporary file and its database, the latter only
if it was missing (`Transition.effect`). So a call relies on nothing that a call for another key, or
one without a lock, can change (`Stands.other`).
-/

namespace OffsetService.Cache

open Archive (check relativePath)

/-- What a call can rely on at its stage. -/
def Stands (asked : List Request) (i : Nat) (cache : Cache) (call : Call) : Prop :=
  match call.stage with
  | .arriving => True
  | .joining | .waiting _ | .checking _ => check call.identity = .ok ()
  | .fetching _ =>
    check call.identity = .ok () ∧ cache.directory.file? (place call.identity) = none
  | .placing _ temporary _ =>
    check call.identity = .ok () ∧ cache.directory.file? (place call.identity) = none ∧
      temporary.dropLast = (place call.identity).dropLast ∧ temporary ≠ place call.identity ∧
      ∃ delivery, ⟨i, call.key, delivery⟩ ∈ asked ∧ delivery.fault = none ∧
        cache.directory.file? temporary = some delivery.written
  | .releasing _ outcome | .leaving _ outcome | .done outcome =>
    ∀ path, outcome = .ok path → check call.identity = .ok () ∧
      path = cache.localPath call.identity ∧
      ∃ bytes, cache.directory.file? (place call.identity) = some bytes

/-- What a step of a call for the database of `id` leaves alone: everything outside the folder of
the database, and every database that is there. -/
structure Effect (cache after : Cache) (id : Identity) : Prop where
  root : after.root = cache.root
  far : ∀ p, p.dropLast ≠ (place id).dropLast →
    after.directory.file? p = cache.directory.file? p
  stays : ∀ other bytes, cache.directory.file? (place other) = some bytes →
    after.directory.file? (place other) = some bytes

variable {asked : List Request} {i : Nat} {cache after : Cache} {call : Call} {stage : Stage}
  {conditions : Conditions} {delivery : Delivery}

/-- What a call relies on is its own folder, while it holds the lock, and its database, once it is
there. -/
theorem Stands.frame {asked' : List Request} (h : Stands asked i cache call)
    (more : asked ⊆ asked') (root : after.root = cache.root)
    (near : call.stage.holds = true → ∀ p, p.dropLast = (place call.identity).dropLast →
      after.directory.file? p = cache.directory.file? p)
    (stays : ∀ bytes, cache.directory.file? (place call.identity) = some bytes →
      after.directory.file? (place call.identity) = some bytes) :
    Stands asked' i after call := by
  obtain ⟨id, stage⟩ := call
  cases stage with
  | arriving => trivial
  | joining => exact h
  | waiting lock => exact h
  | checking lock => exact h
  | fetching lock =>
    obtain ⟨hcheck, hmissing⟩ := h
    exact ⟨hcheck, (near rfl _ rfl).trans hmissing⟩
  | placing lock temporary size =>
    obtain ⟨hcheck, hmissing, hnear, hne, got, hgot, hfault, hfile⟩ := h
    exact ⟨hcheck, (near rfl _ rfl).trans hmissing, hnear, hne, got, more hgot, hfault,
      (near rfl _ hnear).trans hfile⟩
  | releasing lock outcome | leaving lock outcome | done outcome =>
    intro path hpath
    obtain ⟨hcheck, heq, bytes, hbytes⟩ := h path hpath
    refine ⟨hcheck, ?_, bytes, stays _ hbytes⟩
    rw [heq]
    simp only [localPath, root]

/-- A call that is for another database, or holds no lock, relies on nothing that a step changes. -/
theorem Stands.other {asked' : List Request} {id : Identity} (h : Stands asked i cache call)
    (more : asked ⊆ asked') (effect : Effect cache after id)
    (apart : call.stage.holds = true → place call.identity ≠ place id) :
    Stands asked' i after call := by
  refine h.frame more effect.root (fun hholds p hnear => effect.far p fun heq => ?_)
    (effect.stays _)
  exact apart hholds (place_eq_of_dropLast_eq (hnear.symm.trans heq))

/-! ## What the steps change -/

theorem Effect.of_file?_eq {id : Identity} (root : after.root = cache.root)
    (same : ∀ p, after.directory.file? p = cache.directory.file? p) : Effect cache after id :=
  ⟨root, fun p _ => same p, fun _ _ h => (same _).trans h⟩

/-- Only the temporary file of the call and its database can change. -/
theorem Effect.of_changes {id : Identity} {temporary : Path} (root : after.root = cache.root)
    (near : temporary.dropLast = (place id).dropLast) (apart : temporary ≠ place id)
    (missing : cache.directory.file? (place id) = none)
    (others : ∀ p, p ≠ temporary → p ≠ place id →
      after.directory.file? p = cache.directory.file? p) : Effect cache after id := by
  constructor
  case root => exact root
  case far =>
    intro p hfar
    refine others p ?_ ?_
    · rintro rfl
      exact hfar near
    · rintro rfl
      exact hfar rfl
  case stays =>
    intro other bytes h
    rw [others _ (temporary_ne_place near apart other).symm, h]
    intro heq
    rw [heq, missing] at h
    cases h

/-- A step of a call changes at most its temporary file and its database, and the database only if
it was not there. -/
theorem Transition.effect (h : Transition conditions delivery i call.identity cache call.stage
    after stage) (stands : Stands asked i cache call)
    (fits : conditions.Fits (place call.identity)) : Effect cache after call.identity := by
  obtain ⟨id, before⟩ := call
  cases h with
  | refused | hit | miss | filled | absent | join | acquire | release | leave =>
    exact .of_file?_eq rfl fun p => rfl
  | unreceived failed =>
    exact .of_file?_eq rfl (Download.file?_receive_of_error failed)
  | received whole =>
    obtain ⟨-, hmissing⟩ := stands
    refine .of_changes rfl (dropLast_temporary conditions id) fits hmissing fun p htemp _ => ?_
    exact (Download.file?_receive_of_ok whole p).trans (if_neg htemp)
  | unplaced failed =>
    obtain ⟨-, hmissing, hnear, hne, -⟩ := stands
    refine .of_changes rfl hnear hne hmissing fun p htemp _ => ?_
    exact (Download.file?_settle_of_error failed (ne_nil_of_dropLast_eq hnear) p).trans
      (if_neg htemp)
  | placed moved =>
    obtain ⟨-, hmissing, hnear, hne, -⟩ := stands
    refine .of_changes rfl hnear hne hmissing fun p htemp hplace => ?_
    rw [Download.file?_settle_of_ok moved (ne_nil_of_dropLast_eq hnear) (place_ne_nil id) p,
      if_neg hplace, if_neg htemp]

/-- A call that holds no lock does nothing to files. -/
theorem Transition.directory_eq_of_idle
    (h : Transition conditions delivery i call.identity cache call.stage after stage)
    (idle : call.stage.holds = false) : after.directory = cache.directory := by
  generalize call.stage = before at h idle
  cases h <;> first | rfl | cases idle

/-- A step takes a call to a stage where it can rely on what that stage promises. -/
theorem Transition.stands {asked' : List Request}
    (h : Transition conditions delivery i call.identity cache call.stage after stage)
    (stands : Stands asked i cache call) (fits : conditions.Fits (place call.identity))
    (request : ∀ lock, call.stage = .fetching lock → (Download.receive conditions delivery
      call.identity.name cache.directory (place call.identity)).asked = true →
      ⟨i, call.key, delivery⟩ ∈ asked') :
    Stands asked' i after { call with stage := stage } := by
  obtain ⟨id, before⟩ := call
  cases h with
  | refused | unreceived | unplaced =>
    intro path hpath
    cases hpath
  | hit fit present =>
    intro path hpath
    cases hpath
    exact ⟨fit, rfl, _, present⟩
  | miss fit => exact fit
  | join => exact stands
  | acquire => exact stands
  | filled present =>
    intro path hpath
    cases hpath
    exact ⟨stands, rfl, _, present⟩
  | absent missing => exact ⟨stands, missing⟩
  | received whole =>
    obtain ⟨hcheck, hmissing⟩ := stands
    obtain ⟨-, -, -, -, hasked, hfault, -⟩ := Download.receive_ok whole
    have hfiles := Download.file?_receive_of_ok whole
    refine ⟨hcheck, ?_, dropLast_temporary conditions id, fits, delivery,
      request _ rfl hasked, hfault, ?_⟩
    · exact (hfiles _).trans ((if_neg (Ne.symm fits)).trans hmissing)
    · exact (hfiles _).trans (if_pos rfl)
  | placed moved =>
    obtain ⟨hcheck, -, hnear, -, got, -, -, hfile⟩ := stands
    intro path hpath
    cases hpath
    refine ⟨hcheck, rfl, got.written, ?_⟩
    rw [Download.file?_settle_of_ok moved (ne_nil_of_dropLast_eq hnear) (place_ne_nil id),
      if_pos rfl, hfile]
  | release => exact stands
  | leave => exact stands

/-- Either no database comes to its place at a step, and those that are there are the same; or one
does that was not there, with the bytes that the archive delivered to the call. -/
theorem Transition.landing {crowd : Crowd} (present : crowd.calls[i]? = some call)
    (h : Transition conditions delivery i call.identity crowd.cache call.stage after stage)
    (stands : Stands asked i crowd.cache call) (fits : conditions.Fits (place call.identity)) :
    (Moment.landing? ⟨crowd, .step i conditions delivery⟩ = none ∧
      ∀ other, after.directory.file? (place other) = crowd.cache.directory.file? (place other)) ∨
    (Moment.landing? ⟨crowd, .step i conditions delivery⟩ = some ⟨i, call.key⟩ ∧
      check call.identity = .ok () ∧
      crowd.cache.directory.file? (place call.identity) = none ∧
      (∃ got, ⟨i, call.key, got⟩ ∈ asked ∧ got.fault = none ∧
        after.directory.file? (place call.identity) = some got.written) ∧
      ∀ other, place other ≠ place call.identity →
        after.directory.file? (place other) = crowd.cache.directory.file? (place other)) := by
  obtain ⟨id, before⟩ := call
  obtain ⟨cache, calls, events⟩ := crowd
  cases h with
  | refused | hit | miss | filled | absent | join | acquire | release | leave =>
    exact .inl ⟨by simp only [Moment.landing?, present], fun _ => rfl⟩
  | unreceived failed =>
    exact .inl ⟨by simp only [Moment.landing?, present],
      fun other => Download.file?_receive_of_error failed _⟩
  | received whole =>
    refine .inl ⟨by simp only [Moment.landing?, present], fun other => ?_⟩
    refine (Download.file?_receive_of_ok whole _).trans (if_neg ?_)
    exact (temporary_ne_place (dropLast_temporary conditions id) fits other).symm
  | unplaced failed =>
    obtain ⟨-, -, hnear, hne, -⟩ := stands
    refine .inl ⟨by simp only [Moment.landing?, present, failed], fun other => ?_⟩
    exact (Download.file?_settle_of_error failed (ne_nil_of_dropLast_eq hnear) _).trans
      (if_neg (temporary_ne_place hnear hne other).symm)
  | placed moved =>
    obtain ⟨hcheck, hmissing, hnear, hne, got, hgot, hfault, hfile⟩ := stands
    have hfiles := Download.file?_settle_of_ok moved (ne_nil_of_dropLast_eq hnear)
      (place_ne_nil id)
    refine .inr ⟨by simp only [Moment.landing?, present, moved, Call.key], hcheck, hmissing,
      ⟨got, hgot, hfault, ?_⟩, fun other hother => ?_⟩
    · rw [hfiles, if_pos rfl, hfile]
    · rw [hfiles, if_neg hother, if_neg (temporary_ne_place hnear hne other).symm]

end OffsetService.Cache
