import OffsetService.Proofs.Crowd.OneDownload
import OffsetService.Proofs.Remote.Copying

/-!
# What comes from a remote archive

A delivery without a fault is the body of a reply, from the first byte to the last, and no cabinet
(`brought_of_fetch`). A cache holds nothing else but what was there at first (`Genuine`): a step of
a call leaves every file as it was, or takes it away, or makes it a delivery without a fault. This
needs no locks, and it stands when files are taken away from outside.
-/

namespace OffsetService

namespace Remote

/-- A web replied with these bytes as a body that was whole and is no cabinet. -/
def Brought (web : Web) (bytes : Bytes) : Prop :=
  ∃ asked address reply, web asked address = .ok reply ∧ reply.content.broken = none ∧
    reply.content.bytes = bytes ∧ ¬cabinetMark <+: bytes

variable {web : Web}

/-- What is found was replied. -/
theorem exists_reply_of_follow {redirects : Nat} {before : List Address} {address : Address}
    {reply : Reply} (h : (follow web redirects before address).found = .ok reply) :
    ∃ asked address, web asked address = .ok reply := by
  induction redirects generalizing before address with
  | zero =>
    rw [follow] at h
    dsimp only at h
    split at h
    next => cases h
    next found hfound =>
      split at h
      next => cases h; exact ⟨_, _, hfound⟩
      next => cases h
  | succ redirects ih =>
    rw [follow] at h
    dsimp only at h
    split at h
    next => cases h
    next found hfound =>
      split at h
      next => cases h; exact ⟨_, _, hfound⟩
      next =>
        split at h
        next => cases h
        next => exact ih h

/-- A reply is delivered without a fault only if its body is whole and no cabinet. -/
theorem deliverReply_whole {url : String} {reply : Reply}
    (h : (deliverReply url reply).2 = none) :
    reply.content.broken = none ∧ (deliverReply url reply).1 = reply.content.bytes ∧
      ¬cabinetMark <+: reply.content.bytes := by
  unfold deliverReply at h ⊢
  rw [copyBody_eq] at h ⊢
  split at h
  next => cases h
  next hfound =>
    split at h
    next => cases h
    next hfine =>
      rw [if_neg hfound, if_neg hfine]
      split at h
      next written size hcopied =>
        obtain ⟨hwhole, hwritten, -, hmark⟩ := of_copied_eq_ok hcopied
        exact ⟨hwhole, hwritten, hmark⟩
      next => cases h
      next => cases h

/-- What is fetched without a fault was brought. -/
theorem brought_of_fetch {base : String} {id : Identity}
    (h : (fetch base web id).2.fault = none) : Brought web (fetch base web id).2.written := by
  unfold fetch at h ⊢
  dsimp only at h ⊢
  split at h
  next detail hfound => cases h
  next reply hfound =>
    obtain ⟨hwhole, hwritten, hmark⟩ := deliverReply_whole h
    rw [hwritten]
    split at hfound
    next => cases hfound
    next address haddress =>
      obtain ⟨asked, address, hreply⟩ := exists_reply_of_follow hfound
      exact ⟨asked, address, reply, hreply, hwhole, rfl, hmark⟩

end Remote

namespace Cache

open Archive (relativePath)

/-- Nobody outside brings a file into the folder of a database, or changes one that is there. -/
def Moment.Unforged (m : Moment) : Prop :=
  match m.move with
  | .outside directory => ∀ p bytes, p.length = 3 → directory.file? p = some bytes →
    m.crowd.cache.directory.file? p = some bytes
  | .step _ _ _ => True

/-- The archive delivered these bytes without a fault. -/
def Delivered (moments : List Moment) (bytes : Bytes) : Prop :=
  ∃ r ∈ requests moments, r.delivery.fault = none ∧ r.delivery.written = bytes

variable {moments : List Moment} {crowd : Crowd} {i : Nat} {call : Call} {stage : Stage}
  {conditions : Conditions} {delivery : Delivery} {after : Cache} {p : Path} {bytes : Bytes}

theorem Delivered.cons (h : Delivered moments bytes) (m : Moment) :
    Delivered (m :: moments) bytes := by
  obtain ⟨r, hr, hdelivered⟩ := h
  refine ⟨r, ?_, hdelivered⟩
  rw [requests_cons]
  exact List.mem_append_right _ hr

/-- What was received is a delivery without a fault. -/
theorem Delivered.of_receive {lock size : Nat} (present : crowd.calls[i]? = some call)
    (fetching : call.stage = .fetching lock)
    (whole : (Download.receive conditions delivery call.identity.name crowd.cache.directory
      (place call.identity)).outcome = .ok size) :
    Delivered (⟨crowd, .step i conditions delivery⟩ :: moments) delivery.written := by
  obtain ⟨-, -, -, -, hasked, hfault, -⟩ := Download.receive_ok whole
  refine ⟨⟨i, call.key, delivery⟩, ?_, hfault, rfl⟩
  rw [requests_cons, Moment.request?_of_fetching present fetching hasked]
  exact List.mem_cons_self

/-- A request is made in a step that gets its delivery. -/
theorem exists_step_of_request {r : Request} (hr : r ∈ requests moments) :
    ∃ crowd conditions, ⟨crowd, .step r.caller conditions r.delivery⟩ ∈ moments := by
  obtain ⟨⟨crowd, move⟩, hm, hrequest⟩ := List.mem_filterMap.1 hr
  cases move with
  | outside directory => cases hrequest
  | step caller conditions delivery =>
    simp only [Moment.request?] at hrequest
    split at hrequest
    next =>
      split at hrequest
      next => cases hrequest; exact ⟨crowd, conditions, hm⟩
      next => cases hrequest
    next => cases hrequest

/-- A call that is about to move a file has just received it. -/
theorem Transition.received_of_placing {cache : Cache} {id : Identity} {before : Stage}
    {lock size : Nat} {temporary : Path}
    (h : Transition conditions delivery i id cache before after (.placing lock temporary size)) :
    (∃ waited, before = .fetching waited) ∧ temporary = conditions.temporary (place id) ∧
      (Download.receive conditions delivery id.name cache.directory (place id)).outcome
        = .ok size ∧
      after.directory
        = (Download.receive conditions delivery id.name cache.directory (place id)).directory := by
  cases h with
  | @received lock _ whole => exact ⟨⟨lock, rfl⟩, rfl, whole, rfl⟩

/-- The files beside the databases, in a folder tree that was `first` when the calls began. -/
structure Genuine (first : Directory) (moments : List Moment) (crowd : Crowd) : Prop where
  files : ∀ {p : Path} {bytes : Bytes}, p.length = 3 →
    crowd.cache.directory.file? p = some bytes →
    first.file? p = some bytes ∨ Delivered moments bytes
  temporaries : ∀ {i : Nat} {call : Call} {lock : Nat} {temporary : Path} {size : Nat},
    crowd.calls[i]? = some call → call.stage = .placing lock temporary size →
    temporary.length = 3 ∧
      ∀ bytes, crowd.cache.directory.file? temporary = some bytes → Delivered moments bytes

namespace Genuine

variable {first : Directory}

theorem start (root : String) (first : Directory) (ids : List Identity) :
    Genuine first [] (Crowd.start ⟨root, first, .empty, 0⟩ ids) := by
  constructor
  case files => exact fun _ h => .inl h
  case temporaries =>
    intro i call lock temporary size h hstage
    obtain ⟨id, -, rfl⟩ := List.mem_map.1 (List.mem_of_getElem? h)
    cases hstage

theorem outside (g : Genuine first moments crowd) {directory : Directory}
    (unforged : Moment.Unforged ⟨crowd, .outside directory⟩) :
    Genuine first (⟨crowd, .outside directory⟩ :: moments)
      { crowd with cache := { crowd.cache with directory := directory } } := by
  constructor
  case files =>
    intro p bytes hp hfile
    exact (g.files hp (unforged p bytes hp hfile)).imp_right (·.cons _)
  case temporaries =>
    intro i call lock temporary size hcall hstage
    obtain ⟨hlength, hdelivered⟩ := g.temporaries hcall hstage
    exact ⟨hlength, fun bytes hfile =>
      (hdelivered bytes (unforged temporary bytes hlength hfile)).cons _⟩

/-- A file after a step of a call was there before, or the archive delivered it. -/
theorem file?_step (g : Genuine first moments crowd) (present : crowd.calls[i]? = some call)
    (h : Transition conditions delivery i call.identity crowd.cache call.stage after stage)
    (hfile : after.directory.file? p = some bytes) :
    crowd.cache.directory.file? p = some bytes ∨
      Delivered (⟨crowd, .step i conditions delivery⟩ :: moments) bytes := by
  generalize hstage : call.stage = before at h
  cases h with
  | refused | hit | miss | filled | absent | join | acquire | release | leave => exact .inl hfile
  | unreceived failed => exact .inl ((Download.file?_receive_of_error failed p).symm.trans hfile)
  | received whole =>
    have hfile := (Download.file?_receive_of_ok whole p).symm.trans hfile
    split at hfile
    next =>
      cases hfile
      exact .inr (.of_receive present hstage whole)
    next => exact .inl hfile
  | @unplaced lock size temporary directory fault failed =>
    have htemporary : temporary ≠ [] := fun heq => by
      have := (g.temporaries present hstage).1
      simp [heq] at this
    have hfile := (Download.file?_settle_of_error failed htemporary p).symm.trans hfile
    split at hfile
    next => cases hfile
    next => exact .inl hfile
  | @placed lock size temporary directory moved =>
    obtain ⟨hlength, hdelivered⟩ := g.temporaries present hstage
    have htemporary : temporary ≠ [] := fun heq => by simp [heq] at hlength
    have hfile :=
      (Download.file?_settle_of_ok moved htemporary (place_ne_nil _) p).symm.trans hfile
    split at hfile
    next => exact .inr ((hdelivered bytes hfile).cons _)
    next =>
      split at hfile
      next => cases hfile
      next => exact .inl hfile

theorem step (g : Genuine first moments crowd) {after : Crowd}
    (taken : crowd.step conditions delivery i = some after) :
    Genuine first (⟨crowd, .step i conditions delivery⟩ :: moments) after := by
  obtain ⟨call, stage, present, hcalls, htrans⟩ := Crowd.exists_transition_of_step taken
  constructor
  case files =>
    intro p bytes hp hfile
    rcases g.file?_step present htrans hfile with hsame | hnew
    · exact (g.files hp hsame).imp_right (·.cons _)
    · exact .inr hnew
  case temporaries =>
    intro j other lock temporary size hother hstage
    rw [hcalls, getElem?_set_of_present present] at hother
    split at hother
    next =>
      cases hother
      obtain rfl : stage = .placing lock temporary size := hstage
      obtain ⟨⟨waited, hfetching⟩, rfl, hwhole, hdirectory⟩ := htrans.received_of_placing
      refine ⟨length_of_dropLast_eq (dropLast_temporary _ _), fun bytes hfile => ?_⟩
      rw [hdirectory, Download.file?_receive_of_ok hwhole, if_pos rfl] at hfile
      cases hfile
      exact .of_receive present hfetching hwhole
    next =>
      obtain ⟨hlength, hdelivered⟩ := g.temporaries hother hstage
      refine ⟨hlength, fun bytes hfile => ?_⟩
      rcases g.file?_step present htrans hfile with hsame | hnew
      · exact (hdelivered bytes hsame).cons _
      · exact hnew

end Genuine

/-- Where the files beside the databases are from. -/
theorem History.genuine {root : String} {first : Directory} {ids : List Identity}
    (h : History (Crowd.start ⟨root, first, .empty, 0⟩ ids) moments crowd)
    (unforged : ∀ m ∈ moments, m.Unforged) : Genuine first moments crowd := by
  induction h with
  | start => exact Genuine.start root first ids
  | step before present fits taken ih =>
    exact (ih fun m hm => unforged m (List.mem_cons_of_mem _ hm)).step taken
  | outside before directory ih =>
    exact (ih fun m hm => unforged m (List.mem_cons_of_mem _ hm)).outside
      (unforged _ List.mem_cons_self)

open Remote (Web Phase copyBody copied Brought)

/-- **Bodies are kept whole or not at all.** What is written of a body, and how the copy ends, are
given by its bytes and by what broke it off, however it is divided into chunks (`copied`). The two
readers come to this with buffers of any sizes, and what they have written on the way is a beginning
of it. So whatever calls on a cache do at the same time, each file where databases are kept was
there at first, or it is the body of a reply of the web, whole and no cabinet. -/
theorem bodies_kept_whole :
    (∀ body : ArrivingBody, copyBody body = copied body.bytes body.broken) ∧
    (∀ (body : ArrivingBody) (rooms : List Nat), (∀ chunk ∈ body.chunks, chunk ≠ []) →
      (∀ room ∈ rooms, 0 < room) →
      ((Phase.heading []).run body.broken rooms body.chunks).1.written <+: (copyBody body).1 ∧
      (body.bytes.length + 2 ≤ rooms.length →
        ((Phase.heading []).run body.broken rooms body.chunks).1
          = .done (copyBody body).1 (copyBody body).2)) ∧
    ∀ (root : String) (first : Directory) (ids : List Identity) (moments : List Moment)
      (crowd : Crowd) (base : String) (web : Nat → Web),
      History (Crowd.start ⟨root, first, .empty, 0⟩ ids) moments crowd →
      (∀ m ∈ moments, m.Unforged) →
      (∀ r ∈ requests moments, ∃ fetches id, r.delivery = Remote.source base web fetches id) →
      ∀ (p : Path) (bytes : Bytes), p.length = 3 → crowd.cache.directory.file? p = some bytes →
        first.file? p = some bytes ∨ ∃ fetches, Brought (web fetches) bytes := by
  refine ⟨Remote.copyBody_eq, fun body rooms full hrooms =>
    ⟨Phase.written_run_isPrefix hrooms full, Phase.run_eq_done hrooms full⟩, ?_⟩
  intro root first ids moments crowd base web h unforged answered p bytes hp hfile
  refine ((h.genuine unforged).files hp hfile).imp_right ?_
  rintro ⟨r, hr, hfault, rfl⟩
  obtain ⟨fetches, id, hdelivery⟩ := answered r hr
  rw [hdelivery, Remote.source] at hfault ⊢
  exact ⟨fetches, Remote.brought_of_fetch hfault⟩

/-- A body that begins almost like a cabinet, with a head that comes in three chunks and ends inside
the last of them. -/
def piecemeal : ArrivingBody := ⟨[[0x4D, 0x53], [0x43], [0x47, 1, 2], [3]], none⟩

/-- A web that replies with it everywhere. -/
def piecemealWeb : Web := fun _ _ => .ok ⟨200, none, piecemeal⟩

/-- A call stores the body, which buffers of two bytes copy as well. -/
theorem bodies_kept_whole_piecemeal :
    ((Phase.heading []).run none (List.replicate 9 2) piecemeal.chunks).1
      = .done [0x4D, 0x53, 0x43, 0x47, 1, 2, 3] (.ok 7) ∧
    ∃ moments crowd, History (Crowd.start (.empty "cache") [popular]) moments crowd ∧
      (∀ m ∈ moments, m.Unforged) ∧
      (∀ r ∈ requests moments, ∃ fetches id,
        r.delivery = Remote.source "http://archive" (fun _ => piecemealWeb) fetches id) ∧
      crowd.cache.directory.file? (place popular) = some [0x4D, 0x53, 0x43, 0x47, 1, 2, 3] ∧
      Brought piecemealWeb [0x4D, 0x53, 0x43, 0x47, 1, 2, 3] := by
  obtain ⟨hcopy, hrun, hkept⟩ := bodies_kept_whole
  have hcopied : copyBody piecemeal = ([0x4D, 0x53, 0x43, 0x47, 1, 2, 3], .ok 7) :=
    hcopy piecemeal
  have hends : ((Crowd.start (.empty "cache") [popular]).follow untroubled
      (Remote.source "http://archive" (fun _ => piecemealWeb) 0 popular)
      [0, 0, 0, 0, 0, 0, 0, 0]).any
      (fun crowd => crowd.cache.directory.file? (place popular)
        == some [0x4D, 0x53, 0x43, 0x47, 1, 2, 3]) = true := by
    decide +kernel
  obtain ⟨crowd, htaken, hstored⟩ := (Option.any_eq_true _ _).1 hends
  obtain ⟨moments, hist, hmoves⟩ := History.start.follow htaken fun call hmem => by
    obtain rfl : call = Call.new popular := List.mem_singleton.1 hmem
    unfold Conditions.Fits
    decide +kernel
  rw [List.append_nil] at hist
  have hunforged : ∀ m ∈ moments, m.Unforged := by
    rintro ⟨earlier, move⟩ hm
    obtain ⟨caller, rfl⟩ := hmoves _ hm
    trivial
  have hanswered : ∀ r ∈ requests moments, ∃ fetches id,
      r.delivery = Remote.source "http://archive" (fun _ => piecemealWeb) fetches id := by
    intro r hr
    obtain ⟨earlier, conditions, hm⟩ := exists_step_of_request hr
    obtain ⟨caller, hmove⟩ := hmoves _ hm
    injection hmove with _ _ hdelivery
    exact ⟨0, popular, hdelivery⟩
  have hfile := eq_of_beq hstored
  have hbrought := hkept _ _ _ _ _ _ _ hist hunforged hanswered _ _ rfl hfile
  refine ⟨?_, moments, crowd, hist, hunforged, hanswered, hfile, ?_⟩
  · have hdone := (hrun piecemeal (List.replicate 9 2) (by decide) (by decide)).2 (by decide)
    rwa [hcopied] at hdone
  · rcases hbrought with hfirst | ⟨-, hbrought⟩
    · cases hfirst
    · exact hbrought

end Cache

end OffsetService
