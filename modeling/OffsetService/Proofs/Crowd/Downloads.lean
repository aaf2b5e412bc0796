import OffsetService.Proofs.Crowd.Effects

/-!
# One download for all calls of a key

Calls for one key share one download, in whatever order their steps mix and however downloads end.
The argument is an invariant of histories in which nobody outside touches files (`Stored`): a
database that came to its place stays there, and it has the bytes that the archive delivered to the
call that brought it.
-/

namespace OffsetService.Cache

open Archive (check relativePath)

/-- Where the bytes of a database are from: they were there at first, and no call brought any; or
there was no file, and one call brought what the archive delivered to it without a fault. -/
def Origin (first : Directory) (moments : List Moment) (id : Identity) (bytes : Bytes) : Prop :=
  (first.file? (place id) = some bytes ∧ ∀ l ∈ landings moments, l.key ≠ relativePath id) ∨
  (first.file? (place id) = none ∧ ∃ caller delivery, ⟨caller, relativePath id⟩ ∈ landings moments ∧
    ⟨caller, relativePath id, delivery⟩ ∈ requests moments ∧ delivery.fault = none ∧
    delivery.written = bytes)

/-- What a history leaves in the folder tree that was `first` when the calls began. -/
structure Stored (first : Directory) (moments : List Moment) (crowd : Crowd) : Prop where
  stands : ∀ {i : Nat} {call : Call}, crowd.calls[i]? = some call →
    Stands (requests moments) i crowd.cache call
  kept : ∀ {id : Identity} {bytes : Bytes}, first.file? (place id) = some bytes →
    crowd.cache.directory.file? (place id) = some bytes
  origin : ∀ {id : Identity} {bytes : Bytes}, check id = .ok () →
    crowd.cache.directory.file? (place id) = some bytes → Origin first moments id bytes
  landed : ∀ {l : Landing}, l ∈ landings moments → ∃ id, check id = .ok () ∧
    relativePath id = l.key ∧ ∃ bytes, crowd.cache.directory.file? (place id) = some bytes
  once : ((landings moments).map Landing.key).Nodup
  missing : ∀ {m : Moment} {call : Call}, m ∈ moments → m.fetcher? = some call →
    m.crowd.cache.directory.file? (place call.identity) = none

/-- Who fetches at a moment stands where its file is missing. -/
theorem Moment.fetcher?_eq_some {crowd : Crowd} {i : Nat} {conditions : Conditions}
    {delivery : Delivery} {call : Call}
    (h : Moment.fetcher? ⟨crowd, .step i conditions delivery⟩ = some call) :
    crowd.calls[i]? = some call ∧ ∃ lock, call.stage = .fetching lock := by
  simp only [fetcher?] at h
  split at h
  next id lock hcall =>
    cases h
    exact ⟨hcall, lock, rfl⟩
  next => cases h

theorem Moment.request?_of_fetching {crowd : Crowd} {i lock : Nat} {conditions : Conditions}
    {delivery : Delivery} {call : Call} (present : crowd.calls[i]? = some call)
    (stage : call.stage = .fetching lock)
    (asked : (Download.receive conditions delivery call.identity.name crowd.cache.directory
      (place call.identity)).asked = true) :
    Moment.request? ⟨crowd, .step i conditions delivery⟩ = some ⟨i, call.key, delivery⟩ := by
  obtain ⟨id, before⟩ := call
  obtain rfl : before = .fetching lock := stage
  simp only [request?, present, asked, if_true, Call.key]

namespace Origin

variable {first : Directory} {moments : List Moment} {id : Identity} {bytes : Bytes}

/-- A moment that brings no database of this key does not change where it is from. -/
theorem cons (h : Origin first moments id bytes) (m : Moment)
    (other : ∀ l, m.landing? = some l → l.key ≠ relativePath id) :
    Origin first (m :: moments) id bytes := by
  rcases h with ⟨hfirst, hnone⟩ | ⟨hfirst, caller, delivery, hlanding, hrequest, hrest⟩
  · refine .inl ⟨hfirst, fun l hl => ?_⟩
    rw [landings_cons, List.mem_append, Option.mem_toList] at hl
    rcases hl with hl | hl
    · exact other l hl
    · exact hnone l hl
  · refine .inr ⟨hfirst, caller, delivery, ?_, ?_, hrest⟩
    · rw [landings_cons]
      exact List.mem_append_right _ hlanding
    · rw [requests_cons]
      exact List.mem_append_right _ hrequest

end Origin

namespace Stored

variable {first : Directory} {moments : List Moment} {crowd : Crowd}

theorem start (root : String) (first : Directory) (ids : List Identity) :
    Stored first [] (Crowd.start ⟨root, first, .empty, 0⟩ ids) := by
  constructor
  case stands =>
    intro i call h
    obtain ⟨id, -, rfl⟩ := List.mem_map.1 (List.mem_of_getElem? h)
    trivial
  case kept => exact fun h => h
  case origin => exact fun _ h => .inl ⟨h, fun l hl => by cases hl⟩
  case landed => intro l hl; cases hl
  case once => exact List.nodup_nil
  case missing => intro m call hm; cases hm

/-- A change outside that leaves the files in the folders of databases alone changes nothing
here. -/
theorem outside (s : Stored first moments crowd) {directory : Directory}
    (undisturbed : Moment.Undisturbed ⟨crowd, .outside directory⟩) :
    Stored first (⟨crowd, .outside directory⟩ :: moments)
      { crowd with cache := { crowd.cache with directory := directory } } := by
  have hplaces : ∀ id, directory.file? (place id) = crowd.cache.directory.file? (place id) :=
    fun id => undisturbed _ rfl
  constructor
  case stands =>
    intro i call h
    refine (s.stands h).frame (fun _ h => h) rfl (fun _ p hnear => ?_) fun bytes hfile => ?_
    · exact undisturbed p (length_of_dropLast_eq hnear)
    · exact (hplaces _).trans hfile
  case kept => exact fun h => (hplaces _).trans (s.kept h)
  case origin =>
    intro id bytes hcheck hfile
    exact (s.origin hcheck ((hplaces _).symm.trans hfile)).cons _ fun l hl => by cases hl
  case landed =>
    intro l hl
    obtain ⟨id, hcheck, hkey, bytes, hfile⟩ := s.landed hl
    exact ⟨id, hcheck, hkey, bytes, (hplaces _).trans hfile⟩
  case once => exact s.once
  case missing =>
    intro m call hm hfetch
    rcases List.mem_cons.1 hm with rfl | hm
    · cases hfetch
    · exact s.missing hm hfetch

/-- What the calls rely on after a step of one of them. -/
theorem stands_step (s : Stored first moments crowd)
    (sharing : Sharing crowd.cache.locks crowd.calls) {i : Nat} {call : Call} {stage : Stage}
    {conditions : Conditions} {delivery : Delivery} {after : Cache}
    (present : crowd.calls[i]? = some call) (fits : conditions.Fits (place call.identity))
    (htrans : Transition conditions delivery i call.identity crowd.cache call.stage after stage)
    {j : Nat} {other : Call}
    (hj : (crowd.calls.set i { call with stage := stage })[j]? = some other) :
    Stands (requests (⟨crowd, .step i conditions delivery⟩ :: moments)) j after other := by
  have hmore : requests moments
      ⊆ requests (⟨crowd, .step i conditions delivery⟩ :: moments) := by
    rw [requests_cons]
    exact List.subset_append_right _ _
  have heffect := htrans.effect (s.stands present) fits
  rw [getElem?_set_of_present present] at hj
  split at hj
  next heq =>
    cases hj
    subst heq
    refine htrans.stands (s.stands present) fits fun lock hstage hasked => ?_
    rw [requests_cons, Moment.request?_of_fetching present hstage hasked]
    exact List.mem_cons_self
  next hne =>
    cases hholds : call.stage.holds with
    | true =>
      -- two calls that hold locks are for different databases
      refine (s.stands hj).other hmore heffect fun hholds' heq => hne ?_
      exact sharing.eq_of_holds hj present hholds' hholds (key_eq_of_place_eq heq)
    | false =>
      have hsame := htrans.directory_eq_of_idle hholds
      exact (s.stands hj).frame hmore heffect.root (fun _ p _ => by rw [hsame])
        (heffect.stays _)

/-- Where the bytes of a database are from after a step of a call. -/
theorem origin_step (s : Stored first moments crowd) {i : Nat} {call : Call} {stage : Stage}
    {conditions : Conditions} {delivery : Delivery} {after : Cache}
    (present : crowd.calls[i]? = some call) (fits : conditions.Fits (place call.identity))
    (htrans : Transition conditions delivery i call.identity crowd.cache call.stage after stage)
    {id : Identity} {bytes : Bytes} (hcheck : check id = .ok ())
    (hfile : after.directory.file? (place id) = some bytes) :
    Origin first (⟨crowd, .step i conditions delivery⟩ :: moments) id bytes := by
  rcases htrans.landing present (s.stands present) fits with
    ⟨hnone, hsame⟩ | ⟨hsome, hfit, hmissing, ⟨got, hgot, hfault, hnew⟩, hsame⟩
  · rw [hsame] at hfile
    refine (s.origin hcheck hfile).cons _ fun l hl => ?_
    rw [hnone] at hl
    cases hl
  · by_cases hplace : place id = place call.identity
    · -- this is the database that came, and there was none at first
      have hkey : relativePath id = call.key := key_eq_of_place_eq hplace
      rw [hplace, hnew] at hfile
      refine .inr ⟨?_, i, got, ?_, ?_, hfault, Option.some.inj hfile⟩
      · cases hfirst : first.file? (place id) with
        | none => rfl
        | some old =>
          have := s.kept hfirst
          rw [hplace, hmissing] at this
          cases this
      · rw [landings_cons, hsome, hkey]
        exact List.mem_cons_self
      · rw [requests_cons, hkey]
        exact List.mem_append_right _ hgot
    · rw [hsame id hplace] at hfile
      refine (s.origin hcheck hfile).cons _ fun l hl => ?_
      rw [hsome] at hl
      cases hl
      exact fun heq => hplace ((place_eq_iff hcheck hfit).2 heq.symm)

/-- A step of a call. -/
theorem step (s : Stored first moments crowd) (sharing : Sharing crowd.cache.locks crowd.calls)
    {i : Nat} {call : Call} {conditions : Conditions} {delivery : Delivery} {after : Crowd}
    (present : crowd.calls[i]? = some call) (fits : conditions.Fits (place call.identity))
    (taken : crowd.step conditions delivery i = some after) :
    Stored first (⟨crowd, .step i conditions delivery⟩ :: moments) after := by
  obtain ⟨call', stage, hcall, hcalls, htrans⟩ := Crowd.exists_transition_of_step taken
  rw [present] at hcall
  cases hcall
  have heffect := htrans.effect (s.stands present) fits
  have hlanding := htrans.landing present (s.stands present) fits
  constructor
  case stands =>
    intro j other hj
    rw [hcalls] at hj
    exact s.stands_step sharing present fits htrans hj
  case kept => exact fun h => heffect.stays _ _ (s.kept h)
  case missing =>
    intro m other hm hfetch
    rcases List.mem_cons.1 hm with rfl | hm
    · obtain ⟨hother, lock, hstage⟩ := Moment.fetcher?_eq_some hfetch
      have hstands := s.stands hother
      simp only [Stands, hstage] at hstands
      exact hstands.2
    · exact s.missing hm hfetch
  case origin =>
    intro id bytes hcheck hfile
    exact s.origin_step present fits htrans hcheck hfile
  case landed =>
    intro l hl
    rw [landings_cons, List.mem_append, Option.mem_toList] at hl
    rcases hl with hl | hl
    · rcases hlanding with ⟨hnone, -⟩ | ⟨hsome, hfit, -, ⟨got, -, -, hnew⟩, -⟩
      · rw [hnone] at hl
        cases hl
      · rw [hsome] at hl
        cases hl
        exact ⟨call.identity, hfit, rfl, _, hnew⟩
    · obtain ⟨id, hcheck, hkey, bytes, hfile⟩ := s.landed hl
      exact ⟨id, hcheck, hkey, bytes, heffect.stays _ _ hfile⟩
  case once =>
    rw [landings_cons]
    rcases hlanding with ⟨hnone, -⟩ | ⟨hsome, hfit, hmissing, -⟩
    · rw [hnone]
      exact s.once
    · rw [hsome]
      refine List.nodup_cons.2 ⟨fun hmem => ?_, s.once⟩
      -- a database that came before would still be there
      obtain ⟨l, hl, hlkey⟩ := List.mem_map.1 hmem
      obtain ⟨id, hcheck, hkey, bytes, hfile⟩ := s.landed hl
      rw [(place_eq_iff hcheck hfit).2 (hkey.trans hlkey), hmissing] at hfile
      cases hfile

end Stored

/-- What has been stored in a history without disturbance. -/
theorem History.stored {root : String} {first : Directory} {ids : List Identity}
    {moments : List Moment} {crowd : Crowd}
    (h : History (Crowd.start ⟨root, first, .empty, 0⟩ ids) moments crowd)
    (undisturbed : ∀ m ∈ moments, m.Undisturbed) : Stored first moments crowd := by
  induction h with
  | start => exact Stored.start root first ids
  | step before present fits taken ih =>
    have hsharing := before.sharing (Sharing.start ids)
    have hstored := ih fun m hm => undisturbed m (List.mem_cons_of_mem _ hm)
    exact hstored.step hsharing present fits taken
  | outside before directory ih =>
    have hstored := ih fun m hm => undisturbed m (List.mem_cons_of_mem _ hm)
    exact hstored.outside (undisturbed _ List.mem_cons_self)

end OffsetService.Cache
