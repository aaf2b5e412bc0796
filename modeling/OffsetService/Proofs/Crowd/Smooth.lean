import OffsetService.Proofs.Crowd.Downloads

/-!
# Calls when nothing fails

In a cache that was empty, with files and an archive that never fail, every download succeeds: there
is nothing in the folder of a database but the database and the temporary file of the one call that
holds the lock (`Tidy`), so that call finds its names free. Hence the archive is asked once for each
key, and every call whose identity has a place ends with a path.
-/

namespace OffsetService.Cache

open Archive (check relativePath)

/-- What a history in which nothing fails leaves of a cache that was empty. -/
structure Tidy (moments : List Moment) (crowd : Crowd) : Prop where
  folders : ∀ {p : Path}, crowd.cache.directory.node? p = some .folder → p.length ≤ 2
  files : ∀ {p : Path} {bytes : Bytes}, crowd.cache.directory.file? p = some bytes →
    (∃ id, p = place id) ∨ ∃ (i : Nat) (call : Call) (lock size : Nat),
      crowd.calls[i]? = some call ∧ call.stage = .placing lock p size
  faults : ∀ {i : Nat} {call : Call} {fault : Fault}, crowd.calls[i]? = some call →
    call.stage.outcome? = some (.error fault) → check call.identity = .error fault
  asked : ∀ {r : Request}, r ∈ requests moments → ∃ call, crowd.calls[r.caller]? = some call ∧
    call.key = r.key ∧ check call.identity = .ok () ∧
    (r.key ∈ (landings moments).map Landing.key ∨
      ∃ lock temporary size, call.stage = .placing lock temporary size)
  once : ((requests moments).map Request.key).Nodup

namespace Tidy

variable {moments : List Moment} {crowd : Crowd} {i : Nat} {call : Call} {stage : Stage}
  {conditions : Conditions} {delivery : Delivery} {after : Cache}

theorem start (root : String) (ids : List Identity) :
    Tidy [] (Crowd.start (.empty root) ids) := by
  constructor
  case folders =>
    intro p h
    by_cases hp : p = []
    · rw [hp]
      simp
    · simp [Crowd.start, Cache.empty, Directory.node?, Directory.empty, hp] at h
  case files =>
    intro p bytes h
    rw [Directory.file?_eq_some_iff] at h
    by_cases hp : p = []
    · subst hp
      rw [Directory.node?_root] at h
      cases h
    · simp [Crowd.start, Cache.empty, Directory.node?, Directory.empty, hp] at h
  case faults =>
    intro i call fault h houtcome
    obtain ⟨id, -, rfl⟩ := List.mem_map.1 (List.mem_of_getElem? h)
    cases houtcome
  case asked => intro r hr; cases hr
  case once => exact List.nodup_nil

/-! ## Nothing is in the way of a download -/

/-- The files of a tidy cache are three levels deep. -/
theorem length_of_file (t : Tidy moments crowd) {first : Directory}
    (s : Stored first moments crowd) {p : Path} {bytes : Bytes}
    (h : crowd.cache.directory.file? p = some bytes) : p.length = 3 := by
  rcases t.files h with ⟨id, rfl⟩ | ⟨j, other, lock, size, hj, hstage⟩
  · rfl
  · have hstands := s.stands hj
    simp only [Stands, hstage] at hstands
    exact length_of_dropLast_eq hstands.2.2.1

/-- A fetch in which nothing fails succeeds. -/
theorem receive_ok (t : Tidy moments crowd) {first : Directory} (s : Stored first moments crowd)
    (sharing : Sharing crowd.cache.locks crowd.calls) (present : crowd.calls[i]? = some call)
    {lock : Nat} (fetching : call.stage = .fetching lock)
    (fits : conditions.Fits (place call.identity))
    (smooth : conditions.Smooth (place call.identity)) (whole : delivery.fault = none) :
    (Download.receive conditions delivery call.identity.name crowd.cache.directory
      (place call.identity)).outcome = .ok delivery.written.length := by
  have hnear := dropLast_temporary conditions call.identity
  refine Download.receive_smooth smooth whole (fun p hp => ?_) ?_
  · cases hfile : crowd.cache.directory.file? p with
    | none => rfl
    | some bytes =>
      have hlen := t.length_of_file s hfile
      have hle := hp.length_le
      rw [dropLast_place, List.length_cons, List.length_cons, List.length_nil] at hle
      omega
  · cases hnode : crowd.cache.directory.node? (conditions.temporary (place call.identity)) with
    | none => rfl
    | some node =>
      cases node with
      | folder =>
        have hle := t.folders hnode
        rw [length_of_dropLast_eq hnear] at hle
        omega
      | file bytes =>
        rcases t.files (Directory.file?_eq_some_iff.2 hnode) with
          ⟨id, heq⟩ | ⟨j, other, lock', size, hj, hstage⟩
        · exact absurd heq (temporary_ne_place hnear fits id)
        · -- the call with this temporary file would hold the lock of the same key
          have hstands := s.stands hj
          simp only [Stands, hstage] at hstands
          have hplace := place_eq_of_dropLast_eq (hstands.2.2.1.symm.trans hnear)
          have heq := sharing.eq_of_holds hj present (by rw [hstage]; rfl)
            (by rw [fetching]; rfl) (key_eq_of_place_eq hplace)
          rw [heq, present] at hj
          cases hj
          rw [fetching] at hstage
          cases hstage

/-- A move in which nothing fails succeeds. -/
theorem settle_ok (t : Tidy moments crowd) {first : Directory} (s : Stored first moments crowd)
    (present : crowd.calls[i]? = some call) {lock size : Nat} {temporary : Path}
    (placing : call.stage = .placing lock temporary size)
    (smooth : conditions.Smooth (place call.identity)) :
    ∃ after, Download.settle conditions.rename crowd.cache.directory temporary
      (place call.identity) = (after, .ok ()) := by
  have hstands := s.stands present
  simp only [Stands, placing] at hstands
  obtain ⟨-, -, -, -, got, -, -, hfile⟩ := hstands
  rw [smooth.rename]
  refine ⟨_, Download.settle_smooth hfile fun hfolder => ?_⟩
  have hle := t.folders hfolder
  simp [place] at hle

/-! ## A step in which nothing fails -/

section Step

variable (t : Tidy moments crowd) {first : Directory} (s : Stored first moments crowd)
  (sharing : Sharing crowd.cache.locks crowd.calls) (present : crowd.calls[i]? = some call)
  (fits : conditions.Fits (place call.identity))
  (smooth : conditions.Smooth (place call.identity)) (whole : delivery.fault = none)
  (h : Transition conditions delivery i call.identity crowd.cache call.stage after stage)

include t s sharing present fits smooth whole h

/-- The fault of a call is that its identity has no place. -/
theorem faults_step {fault : Fault} (failed : stage.outcome? = some (.error fault)) :
    check call.identity = .error fault := by
  generalize hbefore : call.stage = before at h
  cases h with
  | refused unfit => cases failed; exact unfit
  | hit | miss | join | acquire | filled | absent | received | placed => cases failed
  | unreceived hfailed =>
    rw [t.receive_ok s sharing present hbefore fits smooth whole] at hfailed
    cases hfailed
  | unplaced hfailed =>
    obtain ⟨after, hmoved⟩ := t.settle_ok s present hbefore smooth
    rw [hmoved] at hfailed
    cases hfailed
  | release => exact t.faults present (by rw [hbefore]; exact failed)
  | leave => exact t.faults present (by rw [hbefore]; exact failed)

/-- Folders stand above the databases only. -/
theorem folders_step {p : Path} (folder : after.directory.node? p = some .folder) :
    p.length ≤ 2 := by
  generalize hbefore : call.stage = before at h
  cases h with
  | refused | hit | miss | join | acquire | filled | absent | release | leave =>
    exact t.folders folder
  | unreceived hfailed =>
    rw [t.receive_ok s sharing present hbefore fits smooth whole] at hfailed
    cases hfailed
  | received hwhole =>
    rcases Download.folder_receive_of_ok hwhole folder with old | onWay
    · exact t.folders old
    · have hle := onWay.length_le
      rwa [dropLast_place, List.length_cons, List.length_cons, List.length_nil] at hle
  | unplaced hfailed =>
    obtain ⟨after, hmoved⟩ := t.settle_ok s present hbefore smooth
    rw [hmoved] at hfailed
    cases hfailed
  | placed moved =>
    have hstands := s.stands present
    simp only [Stands, hbefore] at hstands
    exact t.folders (Download.folder_settle_of_ok moved (ne_nil_of_dropLast_eq hstands.2.2.1)
      (place_ne_nil _) folder)

/-- Each file is a database or the temporary file of a call. -/
theorem files_step {p : Path} {bytes : Bytes} (file : after.directory.file? p = some bytes) :
    (∃ id, p = place id) ∨ ∃ (j : Nat) (other : Call) (lock size : Nat),
      (crowd.calls.set i { call with stage := stage })[j]? = some other ∧
        other.stage = .placing lock p size := by
  -- a temporary file that stays is that of another call
  have hstay : (∀ lock size, call.stage ≠ .placing lock p size) →
      crowd.cache.directory.file? p = some bytes →
      (∃ id, p = place id) ∨ ∃ (j : Nat) (other : Call) (lock size : Nat),
        (crowd.calls.set i { call with stage := stage })[j]? = some other ∧
          other.stage = .placing lock p size := by
    intro hne hold
    rcases t.files hold with hplace | ⟨j, other, lock, size, hj, hstage⟩
    · exact .inl hplace
    · refine .inr ⟨j, other, lock, size, ?_, hstage⟩
      rw [getElem?_set_of_present present, if_neg, hj]
      rintro rfl
      rw [present] at hj
      cases hj
      exact hne lock size hstage
  generalize hbefore : call.stage = before at h hstay
  cases h with
  | refused | hit | miss | join | acquire | filled | absent | release | leave =>
    exact hstay (fun _ _ heq => by cases heq) file
  | unreceived hfailed =>
    rw [t.receive_ok s sharing present hbefore fits smooth whole] at hfailed
    cases hfailed
  | @received lock size hwhole =>
    have hfile := (Download.file?_receive_of_ok hwhole p).symm.trans file
    split at hfile
    next htemp =>
      subst htemp
      refine .inr ⟨i, { call with stage := _ }, lock, size, ?_, rfl⟩
      rw [getElem?_set_of_present present, if_pos rfl]
    next => exact hstay (fun _ _ heq => by cases heq) hfile
  | unplaced hfailed =>
    obtain ⟨after, hmoved⟩ := t.settle_ok s present hbefore smooth
    rw [hmoved] at hfailed
    cases hfailed
  | placed moved =>
    have hstands := s.stands present
    simp only [Stands, hbefore] at hstands
    have hfile := (Download.file?_settle_of_ok moved (ne_nil_of_dropLast_eq hstands.2.2.1)
      (place_ne_nil _) p).symm.trans file
    split at hfile
    next hplace => exact .inl ⟨_, hplace⟩
    next =>
      split at hfile
      next => cases hfile
      next htemp =>
        refine hstay (fun _ _ heq => ?_) hfile
        cases heq
        exact htemp rfl

/-- Who has asked the archive holds the temporary file or has brought the database. -/
theorem asked_step {r : Request}
    (hr : r ∈ requests (⟨crowd, .step i conditions delivery⟩ :: moments)) :
    ∃ other, (crowd.calls.set i { call with stage := stage })[r.caller]? = some other ∧
      other.key = r.key ∧ check other.identity = .ok () ∧
      (r.key ∈ (landings (⟨crowd, .step i conditions delivery⟩ :: moments)).map Landing.key ∨
        ∃ lock temporary size, other.stage = .placing lock temporary size) := by
  rw [requests_cons, List.mem_append, Option.mem_toList] at hr
  rw [landings_cons, List.map_append, getElem?_set_of_present present]
  rcases hr with hr | hr
  · -- the request of this step
    rcases h.request present with ⟨hnone, -⟩ | ⟨hsome, -, lock, hbefore⟩
    · rw [hnone] at hr
      cases hr
    · rw [hsome] at hr
      cases hr
      have hstands := s.stands present
      simp only [Stands, hbefore] at hstands
      refine ⟨_, if_pos rfl, rfl, hstands.1, .inr ?_⟩
      rw [hbefore] at h
      cases h with
      | unreceived hfailed =>
        rw [t.receive_ok s sharing present hbefore fits smooth whole] at hfailed
        cases hfailed
      | received => exact ⟨_, _, _, rfl⟩
  · obtain ⟨other, hother, hkey, hcheck, hcase⟩ := t.asked hr
    by_cases heq : r.caller = i
    · rw [heq, present] at hother
      cases hother
      refine ⟨_, if_pos heq, hkey, hcheck, .inl (List.mem_append.2 ?_)⟩
      rcases hcase with hlanded | ⟨lock, temporary, size, hbefore⟩
      · exact .inr hlanded
      · left
        obtain ⟨after, hmoved⟩ := t.settle_ok s present hbefore smooth
        obtain ⟨id, before⟩ := call
        obtain rfl : before = .placing lock temporary size := hbefore
        have hlanding : Moment.landing? ⟨crowd, .step i conditions delivery⟩
            = some ⟨i, relativePath id⟩ := by
          simp only [Moment.landing?, present, hmoved]
        rw [hlanding]
        exact List.mem_singleton.2 hkey.symm
    · refine ⟨other, by rw [if_neg heq, hother], hkey, hcheck, ?_⟩
      rcases hcase with hlanded | hplacing
      · exact .inl (List.mem_append_right _ hlanded)
      · exact .inr hplacing

omit fits smooth whole in
/-- The archive is not asked twice for a key. -/
theorem once_step :
    ((requests (⟨crowd, .step i conditions delivery⟩ :: moments)).map Request.key).Nodup := by
  rw [requests_cons]
  rcases h.request present with ⟨hnone, -⟩ | ⟨hsome, -, lock, hbefore⟩
  · rw [hnone]
    exact t.once
  · rw [hsome]
    refine List.nodup_cons.2 ⟨fun hmem => ?_, t.once⟩
    obtain ⟨r, hr, hkey⟩ := List.mem_map.1 hmem
    obtain ⟨other, hother, hkey', -, hcase⟩ := t.asked hr
    have hstands := s.stands present
    simp only [Stands, hbefore] at hstands
    rcases hcase with hlanded | ⟨lock', temporary, size, hstage⟩
    · -- the database that came is there, but this call did not find it
      obtain ⟨l, hl, hlkey⟩ := List.mem_map.1 hlanded
      obtain ⟨id, hcheck, hidkey, bytes, hfile⟩ := s.landed hl
      have hplace := (place_eq_iff hcheck hstands.1).2 (hidkey.trans (hlkey.trans hkey))
      rw [hplace, hstands.2] at hfile
      cases hfile
    · have heq := sharing.eq_of_holds hother present (by rw [hstage]; rfl) (by rw [hbefore]; rfl)
        (hkey'.trans hkey)
      rw [heq, present] at hother
      cases hother
      rw [hbefore] at hstage
      cases hstage

/-- A step in which nothing fails keeps the cache tidy. -/
theorem step {following : Crowd} (hcache : following.cache = after)
    (hcalls : following.calls = crowd.calls.set i { call with stage := stage }) :
    Tidy (⟨crowd, .step i conditions delivery⟩ :: moments) following := by
  constructor
  case folders =>
    intro p hp
    rw [hcache] at hp
    exact t.folders_step s sharing present fits smooth whole h hp
  case files =>
    intro p bytes hp
    rw [hcache] at hp
    rw [hcalls]
    exact t.files_step s sharing present fits smooth whole h hp
  case faults =>
    intro j other fault hj hfault
    rw [hcalls, getElem?_set_of_present present] at hj
    split at hj
    next => cases hj; exact t.faults_step s sharing present fits smooth whole h hfault
    next => exact t.faults hj hfault
  case asked =>
    intro r hr
    rw [hcalls]
    exact t.asked_step s sharing present fits smooth whole h hr
  case once => exact t.once_step s sharing present h

end Step

end Tidy

/-- A history in which nothing fails has no outsiders. -/
theorem Moment.Smooth.undisturbed {m : Moment} (h : m.Smooth) : m.Undisturbed := by
  obtain ⟨crowd, move⟩ := m
  cases move with
  | step => trivial
  | outside => exact h.elim

/-- A history in which nothing fails keeps the cache tidy. -/
theorem History.tidy {root : String} {ids : List Identity} {moments : List Moment} {crowd : Crowd}
    (h : History (Crowd.start (.empty root) ids) moments crowd)
    (smooth : ∀ m ∈ moments, m.Smooth) : Tidy moments crowd := by
  induction h with
  | start => exact Tidy.start root ids
  | @step moments crowd after i call conditions delivery before present fits taken ih =>
    have hearlier : ∀ m ∈ moments, m.Smooth := fun m hm => smooth m (List.mem_cons_of_mem _ hm)
    have hstored := before.stored fun m hm => (hearlier m hm).undisturbed
    obtain ⟨call', stage, hcall, hcalls, htrans⟩ := Crowd.exists_transition_of_step taken
    rw [present] at hcall
    cases hcall
    obtain ⟨hwhole, hsmooth⟩ := smooth _ List.mem_cons_self
    exact (ih hearlier).step hstored (before.sharing (Sharing.start ids)) present fits
      (hsmooth call present) hwhole htrans rfl hcalls
  | outside before directory ih => exact (smooth _ List.mem_cons_self).elim

end OffsetService.Cache
