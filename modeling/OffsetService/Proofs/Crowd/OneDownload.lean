import OffsetService.Proofs.Crowd.Smooth

/-!
# Calls at the same time share one download

`calls_share_one_download` is what a crowd promises, for any number of calls, any order of their
steps, any failures and any deliveries: two calls for one key never hold its lock together, and no
crowd is stuck. While nobody outside touches cached files, a database comes to its place once, no
call fetches what is there, and every call that succeeds names the one file and finds its bytes.
Where nothing fails, the archive is asked once for each key.
-/

namespace OffsetService.Cache

open Archive (check relativePath)

variable {root : String} {first : Directory} {ids : List Identity} {moments : List Moment}
  {crowd : Crowd}

/-- Where nothing fails and all calls have ended, every call for an identity with a place has
succeeded, and the archive was asked for the keys of these identities and no others. -/
theorem History.requested_iff (h : History (Crowd.start (.empty root) ids) moments crowd)
    (smooth : ∀ m ∈ moments, m.Smooth)
    (ended : ∀ call ∈ crowd.calls, ∃ outcome, call.stage = .done outcome) :
    (∀ call ∈ crowd.calls, check call.identity = .ok () →
      ∃ path, call.stage = .done (.ok path)) ∧
    ∀ key, key ∈ (requests moments).map Request.key ↔
      ∃ id ∈ ids, check id = .ok () ∧ relativePath id = key := by
  have hstored := h.stored fun m hm => (smooth m hm).undisturbed
  have htidy := h.tidy smooth
  have hids : crowd.calls.map Call.identity = ids := by
    rw [h.identities]
    simp [Crowd.start, Call.new, Function.comp_def]
  have hended : ∀ call ∈ crowd.calls, check call.identity = .ok () →
      ∃ path, call.stage = .done (.ok path) := by
    intro call hmem hcheck
    obtain ⟨i, hi⟩ := List.getElem?_of_mem hmem
    obtain ⟨outcome, hdone⟩ := ended call hmem
    cases outcome with
    | ok path => exact ⟨path, hdone⟩
    | error fault =>
      have hfault : check call.identity = .error fault := htidy.faults hi (by rw [hdone]; rfl)
      rw [hcheck] at hfault
      cases hfault
  refine ⟨hended, fun key => ⟨fun hkey => ?_, ?_⟩⟩
  · obtain ⟨r, hr, rfl⟩ := List.mem_map.1 hkey
    obtain ⟨call, hcall, hkey, hcheck, -⟩ := htidy.asked hr
    have hmem : call.identity ∈ crowd.calls.map Call.identity :=
      List.mem_map_of_mem (List.mem_of_getElem? hcall)
    rw [hids] at hmem
    exact ⟨call.identity, hmem, hcheck, hkey⟩
  · rintro ⟨id, hid, hcheck, rfl⟩
    rw [← hids] at hid
    obtain ⟨call, hmem, rfl⟩ := List.mem_map.1 hid
    obtain ⟨path, hdone⟩ := hended call hmem hcheck
    obtain ⟨i, hi⟩ := List.getElem?_of_mem hmem
    have hstands := hstored.stands hi
    simp only [Stands, hdone] at hstands
    obtain ⟨-, -, bytes, hbytes⟩ := hstands path rfl
    rcases hstored.origin hcheck hbytes with ⟨hempty, -⟩ | ⟨-, caller, delivery, -, hr, -⟩
    · cases hempty
    · exact List.mem_map.2 ⟨_, hr, rfl⟩

/-- **Calls at the same time.** Whatever happens, at most one call holds the lock of a key, some
call has a step while one has not ended, and no call asks the archive twice. While nobody outside
touches cached files, each database comes to its place at most once, no call fetches a database that
is there, and a call that succeeds has the path of its database, where the bytes are those that were
there at first or those of the one download. In an empty cache where nothing fails, no key is asked
for twice, and when the calls have ended, which takes them eight steps each at most, those with a
place have all succeeded and the archive was asked for exactly their keys. -/
theorem calls_share_one_download
    (h : History (Crowd.start ⟨root, first, .empty, 0⟩ ids) moments crowd) :
    (∀ (i j : Nat) (call other : Call), crowd.calls[i]? = some call →
      crowd.calls[j]? = some other → call.stage.holds = true → other.stage.holds = true →
      call.key = other.key → i = j) ∧
    ((∃ call ∈ crowd.calls, ∀ outcome, call.stage ≠ .done outcome) →
      ∃ i, ∀ conditions delivery, (crowd.step conditions delivery i).isSome = true) ∧
    ((requests moments).map Request.caller).Nodup ∧
    ((∀ m ∈ moments, m.Undisturbed) →
      ((landings moments).map Landing.key).Nodup ∧
      (∀ m ∈ moments, ∀ call, m.fetcher? = some call →
        m.crowd.cache.directory.file? (place call.identity) = none) ∧
      ∀ call ∈ crowd.calls, ∀ path, call.stage = .done (.ok path) →
        path = Archive.join root call.key ∧
        ∃ bytes, crowd.cache.directory.file? (place call.identity) = some bytes ∧
          Origin first moments call.identity bytes) ∧
    (first = .empty → (∀ m ∈ moments, m.Smooth) →
      ((requests moments).map Request.key).Nodup ∧
      crowd.cache.fetches = (requests moments).length ∧
      moments.length ≤ 8 * ids.length ∧
      ((∀ call ∈ crowd.calls, ∃ outcome, call.stage = .done outcome) →
        (∀ call ∈ crowd.calls, check call.identity = .ok () →
          ∃ path, call.stage = .done (.ok path)) ∧
        ∀ key, key ∈ (requests moments).map Request.key ↔
          ∃ id ∈ ids, check id = .ok () ∧ relativePath id = key)) := by
  have hsharing : Sharing crowd.cache.locks crowd.calls := h.sharing (Sharing.start ids)
  refine ⟨fun i j call other hi hj => hsharing.eq_of_holds hi hj, fun hrunning => ?_,
    h.callers_nodup, fun hundisturbed => ?_, fun hempty hsmooth => ?_⟩
  · obtain ⟨i, call, hi, hstep⟩ := hsharing.exists_step hrunning
    refine ⟨i, fun conditions delivery => ?_⟩
    simp only [Crowd.step, hi, Option.isSome_map]
    exact Option.isSome_iff_ne_none.2 (hstep conditions delivery crowd.cache rfl)
  · have hstored := h.stored hundisturbed
    refine ⟨hstored.once, fun m hm call => hstored.missing hm, fun call hmem path hdone => ?_⟩
    obtain ⟨i, hi⟩ := List.getElem?_of_mem hmem
    have hstands := hstored.stands hi
    simp only [Stands, hdone] at hstands
    obtain ⟨hcheck, hpath, bytes, hbytes⟩ := hstands path rfl
    rw [localPath, h.root] at hpath
    exact ⟨hpath, bytes, hbytes, hstored.origin hcheck hbytes⟩
  · subst hempty
    have htidy := h.tidy hsmooth
    refine ⟨htidy.once, by simpa [Crowd.start] using h.fetches, ?_,
      fun hended => h.requested_iff hsmooth hended⟩
    have hlength := h.length_le fun m hm directory hmove => ?_
    · simpa [Crowd.start] using hlength
    · have hsmooth' := hsmooth m hm
      simp [Moment.Smooth, hmove] at hsmooth'

/-- The name and the unique id of a module that many calls ask for. -/
def popular : Identity := ⟨"ntkrnlmp.pdb", "3844DBB920174967BE7AA4A2C20430FA", 2⟩

/-- Files without any trouble. -/
def untroubled : Conditions := ⟨".download-0.tmp", fun _ => none, none, none, none, none⟩

/-- Two calls find the file missing and share the lock; while one fetches, the other waits, and then
finds the file. The archive is asked once. -/
theorem two_calls_one_request :
    ∃ moments crowd, History (Crowd.start (.empty "cache") [popular, popular]) moments crowd ∧
      (∀ m ∈ moments, m.Smooth) ∧
      (∀ call ∈ crowd.calls, ∃ path, call.stage = .done (.ok path)) ∧
      (requests moments).map Request.key = [relativePath popular] ∧ crowd.cache.fetches = 1 := by
  have hcheck : check popular = .ok () := by
    refine Archive.check_eq_ok_iff.2 ⟨?_, ?_, ?_⟩ <;> decide +kernel
  have hends : ((Crowd.start (.empty "cache") [popular, popular]).follow untroubled
      (.complete [1, 2, 3]) [0, 1, 0, 1, 0, 0, 0, 0, 0, 1, 0, 1, 1, 1]).any
      (fun crowd => crowd.calls.all fun call => call.stage.rank == 8) = true := by
    decide +kernel
  obtain ⟨crowd, htaken, hrank⟩ := (Option.any_eq_true _ _).1 hends
  have hplain : ∀ call ∈ [popular, popular].map Call.new, call.identity = popular := by
    intro call hmem
    simp only [List.map_cons, List.map_nil, List.mem_cons, List.not_mem_nil, or_false] at hmem
    rcases hmem with rfl | rfl <;> rfl
  obtain ⟨moments, hist, hmoves⟩ := History.start.follow htaken fun call hmem => by
    rw [hplain call hmem]
    unfold Conditions.Fits
    decide +kernel
  rw [List.append_nil] at hist
  have hsmooth : ∀ m ∈ moments, m.Smooth := by
    rintro ⟨earlier, move⟩ hm
    obtain ⟨caller, rfl⟩ := hmoves _ hm
    exact ⟨rfl, fun call _ => ⟨fun _ _ => rfl, rfl, rfl, rfl, rfl⟩⟩
  have hended : ∀ call ∈ crowd.calls, ∃ outcome, call.stage = .done outcome := by
    intro call hmem
    exact Stage.exists_done_of_rank (by simpa using List.all_eq_true.1 hrank call hmem)
  obtain ⟨-, -, -, -, halone⟩ := calls_share_one_download hist
  obtain ⟨honce, hfetches, -, hall⟩ := halone rfl hsmooth
  obtain ⟨hok, hkeys⟩ := hall hended
  have hrequests : (requests moments).map Request.key = [relativePath popular] := by
    refine List.perm_singleton.1 ((List.perm_ext_iff_of_nodup honce (by simp)).2 ?_)
    intro key
    rw [hkeys]
    constructor
    · rintro ⟨id, hid, -, rfl⟩
      simp only [List.mem_cons, List.not_mem_nil, or_false, or_self] at hid
      rw [hid]
      exact List.mem_singleton_self _
    · intro hkey
      exact ⟨popular, List.mem_cons_self, hcheck, (List.mem_singleton.1 hkey).symm⟩
  refine ⟨moments, crowd, hist, hsmooth, fun call hmem => hok call hmem ?_, hrequests, ?_⟩
  · have hid : call.identity ∈ crowd.calls.map Call.identity := List.mem_map_of_mem hmem
    rw [hist.identities] at hid
    obtain ⟨call', hmem', heq⟩ := List.mem_map.1 hid
    rw [← heq, hplain call' hmem', hcheck]
  · have hlength := congrArg List.length hrequests
    rw [List.length_map] at hlength
    rw [hfetches, hlength]
    rfl

end OffsetService.Cache
