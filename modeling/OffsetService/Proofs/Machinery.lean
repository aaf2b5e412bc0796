import OffsetService.Gateway
import OffsetService.Proofs.Crowd.Transition
import OffsetService.Proofs.LockTable

/-!
# The program of a call, in a cache

The program that the service runs on its files also runs on the folder tree and the locks of a
cache, which make a machinery of their own (`Cache.machinery`). There its steps are those of
`Call.step` (`step_eq_advance`), so what crowds do is what runs of the program do together. The run
of one call is a way that a crowd can go (`reaches_of_run_complete`), a call alone does what
`ensureUnder` does (`run_complete_eq_ensureUnder`), and requests are handled as `handleIn` handles
them (`Gateway.run_handleBy`).
-/

namespace OffsetService

/-! ## Entries -/

/-- Of two values that are put at one key, the later one stays. -/
theorem Entries.put_put {κ α : Type} [BEq κ] [LawfulBEq κ] (key : κ) (value other : α)
    (entries : List (κ × α)) : put key value (put key other entries) = put key value entries := by
  have htwice : erase key (put key other entries) = erase key entries := by
    simp [put, erase, List.filter_filter]
  rw [put, htwice, put]

theorem Directory.put_put (d : Directory) (path : Path) (node other : Node) :
    (d.put path other).put path node = d.put path node :=
  congrArg Directory.mk (Entries.put_put path node other d.nodes)

/-! ## The machinery of a cache -/

namespace Cache

/-- What a call with a number can do in a cache, under given conditions and with a given delivery.
There is no result while the call must wait. -/
def machinery (conditions : Conditions) (delivery : Delivery) (caller : Nat) :
    Machinery (StateT Cache Option) where
  isFile path := fun cache => some (cache.directory.isFile path, cache)
  file? path := fun cache => some (cache.directory.file? path, cache)
  join key := fun cache =>
    let (locks, lock) := cache.locks.join key
    some (lock, { cache with locks := locks })
  acquire lock := fun cache =>
    (cache.locks.acquire lock caller).map fun locks => ((), { cache with locks := locks })
  release lock := fun cache => some ((), { cache with locks := cache.locks.release lock })
  leave key lock := fun cache => some ((), { cache with locks := cache.locks.leave key lock })
  makeFolders path := fun cache =>
    let (made, outcome) := cache.directory.createFolders conditions.folder [] path
    some (outcome, { cache with directory := made })
  makeTemporary folder := fun cache =>
    let temporary := folder ++ [conditions.tempName]
    match conditions.temp <|> (cache.directory.node? temporary).map fun _ => .alreadyThere with
    | some cause => some (.error cause, cache)
    | none =>
      some (.ok temporary, { cache with directory := cache.directory.put temporary (.file []) })
  fill temporary _ := fun cache =>
    let outcome := delivery.fault.elim (.ok delivery.written.length) .error
    some (⟨delivery.events, outcome⟩, { cache with
      directory := cache.directory.put temporary (.file delivery.written)
      fetches := cache.fetches + 1 })
  secure _ := fun cache => some ((conditions.flush <|> conditions.sync).elim (.ok ()) .error, cache)
  rename source target := fun cache =>
    match conditions.rename with
    | some cause => some (.error cause, cache)
    | none =>
      match cache.directory.rename source target with
      | (moved, .ok ()) => some (.ok (), { cache with directory := moved })
      | (_, .error cause) => some (.error cause, cache)
  erase path := fun cache => some ((), { cache with directory := cache.directory.erase path })

variable (conditions : Conditions) (delivery : Delivery) (caller : Nat)

/-- What follows a step that has a result. -/
theorem run_bind_of_eq {α β : Type} {step : StateT Cache Option α} {cache after : Cache} {a : α}
    (h : step.run cache = some (a, after)) (next : α → StateT Cache Option β) :
    (step >>= next).run cache = (next a).run after := by
  rw [StateT.run_bind, h]
  rfl

theorem run_isFile (path : Path) (cache : Cache) :
    ((machinery conditions delivery caller).isFile path).run cache
      = some (cache.directory.isFile path, cache) := rfl

theorem run_makeFolders {cache : Cache} {path : Path} {made : Directory}
    {outcome : Except FileCause Unit}
    (h : cache.directory.createFolders conditions.folder [] path = (made, outcome)) :
    ((machinery conditions delivery caller).makeFolders path).run cache
      = some (outcome, { cache with directory := made }) := by
  show some _ = _
  rw [h]

/-- Why the temporary file cannot be made. -/
def obstacle? (d : Directory) (target : Path) : Option FileCause :=
  conditions.temp <|> (d.node? (conditions.temporary target)).map fun _ => .alreadyThere

theorem run_makeTemporary (cache : Cache) (target : Path) :
    ((machinery conditions delivery caller).makeTemporary target.dropLast).run cache
      = match obstacle? conditions cache.directory target with
        | some cause => some (.error cause, cache)
        | none => some (.ok (conditions.temporary target), { cache with
            directory := cache.directory.put (conditions.temporary target) (.file []) }) :=
  rfl

/-- The cache after the archive was asked. -/
def filled (temporary : Path) (cache : Cache) : Cache :=
  { cache with
    directory := cache.directory.put temporary (.file delivery.written)
    fetches := cache.fetches + 1 }

theorem run_fill (id : Identity) (temporary : Path) (cache : Cache) (node : Node) :
    ((machinery conditions delivery caller).fill temporary id).run
        { cache with directory := cache.directory.put temporary node }
      = some (⟨delivery.events, delivery.fault.elim (.ok delivery.written.length) .error⟩,
        filled delivery temporary cache) := by
  show some _ = _
  rw [Directory.put_put]
  rfl

theorem run_secure (path : Path) (cache : Cache) :
    ((machinery conditions delivery caller).secure path).run cache
      = some ((conditions.flush <|> conditions.sync).elim (.ok ()) .error, cache) := rfl

/-- Receiving on the machinery of a cache is receiving in its folder tree. -/
theorem run_receiveBy (id : Identity) (target : Path) (cache : Cache) :
    (Download.receiveBy (machinery conditions delivery caller) id target).run cache
      = let got := Download.receive conditions delivery id.name cache.directory target
        some (⟨got.events, got.outcome.map fun size => (conditions.temporary target, size)⟩,
          received cache got) := by
  rw [Download.receiveBy, Download.receive]
  rcases hfolders : cache.directory.createFolders conditions.folder [] target.dropLast with
    ⟨made, cause | ⟨⟩⟩
  · rw [run_bind_of_eq (run_makeFolders conditions delivery caller hfolders)]
    rfl
  rw [run_bind_of_eq (run_makeFolders conditions delivery caller hfolders)]
  dsimp only
  have htemporary :=
    run_makeTemporary conditions delivery caller { cache with directory := made } target
  rw [← obstacle?]
  cases hobstacle : obstacle? conditions made target with
  | some cause =>
    rw [hobstacle] at htemporary
    rw [run_bind_of_eq htemporary]
    rfl
  | none =>
    rw [hobstacle] at htemporary
    rw [run_bind_of_eq htemporary, run_bind_of_eq (run_fill conditions delivery caller ..)]
    cases hfault : delivery.fault with
    | some fault => rfl
    | none =>
      rw [Option.elim_none]
      dsimp only
      rw [run_bind_of_eq (run_secure conditions delivery caller ..)]
      cases conditions.flush <|> conditions.sync with
      | some cause => rfl
      | none => rfl

theorem run_settleBy (temporary target : Path) (cache : Cache) :
    (Download.settleBy (machinery conditions delivery caller) temporary target).run cache
      = let settled := Download.settle conditions.rename cache.directory temporary target
        some (settled.2, { cache with directory := settled.1 }) := by
  have hrename : ((machinery conditions delivery caller).rename temporary target).run cache
      = match conditions.rename with
        | some cause => some (.error cause, cache)
        | none =>
          match cache.directory.rename temporary target with
          | (moved, .ok ()) => some (.ok (), { cache with directory := moved })
          | (_, .error cause) => some (.error cause, cache) := rfl
  rw [Download.settleBy, StateT.run_bind, hrename]
  unfold Download.settle
  cases conditions.rename with
  | some cause => rfl
  | none => rcases cache.directory.rename temporary target with ⟨moved, cause | ⟨⟩⟩ <;> rfl

/-! ## Steps -/

/-- A step of a call in a cache is the step of its program on the machinery of the cache. -/
theorem step_eq_advance (call : Call) (cache : Cache) :
    call.step conditions delivery caller cache
      = match Call.advance (machinery conditions delivery caller) cache.root call.identity
            call.stage with
        | .ended _ => none
        | .goes step => (step.run cache).map fun (went, after) =>
            (after, ⟨call.identity, went.1.1⟩, went.2) := by
  obtain ⟨id, stage⟩ := call
  rw [Call.step]
  cases stage with
  | arriving =>
    dsimp only
    rw [Call.advance]
    cases Archive.check id with
    | error fault => rfl
    | ok done =>
      dsimp only
      rw [run_bind_of_eq (run_isFile conditions delivery caller (place id) cache)]
      cases cache.directory.isFile (place id) <;> rfl
  | joining => rfl
  | waiting lock =>
    dsimp only
    rw [Call.advance]
    dsimp only
    rw [StateT.run_bind]
    show _ = Option.map _ (((cache.locks.acquire lock caller).map fun locks =>
      ((), { cache with locks := locks })).bind _)
    cases cache.locks.acquire lock caller <;> rfl
  | checking lock =>
    dsimp only
    rw [Call.advance]
    dsimp only
    rw [run_bind_of_eq (run_isFile conditions delivery caller (place id) cache)]
    cases cache.directory.isFile (place id) <;> rfl
  | fetching lock =>
    have hfolder : Archive.hasFolder (Call.advance.path cache.root id) = true :=
      hasFolder_localPath cache id
    dsimp only
    rw [Call.advance, if_pos (hasFolder_localPath cache id), if_pos hfolder]
    dsimp only
    rw [StateT.run_bind, run_receiveBy]
    rcases Download.receive conditions delivery id.name cache.directory (place id) with
      ⟨directory, asked, events, fault | size⟩ <;> rfl
  | placing lock temporary size =>
    dsimp only
    rw [Call.advance]
    dsimp only
    rw [StateT.run_bind, run_settleBy]
    rcases Download.settle conditions.rename cache.directory temporary (place id) with
      ⟨directory, fault | ⟨⟩⟩ <;> rfl
  | releasing lock outcome => rfl
  | leaving lock outcome => rfl
  | done outcome => rfl

/-! ## Runs -/

variable {conditions delivery caller}

/-- A step of a call begins the run of its program. -/
theorem run_complete_of_step {id : Identity} {stage later : Stage} {cache after : Cache}
    {events : List Event}
    (h : Call.step conditions delivery caller cache ⟨id, stage⟩ = some (after, ⟨id, later⟩, events))
    (root : String) (hroot : cache.root = root) (before : List Event) :
    (Call.complete (machinery conditions delivery caller) root id stage before).run cache
      = (Call.complete (machinery conditions delivery caller) root id later
          (before ++ events)).run after := by
  subst hroot
  rw [step_eq_advance] at h
  rw [Call.complete]
  dsimp only at h
  cases hadvance : Call.advance (machinery conditions delivery caller) cache.root id stage with
  | ended outcome =>
    rw [hadvance] at h
    cases h
  | goes step =>
    rw [hadvance] at h
    obtain ⟨⟨⟨went, events⟩, mid⟩, hstep, heq⟩ := Option.map_eq_some_iff.1 h
    cases heq
    exact run_bind_of_eq hstep _

theorem run_complete_done (root : String) (id : Identity) (outcome : Except Fault String)
    (before : List Event) (cache : Cache) :
    (Call.complete (machinery conditions delivery caller) root id (.done outcome) before).run cache
      = some (⟨before, outcome⟩, cache) := by
  rw [Call.complete]
  rfl

/-- A run that has a result is at its end or begins with a step. -/
theorem done_or_step_of_run_complete {id : Identity} {stage : Stage} {cache : Cache}
    {before : List Event} {result : Traced String × Cache}
    (h : (Call.complete (machinery conditions delivery caller) cache.root id stage before).run cache
      = some result) :
    (∃ outcome, stage = .done outcome ∧ result = (⟨before, outcome⟩, cache)) ∨
      ∃ after later events, Call.step conditions delivery caller cache ⟨id, stage⟩
          = some (after, ⟨id, later⟩, events) ∧
        (Call.complete (machinery conditions delivery caller) cache.root id later
          (before ++ events)).run after = some result := by
  rw [Call.complete] at h
  cases hadvance : Call.advance (machinery conditions delivery caller) cache.root id stage with
  | ended outcome =>
    rw [hadvance] at h
    cases stage <;> cases hadvance
    exact .inl ⟨_, rfl, (Option.some.inj h).symm⟩
  | goes step =>
    rw [hadvance] at h
    obtain ⟨⟨⟨later, events⟩, after⟩, hstep, hrest⟩ := Option.bind_eq_some_iff.1 h
    refine .inr ⟨after, later.1, events, ?_, hrest⟩
    rw [step_eq_advance, hadvance]
    exact congrArg (Option.map _) hstep

/-- What one call does from where it stands to its end, its program does on the machinery of the
cache. -/
theorem reaches_of_run_complete {crowd : Crowd} {call : Call}
    (present : crowd.calls[caller]? = some call) (fits : conditions.Fits (place call.identity))
    {done : Traced String} {after : Cache}
    (h : (Call.complete (machinery conditions delivery caller) crowd.cache.root call.identity
      call.stage crowd.events).run crowd.cache = some (done, after)) :
    Crowd.Reaches crowd
      ⟨after, crowd.calls.set caller ⟨call.identity, .done done.outcome⟩, done.events⟩ := by
  obtain ⟨cache, calls, before⟩ := crowd
  obtain ⟨id, stage⟩ := call
  dsimp only at present fits h ⊢
  -- every step comes closer to the last stage
  induction hleft : 8 - stage.rank using Nat.strongRecOn generalizing cache calls before stage with
  | ind left ih =>
    rcases done_or_step_of_run_complete h with ⟨outcome, rfl, heq⟩ | ⟨mid, later, events, hstep, h⟩
    · cases heq
      obtain ⟨hlt, hcall⟩ := List.getElem?_eq_some_iff.1 present
      rw [← hcall, List.set_getElem_self]
      exact .refl _
    · obtain ⟨stage', hlater, htrans⟩ := Call.transition_of_step hstep
      cases hlater
      have hrank := htrans.rank_lt
      have hlast := Stage.rank_le later
      have hpresent : (calls.set caller ⟨id, later⟩)[caller]? = some ⟨id, later⟩ :=
        List.getElem?_set_self (List.getElem?_eq_some_iff.1 present).1
      rw [← htrans.root] at h
      have hrest := ih (8 - later.rank) (by dsimp only at hrank; omega) mid
        (calls.set caller ⟨id, later⟩) (before ++ events) later hpresent h rfl
      rw [List.set_set] at hrest
      have htaken : Crowd.step conditions delivery caller ⟨cache, calls, before⟩
          = some ⟨mid, calls.set caller ⟨id, later⟩, before ++ events⟩ := by
        rw [Crowd.step]
        dsimp only
        rw [present]
        exact congrArg (Option.map _) hstep
      exact (Crowd.Next.step present fits htaken).reaches.trans hrest

/-! ## One call alone -/

/-- A call that knows its outcome lets go of its lock and leaves it. -/
theorem run_complete_releasing (cache : Cache) (id : Identity) (lock : Nat)
    (outcome : Except Fault String) (before : List Event) {root : String}
    (hroot : cache.root = root) :
    ∃ locks, (Call.complete (machinery conditions delivery caller) root id
        (.releasing lock outcome) before).run cache
      = some (⟨before, outcome⟩, { cache with locks := locks }) := by
  have hrelease : Call.step conditions delivery caller cache ⟨id, .releasing lock outcome⟩
      = some ({ cache with locks := cache.locks.release lock }, ⟨id, .leaving lock outcome⟩, []) :=
    rfl
  have hleave : Call.step conditions delivery caller
        { cache with locks := cache.locks.release lock } ⟨id, .leaving lock outcome⟩
      = some ({ cache with
          locks := (cache.locks.release lock).leave (Archive.relativePath id) lock },
        ⟨id, .done outcome⟩, []) := rfl
  refine ⟨(cache.locks.release lock).leave (Archive.relativePath id) lock, ?_⟩
  rw [run_complete_of_step hrelease root hroot, run_complete_of_step hleave root hroot,
    run_complete_done, List.append_nil, List.append_nil]

/-- A call whose temporary file is complete does what the end of a download does. -/
theorem run_complete_placing (cache : Cache) (id : Identity) (lock : Nat) (temporary : Path)
    (size : Nat) (before : List Event) {settled : Directory} {outcome : Except Fault Unit}
    (hsettled : Download.settle conditions.rename cache.directory temporary (place id)
      = (settled, outcome)) {root : String} (hroot : cache.root = root) :
    ∃ locks, (Call.complete (machinery conditions delivery caller) root id
        (.placing lock temporary size) before).run cache
      = some (⟨before ++ if outcome.isOk then [.cached (cache.localPath id) size] else [],
          outcome.map fun _ => cache.localPath id⟩,
        { cache with directory := settled, locks := locks }) := by
  have hstep : Call.step conditions delivery caller cache ⟨id, .placing lock temporary size⟩
      = some ({ cache with directory := settled },
        ⟨id, .releasing lock (outcome.map fun _ => cache.localPath id)⟩,
        if outcome.isOk then [.cached (cache.localPath id) size] else []) := by
    rw [Call.step]
    dsimp only
    rw [hsettled]
    rcases outcome with fault | ⟨⟩ <;> rfl
  rw [run_complete_of_step hstep root hroot]
  exact run_complete_releasing { cache with directory := settled } id lock _ _ hroot

/-- A call that fetches does what a download does. -/
theorem run_complete_fetching (cache : Cache) (id : Identity) (lock : Nat) (before : List Event)
    {root : String} (hroot : cache.root = root) :
    ∃ locks, (Call.complete (machinery conditions delivery caller) root id (.fetching lock)
        before).run cache
      = some (⟨before ++ (download conditions delivery cache id).2.events,
          (download conditions delivery cache id).2.outcome.map fun _ => cache.localPath id⟩,
        { (download conditions delivery cache id).1 with locks := locks }) := by
  have hfolder := hasFolder_localPath cache id
  rw [download, if_pos hfolder]
  rcases hgot : Download.receive conditions delivery id.name cache.directory (place id) with
    ⟨directory, asked, events, fault | size⟩
  · have hstep : Call.step conditions delivery caller cache ⟨id, .fetching lock⟩
        = some (received cache ⟨directory, asked, events, .error fault⟩,
          ⟨id, .releasing lock (.error fault)⟩, events) := by
      rw [Call.step]
      dsimp only
      rw [if_pos hfolder, hgot]
      rfl
    rw [run_complete_of_step hstep root hroot]
    exact run_complete_releasing _ id lock _ _ hroot
  · have hstep : Call.step conditions delivery caller cache ⟨id, .fetching lock⟩
        = some (received cache ⟨directory, asked, events, .ok size⟩,
          ⟨id, .placing lock (conditions.temporary (place id)) size⟩, events) := by
      rw [Call.step]
      dsimp only
      rw [if_pos hfolder, hgot]
      rfl
    rw [run_complete_of_step hstep root hroot]
    rcases hsettled : Download.settle conditions.rename directory
      (conditions.temporary (place id)) (place id) with ⟨settled, outcome⟩
    dsimp only
    rw [hsettled]
    obtain ⟨locks, hrest⟩ := run_complete_placing
      (received cache ⟨directory, asked, events, .ok size⟩) id lock
      (conditions.temporary (place id)) size (before ++ events) hsettled hroot
    refine ⟨locks, hrest.trans ?_⟩
    rw [List.append_assoc]
    rcases outcome with fault | ⟨⟩
    · rw [Except.isOk, Except.toBool, if_neg Bool.false_ne_true, List.append_nil]
      rfl
    · rfl

/-- Downloads do not look at locks. -/
theorem download_withLocks (cache : Cache) (locks : Locks) (id : Identity) :
    download conditions delivery { cache with locks := locks } id
      = ({ (download conditions delivery cache id).1 with locks := locks },
        (download conditions delivery cache id).2) := by
  rw [download, download, if_pos (hasFolder_localPath _ id), if_pos (hasFolder_localPath cache id)]
  dsimp only
  rcases Download.receive conditions delivery id.name cache.directory (place id) with
    ⟨directory, asked, events, fault | size⟩
  · rfl
  · dsimp only
    rcases Download.settle conditions.rename directory (conditions.temporary (place id)) (place id)
      with ⟨settled, fault | ⟨⟩⟩ <;> rfl

/-- A call that did not find its database, and shares the lock of its key with no other call, does
what a download does. -/
theorem run_complete_joining {cache : Cache} {id : Identity}
    (hidle : cache.locks.inFlight.get? (Archive.relativePath id) = none)
    (hmissing : ¬cache.directory.isFile (place id) = true) (before : List Event) {root : String}
    (hroot : cache.root = root) :
    ∃ locks, (Call.complete (machinery conditions delivery caller) root id .joining before).run
        cache
      = some (⟨before ++ (download conditions delivery cache id).2.events,
          (download conditions delivery cache id).2.outcome.map fun _ => cache.localPath id⟩,
        { (download conditions delivery cache id).1 with locks := locks }) := by
  obtain ⟨hnumber, -, -, hlocks⟩ := Locks.join_of_none hidle
  obtain ⟨locks, hfree⟩ : ∃ locks, (cache.locks.join (Archive.relativePath id)).1.acquire
      (cache.locks.join (Archive.relativePath id)).2 caller = some locks := by
    refine ⟨_, Locks.acquire_eq_some_iff.2 ⟨2, ?_, rfl⟩⟩
    rw [hnumber, hlocks, if_pos rfl]
  have hjoin : Call.step conditions delivery caller cache ⟨id, .joining⟩
      = some ({ cache with locks := (cache.locks.join (Archive.relativePath id)).1 },
        ⟨id, .waiting (cache.locks.join (Archive.relativePath id)).2⟩, []) := rfl
  have hacquire : Call.step conditions delivery caller
        { cache with locks := (cache.locks.join (Archive.relativePath id)).1 }
        ⟨id, .waiting (cache.locks.join (Archive.relativePath id)).2⟩
      = some ({ cache with locks := locks },
        ⟨id, .checking (cache.locks.join (Archive.relativePath id)).2⟩, []) :=
    congrArg (Option.map _) hfree
  have hchecking : Call.step conditions delivery caller { cache with locks := locks }
        ⟨id, .checking (cache.locks.join (Archive.relativePath id)).2⟩
      = some ({ cache with locks := locks },
        ⟨id, .fetching (cache.locks.join (Archive.relativePath id)).2⟩, []) := by
    rw [Call.step]
    dsimp only
    rw [if_neg hmissing]
  obtain ⟨left, hfetching⟩ := run_complete_fetching { cache with locks := locks } id
    (cache.locks.join (Archive.relativePath id)).2 before hroot
  rw [download_withLocks] at hfetching
  refine ⟨left, ?_⟩
  rw [run_complete_of_step hjoin root hroot, run_complete_of_step hacquire root hroot,
    run_complete_of_step hchecking root hroot, List.append_nil, List.append_nil, List.append_nil]
  exact hfetching

/-- Where no call shares the lock of its key, a call alone goes from its begin to its end, and does
what a call does in one step; only the numbers of locks differ. -/
theorem run_complete_eq_ensureUnder (conditions : Conditions) (delivery : Delivery) (caller : Nat)
    {cache : Cache} {id : Identity}
    (hidle : cache.locks.inFlight.get? (Archive.relativePath id) = none) :
    ∃ locks, (Call.complete (machinery conditions delivery caller) cache.root id .arriving []).run
        cache = some ((ensureUnder conditions delivery cache id).2,
          { (ensureUnder conditions delivery cache id).1 with locks := locks }) := by
  rw [ensureUnder]
  cases hcheck : Archive.check id with
  | error fault =>
    have hrefused : Call.step conditions delivery caller cache ⟨id, .arriving⟩
        = some (cache, ⟨id, .done (.error fault)⟩, []) := by
      rw [Call.step]
      dsimp only
      rw [hcheck]
    refine ⟨cache.locks, ?_⟩
    rw [run_complete_of_step hrefused _ rfl, run_complete_done]
    rfl
  | ok done =>
    by_cases hfile : cache.directory.isFile (place id) = true
    · have hfound : Call.step conditions delivery caller cache ⟨id, .arriving⟩
          = some (cache, ⟨id, .done (.ok (cache.localPath id))⟩,
            [.cacheHit (Archive.relativePath id)]) := by
        rw [Call.step]
        dsimp only
        rw [hcheck]
        exact if_pos hfile
      dsimp only
      rw [if_pos hfile]
      refine ⟨cache.locks, ?_⟩
      rw [run_complete_of_step hfound _ rfl, run_complete_done]
      rfl
    · have hmissed : Call.step conditions delivery caller cache ⟨id, .arriving⟩
          = some (cache, ⟨id, .joining⟩, []) := by
        rw [Call.step]
        dsimp only
        rw [hcheck]
        exact if_neg hfile
      dsimp only
      rw [if_neg hfile]
      obtain ⟨left, hjoining⟩ := run_complete_joining hidle hfile [] (rfl : cache.root = cache.root)
      refine ⟨left, ?_⟩
      rw [run_complete_of_step hmissed _ rfl, download_withLocks]
      exact hjoining

end Cache

/-! ## Requests -/

namespace Gateway

open Cache (machinery)

/-- Where no call is under way, a request is handled on the machinery of a cache as it is in the
cache. -/
theorem run_handleBy {conditions : Conditions} {delivery : Delivery} {cache : Cache}
    {request : HttpRequest} {meets : Circumstances}
    (hmeets : ∀ question, question? request = .ok question →
      meets cache question.identity = (conditions, delivery))
    (hidle : ∀ key, cache.locks.inFlight.get? key = none) (caller : Nat) :
    ∃ locks, (handleBy (machinery conditions delivery caller) cache.root request).run cache
      = some ((handleIn meets cache request).2,
        { (handleIn meets cache request).1 with locks := locks }) := by
  rw [handleBy, handleIn]
  cases hasked : question? request with
  | error rejection => exact ⟨cache.locks, rfl⟩
  | ok question =>
    dsimp only
    obtain ⟨locks, hrun⟩ := Cache.run_complete_eq_ensureUnder conditions delivery caller
      (hidle (Archive.relativePath question.identity))
    refine ⟨locks, ?_⟩
    rw [Cache.run_bind_of_eq hrun, answer, Cache.ensureIn, hmeets question hasked]
    rfl

end Gateway

end OffsetService
