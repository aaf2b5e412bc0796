import OffsetService.Proofs.Crowd.Sharing
import OffsetService.Proofs.Download

/-!
# What has happened to a crowd

A `History` of a crowd is every move so far, each with the crowd that it found. A move is a step of
a call, under any conditions and with any delivery, or a change that somebody outside makes in the
folder tree. Which requests the archive got and which databases came to their places is read off the
moves (`requests`, `landings`), so statements about downloads are statements about histories.

A crowd that steps alone has histories without outsiders, and these are all (`reaches_iff`).
-/

namespace OffsetService.Cache

/-- What can happen to a crowd. -/
inductive Move where
  /-- A call takes a step. -/
  | step (caller : Nat) (conditions : Conditions) (delivery : Delivery)
  /-- Somebody else leaves the folder tree like this. -/
  | outside (directory : Directory)

/-- A crowd, and what happened to it then. -/
structure Moment where
  crowd : Crowd
  move : Move

/-- The moments from one crowd to another, the newest first. -/
inductive History (first : Crowd) : List Moment → Crowd → Prop where
  | start : History first [] first
  | step {moments : List Moment} {crowd after : Crowd} {caller : Nat} {call : Call}
      {conditions : Conditions} {delivery : Delivery} (before : History first moments crowd)
      (present : crowd.calls[caller]? = some call)
      (fits : conditions.Fits (place call.identity))
      (taken : crowd.step conditions delivery caller = some after) :
    History first (⟨crowd, .step caller conditions delivery⟩ :: moments) after
  | outside {moments : List Moment} {crowd : Crowd} (before : History first moments crowd)
      (directory : Directory) :
    History first (⟨crowd, .outside directory⟩ :: moments)
      { crowd with cache := { crowd.cache with directory := directory } }

/-- A request that a call made of the archive, and what the archive delivered. -/
structure Request where
  caller : Nat
  key : String
  delivery : Delivery

/-- A database that a call brought to its place. -/
structure Landing where
  caller : Nat
  key : String

namespace Moment

/-- The call that begins to fetch at a moment. -/
def fetcher? (m : Moment) : Option Call :=
  match m.move with
  | .outside _ => none
  | .step caller _ _ =>
    match m.crowd.calls[caller]? with
    | some ⟨id, .fetching lock⟩ => some ⟨id, .fetching lock⟩
    | _ => none

/-- The request that is made at a moment. -/
def request? (m : Moment) : Option Request :=
  match m.move with
  | .outside _ => none
  | .step caller conditions delivery =>
    match m.crowd.calls[caller]? with
    | some ⟨id, .fetching _⟩ =>
      if (Download.receive conditions delivery id.name m.crowd.cache.directory
          (place id)).asked then
        some ⟨caller, Archive.relativePath id, delivery⟩
      else none
    | _ => none

/-- The database that comes to its place at a moment. -/
def landing? (m : Moment) : Option Landing :=
  match m.move with
  | .outside _ => none
  | .step caller conditions _ =>
    match m.crowd.calls[caller]? with
    | some ⟨id, .placing _ temporary _⟩ =>
      match (Download.settle conditions.rename m.crowd.cache.directory temporary (place id)).2 with
      | .ok () => some ⟨caller, Archive.relativePath id⟩
      | .error _ => none
    | _ => none

/-- Nobody outside touches a file in the folder of a database. -/
def Undisturbed (m : Moment) : Prop :=
  match m.move with
  | .outside directory => ∀ p, p.length = 3 → directory.file? p = m.crowd.cache.directory.file? p
  | .step _ _ _ => True

/-- A call takes a step in which no step on files and no delivery fails. -/
def Smooth (m : Moment) : Prop :=
  match m.move with
  | .outside _ => False
  | .step caller conditions delivery => delivery.fault = none ∧
    ∀ call, m.crowd.calls[caller]? = some call → conditions.Smooth (place call.identity)

end Moment

/-- The requests that the archive got. -/
def requests (moments : List Moment) : List Request := moments.filterMap Moment.request?

/-- The databases that came to their places. -/
def landings (moments : List Moment) : List Landing := moments.filterMap Moment.landing?

theorem requests_cons (m : Moment) (moments : List Moment) :
    requests (m :: moments) = m.request?.toList ++ requests moments := by
  simp only [requests, List.filterMap_cons]
  cases m.request? <;> rfl

theorem landings_cons (m : Moment) (moments : List Moment) :
    landings (m :: moments) = m.landing?.toList ++ landings moments := by
  simp only [landings, List.filterMap_cons]
  cases m.landing? <;> rfl

/-- A step asks the archive at most once, and only to fetch. -/
theorem Transition.request {crowd : Crowd} {i : Nat} {call : Call} {stage : Stage}
    {conditions : Conditions} {delivery : Delivery} {after : Cache}
    (present : crowd.calls[i]? = some call)
    (h : Transition conditions delivery i call.identity crowd.cache call.stage after stage) :
    (Moment.request? ⟨crowd, .step i conditions delivery⟩ = none ∧
      after.fetches = crowd.cache.fetches) ∨
    (Moment.request? ⟨crowd, .step i conditions delivery⟩ = some ⟨i, call.key, delivery⟩ ∧
      after.fetches = crowd.cache.fetches + 1 ∧ ∃ lock, call.stage = .fetching lock) := by
  obtain ⟨id, before⟩ := call
  obtain ⟨cache, calls, events⟩ := crowd
  cases h with
  | refused | hit | miss | filled | absent | join | acquire | unplaced | placed | release | leave =>
    exact .inl ⟨by simp only [Moment.request?, present], rfl⟩
  | @unreceived lock | @received lock =>
    simp only [Moment.request?, present, Cache.received]
    cases (Download.receive conditions delivery id.name cache.directory (place id)).asked with
    | false => exact .inl ⟨rfl, rfl⟩
    | true => exact .inr ⟨rfl, rfl, lock, rfl⟩

/-- How far all calls together have come. -/
def progress (calls : List Call) : Nat :=
  calls.foldr (fun call further => call.stage.rank + further) 0

theorem progress_set {calls : List Call} {i : Nat} {call : Call}
    (present : calls[i]? = some call) (after : Call)
    (further : call.stage.rank < after.stage.rank) :
    progress calls < progress (calls.set i after) := by
  induction calls generalizing i with
  | nil => cases present
  | cons head rest ih =>
    cases i with
    | zero =>
      cases present
      simp only [progress, List.set_cons_zero, List.foldr_cons]
      omega
    | succ i =>
      have hrest : rest[i]? = some call := present
      have := ih hrest
      simp only [progress, List.set_cons_succ, List.foldr_cons] at this ⊢
      omega

theorem progress_le (calls : List Call) : progress calls ≤ 8 * calls.length := by
  induction calls with
  | nil => simp [progress]
  | cons head rest ih =>
    have := head.stage.rank_le
    simp only [progress, List.foldr_cons, List.length_cons] at ih ⊢
    omega

/-- The crowd after steps of these callers in turn, all under the same conditions. -/
def Crowd.follow (conditions : Conditions) (delivery : Delivery) : List Nat → Crowd → Option Crowd
  | [], crowd => some crowd
  | caller :: rest, crowd => (crowd.step conditions delivery caller).bind
      (follow conditions delivery rest)

namespace History

variable {first crowd : Crowd} {moments : List Moment}

/-- The calls stay the calls that they were. -/
theorem identities (h : History first moments crowd) :
    crowd.calls.map Call.identity = first.calls.map Call.identity := by
  induction h with
  | start => rfl
  | @step moments crowd after caller _ conditions delivery before present fits taken ih =>
    obtain ⟨call, stage, hcall, hcalls, -⟩ := Crowd.exists_transition_of_step taken
    rw [hcalls, List.map_set, ← ih]
    refine List.ext_getElem? fun j => ?_
    rw [List.getElem?_set', List.getElem?_map]
    split
    next heq => rw [← heq, hcall]; rfl
    next => rfl
  | outside before directory ih => exact ih

/-- The cache stays where it was. -/
theorem root (h : History first moments crowd) : crowd.cache.root = first.cache.root := by
  induction h with
  | start => rfl
  | step before present fits taken ih =>
    obtain ⟨call, stage, -, -, htrans⟩ := Crowd.exists_transition_of_step taken
    exact htrans.root.trans ih
  | outside before directory ih => exact ih

/-- A crowd counts its requests. -/
theorem fetches (h : History first moments crowd) :
    crowd.cache.fetches = first.cache.fetches + (requests moments).length := by
  induction h with
  | start => rfl
  | step before present fits taken ih =>
    obtain ⟨call, stage, hcall, -, htrans⟩ := Crowd.exists_transition_of_step taken
    rw [requests_cons, List.length_append]
    rcases htrans.request hcall with ⟨hnone, hsame⟩ | ⟨hsome, hmore, -⟩
    · rw [hnone, hsame, ih]
      simp
    · rw [hsome, hmore, ih]
      simp
      omega
  | outside before directory ih =>
    rw [requests_cons]
    exact ih

/-- Who has asked the archive is past fetching. -/
theorem asked (h : History first moments crowd) {r : Request} (hr : r ∈ requests moments) :
    ∃ call, crowd.calls[r.caller]? = some call ∧ call.key = r.key ∧ 4 < call.stage.rank := by
  induction h with
  | start => cases hr
  | @step moments crowd after i _ conditions delivery before present fits taken ih =>
    obtain ⟨call, stage, hcall, hcalls, htrans⟩ := Crowd.exists_transition_of_step taken
    have hfurther := htrans.rank_lt
    rw [hcalls, getElem?_set_of_present hcall]
    rw [requests_cons, List.mem_append, Option.mem_toList] at hr
    rcases hr with hr | hr
    · rcases htrans.request hcall with ⟨hnone, -⟩ | ⟨hsome, -, lock, hstage⟩
      · rw [hnone] at hr
        cases hr
      · rw [hsome] at hr
        cases hr
        rw [hstage] at hfurther
        exact ⟨_, if_pos rfl, rfl, hfurther⟩
    · obtain ⟨other, hother, hkey, hrank⟩ := ih hr
      by_cases heq : r.caller = i
      · rw [heq, hcall] at hother
        cases hother
        exact ⟨_, if_pos heq, hkey, Nat.lt_trans hrank hfurther⟩
      · exact ⟨other, by rw [if_neg heq, hother], hkey, hrank⟩
  | outside before directory ih =>
    rw [requests_cons] at hr
    exact ih hr

/-- A call asks the archive at most once. -/
theorem callers_nodup (h : History first moments crowd) :
    ((requests moments).map Request.caller).Nodup := by
  induction h with
  | start => exact List.nodup_nil
  | step before present fits taken ih =>
    obtain ⟨call, stage, hcall, -, htrans⟩ := Crowd.exists_transition_of_step taken
    rw [requests_cons]
    rcases htrans.request hcall with ⟨hnone, -⟩ | ⟨hsome, -, lock, hstage⟩
    · rw [hnone]
      exact ih
    · rw [hsome]
      refine List.nodup_cons.2 ⟨fun hmem => ?_, ih⟩
      obtain ⟨r, hr, heq⟩ := List.mem_map.1 hmem
      obtain ⟨other, hother, -, hrank⟩ := before.asked hr
      rw [heq, hcall] at hother
      cases hother
      rw [hstage] at hrank
      exact absurd hrank (by simp [Stage.rank])
  | outside before directory ih =>
    rw [requests_cons]
    exact ih

/-- A crowd on its own takes eight steps for each call at most. -/
theorem length_le (h : History first moments crowd)
    (alone : ∀ m ∈ moments, ∀ directory, m.move ≠ .outside directory) :
    moments.length ≤ 8 * first.calls.length := by
  have hprogress : moments.length + progress first.calls ≤ progress crowd.calls := by
    induction h with
    | start => simp
    | step before present fits taken ih =>
      obtain ⟨call, stage, hcall, hcalls, htrans⟩ := Crowd.exists_transition_of_step taken
      have hbefore := ih fun m hm => alone m (List.mem_cons_of_mem _ hm)
      have hmore := progress_set hcall { call with stage := stage } htrans.rank_lt
      rw [hcalls, List.length_cons]
      omega
    | outside before directory ih => exact absurd rfl (alone _ List.mem_cons_self directory)
  have hsame := congrArg List.length h.identities
  simp only [List.length_map] at hsame
  have := progress_le crowd.calls
  omega

/-- Whatever happens, locks and calls agree. -/
theorem sharing (h : History first moments crowd)
    (begun : Sharing first.cache.locks first.calls) : Sharing crowd.cache.locks crowd.calls := by
  induction h with
  | start => exact begun
  | step before present fits taken ih =>
    obtain ⟨call, stage, hcall, hcalls, htrans⟩ := Crowd.exists_transition_of_step taken
    rw [hcalls]
    exact ih.step hcall rfl htrans
  | outside before directory ih => exact ih

/-- The moves of a crowd on its own are exactly its histories without outsiders. -/
theorem reaches_iff : Crowd.Reaches first crowd ↔
    ∃ moments, History first moments crowd ∧
      ∀ m ∈ moments, ∃ caller conditions delivery, m.move = .step caller conditions delivery := by
  constructor
  · intro h
    induction h with
    | refl => exact ⟨[], .start, fun m hm => by cases hm⟩
    | tail _ next ih =>
      obtain ⟨moments, hist, hsteps⟩ := ih
      obtain ⟨present, fits, taken⟩ := next
      refine ⟨_, .step hist present fits taken, fun m hm => ?_⟩
      rcases List.mem_cons.1 hm with rfl | hm
      · exact ⟨_, _, _, rfl⟩
      · exact hsteps m hm
  · rintro ⟨moments, hist, hsteps⟩
    induction hist with
    | start => exact .refl _
    | step before present fits taken ih =>
      have hbefore := ih fun m hm => hsteps m (List.mem_cons_of_mem _ hm)
      exact .tail hbefore (.step present fits taken)
    | outside before directory ih =>
      obtain ⟨_, _, _, hmove⟩ := hsteps _ List.mem_cons_self
      cases hmove

/-- Steps of callers in turn go on with a history. -/
theorem follow {conditions : Conditions} {delivery : Delivery} {callers : List Nat}
    {after : Crowd} (h : History first moments crowd)
    (taken : crowd.follow conditions delivery callers = some after)
    (fits : ∀ call ∈ first.calls, conditions.Fits (place call.identity)) :
    ∃ later, History first (later ++ moments) after ∧
      ∀ m ∈ later, ∃ caller, m.move = .step caller conditions delivery := by
  induction callers generalizing crowd moments with
  | nil =>
    cases taken
    exact ⟨[], h, fun m hm => by cases hm⟩
  | cons caller rest ih =>
    obtain ⟨mid, hstep, hrest⟩ := Option.bind_eq_some_iff.1 taken
    obtain ⟨call, stage, hcall, -⟩ := Crowd.exists_transition_of_step hstep
    have hmem : call.identity ∈ crowd.calls.map Call.identity :=
      List.mem_map_of_mem (List.mem_of_getElem? hcall)
    rw [h.identities] at hmem
    obtain ⟨call', hcall', heq⟩ := List.mem_map.1 hmem
    have hfits := fits call' hcall'
    rw [heq] at hfits
    obtain ⟨later, hlater, hmoves⟩ := ih (.step h hcall hfits hstep) hrest
    refine ⟨later ++ [⟨crowd, .step caller conditions delivery⟩], ?_, fun m hm => ?_⟩
    · rw [List.append_assoc]
      exact hlater
    · rcases List.mem_append.1 hm with hm | hm
      · exact hmoves m hm
      · rw [List.mem_singleton.1 hm]
        exact ⟨caller, rfl⟩

end History

end OffsetService.Cache
