import OffsetService.Proofs.Crowd.History
import OffsetService.Proofs.SmoothCalls

/-!
# Calls that take turns

In a round every call of a crowd has a turn, and passes when it has ended or must wait. A turn that
is not passed is a step of the crowd (`turn_cases`), so rounds are among its moves
(`reaches_finish`). While a call has not ended, some call has a step, and a round in which it has
its turn brings the crowd further (`progress_lt_round`). The calls can come only so far, so after
eight rounds for each of them all have ended (`exists_outcome_of_finish`).
-/

namespace OffsetService.Cache

/-- Where no failure is expected the temporary file has a name of its own. -/
theorem fits_usual (d : Directory) (target : Path) : (Conditions.usual d target).Fits target := by
  intro heq
  have hlast := congrArg (·.getLastD "") heq
  rw [Conditions.temporary, List.getLastD_concat] at hlast
  exact (Directory.unusedName_free d target.dropLast (target.getLastD "")).1 hlast

/-- Calls that have come as far as calls can have ended. -/
theorem rank_of_le_progress {calls : List Call} (h : 8 * calls.length ≤ progress calls) :
    ∀ call ∈ calls, call.stage.rank = 8 := by
  induction calls with
  | nil => simp
  | cons head rest ih =>
    have hhead := head.stage.rank_le
    have hrest := progress_le rest
    simp only [progress, List.foldr_cons, List.length_cons] at h hrest ih
    intro call hcall
    rcases List.mem_cons.1 hcall with rfl | hmem
    · omega
    · exact ih (by omega) call hmem

theorem le_progress_of_rank {calls : List Call} (h : ∀ call ∈ calls, call.stage.rank = 8) :
    8 * calls.length ≤ progress calls := by
  induction calls with
  | nil => simp
  | cons head rest ih =>
    have hhead := h head List.mem_cons_self
    have hrest := ih fun call hcall => h call (List.mem_cons_of_mem _ hcall)
    simp only [progress, List.foldr_cons, List.length_cons] at hrest ⊢
    omega

namespace Crowd

variable {crowd after : Crowd}

/-! ## Steps -/

theorem Next.progress_lt (h : Next crowd after) : progress crowd.calls < progress after.calls := by
  obtain ⟨-, -, taken⟩ := h
  obtain ⟨call, stage, hcall, hcalls, htrans⟩ := exists_transition_of_step taken
  rw [hcalls]
  exact progress_set hcall _ htrans.rank_lt

namespace Reaches

theorem progress_le (h : Reaches crowd after) : progress crowd.calls ≤ progress after.calls := by
  induction h with
  | refl => exact Nat.le_refl _
  | tail _ next ih => exact Nat.le_trans ih (Nat.le_of_lt next.progress_lt)

theorem length_calls (h : Reaches crowd after) : after.calls.length = crowd.calls.length := by
  obtain ⟨moments, hist, -⟩ := History.reaches_iff.1 h
  simpa using congrArg List.length hist.identities

theorem sharing (h : Reaches crowd after) (s : Sharing crowd.cache.locks crowd.calls) :
    Sharing after.cache.locks after.calls := by
  obtain ⟨moments, hist, -⟩ := History.reaches_iff.1 h
  exact hist.sharing s

end Reaches

/-! ## Turns -/

variable (source : Source)

/-- A call that has a step takes it in its turn. -/
theorem next_turn {caller : Nat} {call : Call} (present : crowd.calls[caller]? = some call)
    (ready : ∀ conditions delivery, call.step conditions delivery caller crowd.cache ≠ none) :
    Next crowd (turn source crowd caller) := by
  obtain ⟨⟨cache, moved, events⟩, hstep⟩ := Option.ne_none_iff_exists'.1
    (ready (.usual crowd.cache.directory (place call.identity))
      (source crowd.cache.fetches call.identity))
  have htaken : crowd.step (.usual crowd.cache.directory (place call.identity))
      (source crowd.cache.fetches call.identity) caller
        = some (turn source crowd caller) := by
    rw [turn, step, present]
    dsimp only
    rw [step, present]
    dsimp only
    rw [hstep]
    rfl
  exact .step present (fits_usual _ _) htaken

/-- A turn is passed or is a step. -/
theorem turn_cases (crowd : Crowd) (caller : Nat) :
    turn source crowd caller = crowd ∨ Next crowd (turn source crowd caller) := by
  unfold turn
  split
  next => exact .inl rfl
  next call present =>
    dsimp only
    cases hstep : crowd.step (.usual crowd.cache.directory (place call.identity))
        (source crowd.cache.fetches call.identity) caller with
    | none => exact .inl rfl
    | some after => exact .inr (.step present (fits_usual _ _) hstep)

theorem reaches_turns (callers : List Nat) (crowd : Crowd) :
    Reaches crowd (callers.foldl (turn source) crowd) := by
  induction callers generalizing crowd with
  | nil => exact .refl crowd
  | cons caller rest ih =>
    rw [List.foldl_cons]
    rcases turn_cases source crowd caller with hpassed | hnext
    · rw [hpassed]
      exact ih crowd
    · exact hnext.reaches.trans (ih _)

/-- Turns bring a crowd further if a step was there for one of the callers: it takes this step, or
another call took one before. -/
theorem progress_lt_turns {caller : Nat} (h : Next crowd (turn source crowd caller))
    {callers : List Nat} (hmem : caller ∈ callers) :
    progress crowd.calls < progress (callers.foldl (turn source) crowd).calls := by
  induction callers with
  | nil => cases hmem
  | cons first rest ih =>
    rw [List.foldl_cons]
    rcases turn_cases source crowd first with hpassed | hnext
    · rcases List.mem_cons.1 hmem with rfl | hlater
      · rw [hpassed] at h
        exact absurd h.progress_lt (Nat.lt_irrefl _)
      · rw [hpassed]
        exact ih hlater
    · exact Nat.lt_of_lt_of_le hnext.progress_lt (reaches_turns source rest _).progress_le

theorem reaches_rounds (n : Nat) (crowd : Crowd) : Reaches crowd (rounds source n crowd) := by
  induction n generalizing crowd with
  | zero => exact .refl crowd
  | succ n ih => exact (reaches_turns source _ crowd).trans (ih _)

/-- While some call has not ended, a round brings the crowd further. -/
theorem progress_lt_round (s : Sharing crowd.cache.locks crowd.calls)
    (running : ∃ call ∈ crowd.calls, call.stage.rank ≠ 8) :
    progress crowd.calls < progress (round source crowd).calls := by
  obtain ⟨call, hmem, hrank⟩ := running
  obtain ⟨i, ready, hi, hstep⟩ := s.exists_step
    ⟨call, hmem, fun outcome hdone => hrank (by rw [hdone]; rfl)⟩
  have hlt : i < crowd.calls.length := (List.getElem?_eq_some_iff.1 hi).1
  exact progress_lt_turns source
    (next_turn source hi fun conditions delivery => hstep conditions delivery crowd.cache rfl)
    (List.mem_range.2 hlt)

/-- Every round brings the crowd one further, up to the end of all calls. -/
theorem min_le_progress_rounds (s : Sharing crowd.cache.locks crowd.calls) (n : Nat) :
    min (8 * crowd.calls.length) (progress crowd.calls + n)
      ≤ progress (rounds source n crowd).calls := by
  induction n generalizing crowd with
  | zero => exact Nat.min_le_right _ _
  | succ n ih =>
    have hround := reaches_turns source (List.range crowd.calls.length) crowd
    have hrest := ih (hround.sharing s)
    rw [hround.length_calls] at hrest
    by_cases hended : ∀ call ∈ crowd.calls, call.stage.rank = 8
    · have hall := le_progress_of_rank hended
      have hmore := (reaches_rounds source (n + 1) crowd).progress_le
      omega
    · push Not at hended
      have hmore := progress_lt_round source s hended
      rw [round] at hmore
      rw [rounds, round]
      omega

/-- The schedule of turns is one of the ways that a crowd can go. -/
theorem reaches_finish (crowd : Crowd) : Reaches crowd (finish source crowd) :=
  reaches_rounds source _ crowd

/-- When the calls have taken turns to the end, every call has its outcome. -/
theorem exists_outcome_of_finish (s : Sharing crowd.cache.locks crowd.calls) {call : Call}
    (h : call ∈ (finish source crowd).calls) : ∃ outcome, call.outcome? = some outcome := by
  have hprogress := min_le_progress_rounds source s (8 * crowd.calls.length)
  rw [Nat.min_eq_left (Nat.le_add_left _ _), ← finish,
    ← (reaches_finish source crowd).length_calls] at hprogress
  obtain ⟨outcome, hdone⟩ := Stage.exists_done_of_rank (rank_of_le_progress hprogress call h)
  exact ⟨outcome, by rw [Call.outcome?, hdone]⟩

end Crowd

end OffsetService.Cache
