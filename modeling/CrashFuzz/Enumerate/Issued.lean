import CrashFuzz.Enumerate.Materialize
import CrashFuzz.Enumerate.Selection

/-!
The state of a crash point that keeps everything issued: replaying it is
replaying the run so far.

* `getLast_prefixStates`: it is the last state under a total-order model as
  well.
* `Trace.upTo`: the trace cut after a crash point.
* `replaySelection_issued`: its calls are those of the cut trace.
-/

namespace CrashFuzz

open Subsets

variable {trace : Trace} {options : ReplayOptions} {enumeration : EnumerateOptions}
  {events : List TraceEvent} {k W : ℕ}

/-! ### The last state -/

/-- The last prefix keeps every issued operation. -/
lemma getLast_prefixStates {V : ℤ} : (CrashPoint.prefixStates events V k).getLast? =
    some ⟨k, CrashPoint.issued events V k, []⟩ := by
  have hall : (CrashPoint.alwaysPresent events V k).all
      (· ∈ CrashPoint.issued events V k) = true := by
    rw [List.all_eq_true]
    exact fun i hi => decide_eq_true (CrashPoint.alwaysPresent_subset_issued hi)
  rw [CrashPoint.prefixStates, List.range_succ, List.flatMap_append, List.flatMap_singleton,
    List.getLast?_append]
  simp only [hall, List.take_length, if_true, List.getLast?_singleton, Option.some_or]

/-- Whichever the model, the last state of a crash point keeps everything issued. -/
lemma getLast_of_enumerated (hbounds : enumeration.bounds.maxUnpersistedWindow = W) (hW : 1 ≤ W)
    (hW' : W ≤ 30) {states : List CrashState}
    (hok : enumerateCrashStates trace enumeration = .ok states)
    (hk : k ∈ enumeration.crashPoints.getD (List.range trace.events.length)) :
    (states.filter (·.crashPoint = k)).getLast? =
      some ⟨k, CrashPoint.issued trace.events W k, []⟩ := by
  refine getLast?_group hok hk ?_
  cases hmodel : enumeration.model.totalOrder with
  | true =>
      rw [CrashPoint.states, if_pos hmodel, hbounds]
      exact getLast_prefixStates
  | false => exact getLast_states hmodel hbounds hW hW'

/-! ### The run so far -/

/-- The trace of the events up to a crash point. -/
def Trace.upTo (trace : Trace) (k : ℕ) : Trace := { trace with events := trace.events.take (k + 1) }

/-- A call that changes nothing on disk is not applied. -/
lemma applySelected_of_not_mutating {event : TraceEvent} (h : event.call ∉ mutating)
    (bytes : Option ℕ) : applySelected options event bytes = [] := by
  rw [applySelected]
  cases hcall : event.call <;> simp [hcall, mutating] at h ⊢

lemma mem_issuedMutations_iff {i : ℕ} :
    i ∈ issuedMutations events k ↔ i ≤ k ∧ ∃ e ∈ events[i]?, e.call ∈ mutating := by
  rw [issuedMutations, List.mem_filter, List.mem_range, decide_eq_true_eq, Nat.lt_succ_iff]

/-- What the full selection makes of a position is what the replay of the cut
trace makes of its event. -/
lemma callsAt_issued (hall : AllSucceeded trace.events) {i : ℕ} {event : TraceEvent}
    (hevent : trace.events[i]? = some event) :
    Selection.callsAt ⟨issuedMutations trace.events k, []⟩ options trace i =
      if i ≤ k ∧ 0 ≤ event.returnValue then applySelected options event none else [] := by
  have hselects : Selection.Selects ⟨issuedMutations trace.events k, []⟩ i ↔
      i ≤ k ∧ event.call ∈ mutating := by
    rw [Selection.Selects, mem_issuedMutations_iff, hevent]
    simp
  by_cases hmutating : event.call ∈ mutating
  · have hsucceeded := hall event (List.mem_of_getElem? hevent) hmutating
    by_cases hik : i ≤ k
    · rw [callsAt_of_selects (hselects.mpr ⟨hik, hmutating⟩) hevent, if_pos ⟨hik, hsucceeded⟩]
      rfl
    · rw [callsAt_of_not_selects fun h => hik (hselects.mp h).1, if_neg fun h => hik h.1]
  · rw [callsAt_of_not_selects fun h => hmutating (hselects.mp h).2,
      applySelected_of_not_mutating hmutating, ite_self]

/-- **The calls of the full selection** are those of the trace cut after the
crash point. -/
lemma replaySelection_issued (hall : AllSucceeded trace.events) :
    replaySelection options trace ⟨issuedMutations trace.events k, []⟩ =
      replayTrace options (trace.upTo k) := by
  rw [replaySelection_eq, replayTrace, Trace.upTo]
  congr 1
  refine flatMap_range_eq_flatMap_take fun i event hevent => ?_
  rw [callsAt_issued hall hevent]
  by_cases hik : i ≤ k
  · rw [if_pos (Nat.lt_succ_iff.mpr hik)]
    by_cases hvalue : event.returnValue < 0
    · rw [if_pos hvalue, if_neg fun h => absurd h.2 (not_le.mpr hvalue)]
    · rw [if_neg hvalue, if_pos ⟨hik, not_lt.mp hvalue⟩]
  · rw [if_neg fun h => hik h.1, if_neg fun h => hik (Nat.lt_succ_iff.mp h)]

/-- **The fully persisted state is the run so far**: replayed on the whole trace
it makes the calls, in their order, that replaying the cut trace makes, so the
two end alike from any disk. -/
theorem last_state_replays_the_run (hall : AllSucceeded trace.events)
    (hbounds : enumeration.bounds.maxUnpersistedWindow = W) (hW : 1 ≤ W) (hW' : W ≤ 30)
    {states : List CrashState} (hok : enumerateCrashStates trace enumeration = .ok states)
    (hk : k ∈ enumeration.crashPoints.getD (List.range trace.events.length)) :
    ∃ s, (states.filter (·.crashPoint = k)).getLast? = some s ∧ ∀ options,
      replaySelection options trace s.selection = replayTrace options (trace.upTo k) ∧
      ∀ store disk, runCalls options.cwd.toList store disk
          (replaySelection options trace s.selection) =
        runCalls options.cwd.toList store disk (replayTrace options (trace.upTo k)) := by
  refine ⟨_, getLast_of_enumerated hbounds hW hW' hok hk, fun options => ?_⟩
  have hcalls : replaySelection options trace
      (CrashState.selection ⟨k, CrashPoint.issued trace.events W k, []⟩) =
        replayTrace options (trace.upTo k) := by
    rw [hall.issued_eq]
    exact replaySelection_issued hall
  exact ⟨hcalls, fun store disk => by rw [hcalls]⟩

/-- The resized file, whole. -/
theorem last_state_of_resize : ∃ states,
    enumerateCrashStates resizeTrace (lastPoint xfs) = .ok states ∧
      ∃ s, (states.filter (·.crashPoint = 2)).getLast? = some s ∧ ∀ options,
        replaySelection options resizeTrace s.selection =
          replayTrace options (resizeTrace.upTo 2) ∧
        ∀ store disk, runCalls options.cwd.toList store disk
            (replaySelection options resizeTrace s.selection) =
          runCalls options.cwd.toList store disk (replayTrace options (resizeTrace.upTo 2)) := by
  have hok : ∃ states, enumerateCrashStates resizeTrace (lastPoint xfs) = .ok states :=
    ⟨_, enumerateFrom_eq_ok.mpr ⟨by decide, rfl⟩⟩
  obtain ⟨states, hok⟩ := hok
  exact ⟨states, hok, @last_state_replays_the_run resizeTrace (lastPoint xfs) 2 8
    (by unfold AllSucceeded; decide) rfl (by decide) (by decide) states hok (by decide)⟩

end CrashFuzz
