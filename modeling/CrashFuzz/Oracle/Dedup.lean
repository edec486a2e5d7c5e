import CrashFuzz.Enumerate.Floor
import CrashFuzz.Oracle.AckLog
import CrashFuzz.Shim.TraceText

/-!
Root-cause signatures (`core/src/oracle/dedup.ts`).

* `earliestMissing`: the first mutation issued while an operation was in flight
  that a state does not have on disk, `torn` or `missing`, or `missing:none`.
* `InFlight`, `blame`: which mutations those are, and how one is named.
* `earliestMissing_spec`: what the loop finds, by induction over the events.
-/

namespace CrashFuzz

open Shim (callText)

/-- The text of a `ViolationClass`. -/
def ViolationClass.text : ViolationClass → String
  | lostAcked => "LOST_ACKED"
  | corruptInvariant => "CORRUPT_INVARIANT"
  | recoveryFailed => "RECOVERY_FAILED"
  | phantomUnacked => "PHANTOM_UNACKED"

/-- `basename`: the part after the last slash. -/
def basename (path : String) : String := String.ofList (path.toList.rtakeWhile (· ≠ '/'))

/-- `describe`. -/
def describe (event : TraceEvent) : String := callText event.call ++ "@" ++ basename event.path

/-- The loop of `earliestMissing`, from a position on. The set of mutating calls
is the one of the enumerator. -/
def earliestMissing (state : CrashState) (operation : AckedOperation) :
    ℕ → List TraceEvent → String
  | _, [] => "missing:none"
  | index, event :: events =>
      if event.call ∉ mutating ∨ event.returnValue < 0 then
        earliestMissing state operation (index + 1) events
      else if event.index < operation.beganAt ∨
          ∃ ackedAt ∈ operation.acknowledgedAt, ackedAt < event.index then
        earliestMissing state operation (index + 1) events
      else if index ∈ state.partials.map (·.op) then "torn:" ++ describe event
      else if index ∉ state.persisted then "missing:" ++ describe event
      else earliestMissing state operation (index + 1) events

/-- `signatureOf`. -/
def signatureOf (violation : Violation) (state : CrashState) (trace : Trace)
    (operation : AckedOperation) : String :=
  violation.violationClass.text ++ "|" ++ earliestMissing state operation 0 trace.events

/-! ### What a signature says -/

/-- A successful mutation that was issued while the operation was in flight. -/
def InFlight (operation : AckedOperation) (event : TraceEvent) : Prop :=
  event.call ∈ mutating ∧ 0 ≤ event.returnValue ∧ operation.beganAt ≤ event.index ∧
    ∀ ackedAt ∈ operation.acknowledgedAt, event.index ≤ ackedAt

instance (operation : AckedOperation) : DecidablePred (InFlight operation) := fun event =>
  inferInstanceAs (Decidable (event.call ∈ mutating ∧ 0 ≤ event.returnValue ∧
    operation.beganAt ≤ event.index ∧ ∀ ackedAt ∈ operation.acknowledgedAt, event.index ≤ ackedAt))

/-- The name a signature gives the mutation at a position. -/
def blame (state : CrashState) (m : ℕ) (event : TraceEvent) : String :=
  (if m ∈ state.partials.map (·.op) then "torn:" else "missing:") ++ describe event

variable {state : CrashState} {operation : AckedOperation} {events : List TraceEvent}

/-- A mutation that is named is not nothing. -/
lemma blame_ne_none (m : ℕ) (event : TraceEvent) : blame state m event ≠ "missing:none" := by
  intro h
  have hat : '@' ∈ (blame state m event).toList := by simp [blame, describe]
  rw [h] at hat
  revert hat
  decide

/-- One step of the loop: it stops at a mutation in flight that is torn or not
persisted. -/
lemma earliestMissing_cons (index : ℕ) (event : TraceEvent) (events : List TraceEvent) :
    earliestMissing state operation index (event :: events) =
      if InFlight operation event ∧
          ¬(index ∈ state.persisted ∧ index ∉ state.partials.map (·.op)) then
        blame state index event
      else earliestMissing state operation (index + 1) events := by
  have hskip : ¬ InFlight operation event ↔
      (event.call ∉ mutating ∨ event.returnValue < 0) ∨ event.index < operation.beganAt ∨
        ∃ ackedAt ∈ operation.acknowledgedAt, ackedAt < event.index := by
    simp only [InFlight, not_and_or, not_le, not_forall, exists_prop, or_assoc]
  rw [earliestMissing]
  by_cases hflight : InFlight operation event
  · have hpass := not_or.mp (fun h => (hskip.mpr h) hflight)
    rw [if_neg hpass.1, if_neg hpass.2, blame]
    by_cases htorn : index ∈ state.partials.map (·.op)
    · rw [if_pos htorn, if_pos ⟨hflight, fun h => h.2 htorn⟩, if_pos htorn]
    · rw [if_neg htorn, if_neg htorn]
      by_cases hpersisted : index ∈ state.persisted
      · rw [if_neg (not_not.mpr hpersisted), if_neg fun h => h.2 ⟨hpersisted, htorn⟩]
      · rw [if_pos hpersisted, if_pos ⟨hflight, fun h => hpersisted h.1⟩]
  · rw [if_neg (show ¬ (InFlight operation event ∧ _) from fun h => hflight h.1)]
    rcases hskip.mp hflight with hcall | hstamp
    · rw [if_pos hcall]
    · rw [if_pos hstamp, ite_self]

/-- **What the loop finds**, for states whose torn mutations are not persisted:
nothing if every mutation in flight is persisted, else the first that is not. -/
lemma earliestMissing_spec (htorn : ∀ t ∈ state.partials, t.op ∉ state.persisted) (index : ℕ) :
    (earliestMissing state operation index events = "missing:none" ∧
      ∀ i event, events[i]? = some event → InFlight operation event →
        index + i ∈ state.persisted) ∨
    ∃ i event, events[i]? = some event ∧ InFlight operation event ∧
      index + i ∉ state.persisted ∧
      (∀ j < i, ∀ event', events[j]? = some event' → InFlight operation event' →
        index + j ∈ state.persisted) ∧
      earliestMissing state operation index events = blame state (index + i) event := by
  induction events generalizing index with
  | nil => exact .inl ⟨rfl, by simp⟩
  | cons event events ih =>
      have hmissing : ¬(index ∈ state.persisted ∧ index ∉ state.partials.map (·.op)) ↔
          index ∉ state.persisted := by
        refine not_congr (and_iff_left_of_imp fun hpersisted hmem => ?_)
        obtain ⟨t, ht, rfl⟩ := List.mem_map.mp hmem
        exact htorn t ht hpersisted
      rw [earliestMissing_cons]
      simp only [hmissing]
      by_cases hfirst : InFlight operation event ∧ index ∉ state.persisted
      · rw [if_pos hfirst]
        exact .inr ⟨0, event, rfl, hfirst.1, hfirst.2, by simp, rfl⟩
      · rw [if_neg hfirst]
        have hhere : InFlight operation event → index ∈ state.persisted := fun h =>
          by_contra fun hp => hfirst ⟨h, hp⟩
        have hshift : ∀ i, index + 1 + i = index + (i + 1) := by omega
        rcases ih (index + 1) with ⟨hnone, hall⟩ | ⟨i, e, he, hflight, hdropped, hbefore, hblame⟩
        · refine .inl ⟨hnone, fun i e he hflight => ?_⟩
          cases i with
          | zero =>
              obtain rfl : event = e := Option.some.inj he
              exact hhere hflight
          | succ i => exact hshift i ▸ hall i e he hflight
        · refine .inr ⟨i + 1, e, he, hflight, hshift i ▸ hdropped, fun j hj e' he' hflight' => ?_,
            hshift i ▸ hblame⟩
          cases j with
          | zero =>
              obtain rfl : event = e' := Option.some.inj he'
              exact hhere hflight'
          | succ j => exact hshift j ▸ hbefore j (by omega) e' he' hflight'

end CrashFuzz
