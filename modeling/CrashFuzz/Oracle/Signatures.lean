import CrashFuzz.Lib.Words
import CrashFuzz.Oracle.Dedup

/-!
What a signature identifies.

* `FullyPersisted`, `rootCause`: the torn-or-missing status, the call and the
  base name of the earliest mutation in flight that is not fully persisted.
* `earliestMissing_eq`: the loop prints that cause.
* `causeText_inj`, `signatureOf_inj`: the text can be read back.
* `rootCause_congr`: what the cause does not depend on.
* `signature_identifies_cause`: equal signatures are equal classes and causes.
-/

namespace CrashFuzz

open Words
open Shim (callText)

/-! ### Root causes -/

/-- An operation is on disk as a whole. -/
def FullyPersisted (state : CrashState) (i : ℕ) : Prop :=
  i ∈ state.persisted ∧ i ∉ state.partials.map (·.op)

instance (state : CrashState) : DecidablePred (FullyPersisted state) := fun i =>
  inferInstanceAs (Decidable (i ∈ state.persisted ∧ i ∉ state.partials.map (·.op)))

/-- What a signature says of a mutation. -/
structure Cause where
  /-- A prefix of it is on disk. -/
  torn : Bool
  call : CallName
  name : String
  deriving DecidableEq, Repr

/-- What a signature says of the mutation at position `i`. -/
def causeAt (state : CrashState) (i : ℕ) (event : TraceEvent) : Cause :=
  ⟨i ∈ state.partials.map (·.op), event.call, basename event.path⟩

/-- The cause from a position on: the first mutation in flight, in the order of
the trace, that is not fully persisted, if there is one. -/
def rootCauseFrom (state : CrashState) (operation : AckedOperation) (index : ℕ)
    (events : List TraceEvent) : Option Cause :=
  ((events.zipIdx index).find? fun (event, i) =>
    InFlight operation event ∧ ¬ FullyPersisted state i).map fun (event, i) => causeAt state i event

/-- The cause of a violation in a state. -/
def rootCause (state : CrashState) (operation : AckedOperation) (events : List TraceEvent) :
    Option Cause := rootCauseFrom state operation 0 events

/-- A cause as it is printed. -/
def Cause.text (c : Cause) : String :=
  (if c.torn then "torn:" else "missing:") ++ (callText c.call ++ "@" ++ c.name)

/-- A cause or the lack of one, as it is printed. -/
def causeText : Option Cause → String
  | none => "missing:none"
  | some c => c.text

variable {state state' : CrashState} {operation : AckedOperation} {index : ℕ} {event : TraceEvent}
  {events events' : List TraceEvent}

/-- One step of the search. -/
lemma rootCauseFrom_cons : rootCauseFrom state operation index (event :: events) =
    if InFlight operation event ∧ ¬ FullyPersisted state index then
      some (causeAt state index event)
    else rootCauseFrom state operation (index + 1) events := by
  rw [rootCauseFrom, List.zipIdx_cons, List.find?_cons]
  split
  · next h => rw [if_pos (of_decide_eq_true h), Option.map_some]
  · next h => rw [if_neg (of_decide_eq_false h), rootCauseFrom]

lemma blame_eq : blame state index event = (causeAt state index event).text := by
  rw [blame, describe, causeAt, Cause.text]
  by_cases htorn : index ∈ state.partials.map (·.op)
  · rw [if_pos htorn, decide_eq_true htorn, if_pos rfl]
  · rw [if_neg htorn, decide_eq_false htorn, if_neg Bool.false_ne_true]

/-- **The loop** of `earliestMissing` prints the cause. -/
lemma earliestMissing_eq : earliestMissing state operation index events =
    causeText (rootCauseFrom state operation index events) := by
  induction events generalizing index with
  | nil => rfl
  | cons event events ih =>
      rw [earliestMissing_cons, rootCauseFrom_cons, ih]
      by_cases hcause : InFlight operation event ∧ ¬ FullyPersisted state index
      · rw [if_pos hcause, causeText]
        exact (if_pos hcause).trans blame_eq
      · rw [if_neg hcause]
        exact if_neg hcause

lemma signatureOf_eq (violation : Violation) (trace : Trace) :
    signatureOf violation state trace operation =
      violation.violationClass.text ++ "|" ++
        causeText (rootCause state operation trace.events) := by
  rw [signatureOf, earliestMissing_eq, rootCause]

/-! ### Reading a signature back -/

lemma callText_inj {call call' : CallName} (h : callText call = callText call') : call = call' := by
  revert h
  cases call <;> cases call' <;> decide

lemma at_notMem_callText (call : CallName) : '@' ∉ (callText call).toList := by
  cases call <;> decide

lemma bar_notMem_classText (c : ViolationClass) : '|' ∉ c.text.toList := by
  cases c <;> decide

lemma classText_inj {c c' : ViolationClass} (h : c.text = c'.text) : c = c' := by
  revert h
  cases c <;> cases c' <;> decide

/-- A call and a name that are printed alike are the same ones. -/
lemma describe_inj {call call' : CallName} {name name' : String}
    (h : callText call ++ "@" ++ name = callText call' ++ "@" ++ name') :
    call = call' ∧ name = name' := by
  have hchars := congrArg String.toList h
  simp only [String.toList_append, List.append_assoc] at hchars
  obtain ⟨hcall, hname⟩ := append_sep_inj (at_notMem_callText call) (at_notMem_callText call')
    hchars
  exact ⟨callText_inj (String.toList_inj.mp hcall), String.toList_inj.mp hname⟩

/-- Causes that are printed alike are the same. -/
lemma Cause.text_inj {c c' : Cause} (h : c.text = c'.text) : c = c' := by
  obtain ⟨torn, call, name⟩ := c
  obtain ⟨torn', call', name'⟩ := c'
  -- `torn` and `missing` differ in their first letter.
  have hhead := congrArg (·.toList.head?) h
  cases torn <;> cases torn'
  · obtain ⟨rfl, rfl⟩ := describe_inj (String.append_right_inj _ |>.mp h)
    rfl
  · simp [Cause.text] at hhead
  · simp [Cause.text] at hhead
  · obtain ⟨rfl, rfl⟩ := describe_inj (String.append_right_inj _ |>.mp h)
    rfl

lemma Cause.text_ne_none (c : Cause) : c.text ≠ "missing:none" := by
  intro h
  have hat : '@' ∈ c.text.toList := by simp [Cause.text]
  rw [h] at hat
  revert hat
  decide

lemma causeText_inj {c c' : Option Cause} (h : causeText c = causeText c') : c = c' := by
  cases c with
  | none =>
      cases c' with
      | none => rfl
      | some c' => exact absurd h.symm c'.text_ne_none
  | some c =>
      cases c' with
      | none => exact absurd h c.text_ne_none
      | some c' => exact congrArg some (Cause.text_inj h)

/-- **A signature** says its class and its cause. -/
lemma signature_inj {c c' : ViolationClass} {cause cause' : Option Cause}
    (h : c.text ++ "|" ++ causeText cause = c'.text ++ "|" ++ causeText cause') :
    c = c' ∧ cause = cause' := by
  have hchars := congrArg String.toList h
  simp only [String.toList_append, List.append_assoc] at hchars
  obtain ⟨hclass, hcause⟩ := append_sep_inj (bar_notMem_classText c) (bar_notMem_classText c')
    hchars
  exact ⟨classText_inj (String.toList_inj.mp hclass), causeText_inj (String.toList_inj.mp hcause)⟩

/-! ### What a signature leaves out -/

/-- Two records of one call that may differ in its descriptor and thread, the
directory of its path, its destination, offset, length, payload and completion. -/
structure SameCall (event event' : TraceEvent) : Prop where
  index_eq : event.index = event'.index
  call_eq : event.call = event'.call
  succeeds : 0 ≤ event.returnValue ↔ 0 ≤ event'.returnValue
  name_eq : basename event.path = basename event'.path

lemma SameCall.inFlight_iff {event event' : TraceEvent} (h : SameCall event event') :
    InFlight operation event ↔ InFlight operation event' := by
  rw [InFlight, InFlight, h.index_eq, h.call_eq, h.succeeds]

/-- Position `i` comes no later than the first mutation in flight that a state,
whose positions count from `index`, has not fully persisted. -/
def UpToLoss (state : CrashState) (operation : AckedOperation) (index : ℕ)
    (events : List TraceEvent) (i : ℕ) : Prop :=
  ∀ j < i, ∀ event, events[j]? = some event → InFlight operation event →
    FullyPersisted state (index + j)

/-- A position is as much on disk in one state as in another. -/
def SameAt (state state' : CrashState) (i : ℕ) : Prop :=
  (i ∈ state.persisted ↔ i ∈ state'.persisted) ∧
    (i ∈ state.partials.map (·.op) ↔ i ∈ state'.partials.map (·.op))

lemma SameAt.fullyPersisted_iff {i : ℕ} (h : SameAt state state' i) :
    FullyPersisted state i ↔ FullyPersisted state' i := and_congr h.1 (not_congr h.2)

lemma UpToLoss.cons {i : ℕ} (h : UpToLoss state operation (index + 1) events i)
    (hhere : InFlight operation event → FullyPersisted state index) :
    UpToLoss state operation index (event :: events) (i + 1) := by
  intro j hj e he hflight
  cases j with
  | zero =>
      obtain rfl : event = e := Option.some.inj he
      exact hhere hflight
  | succ j =>
      have hlater := h j (by omega) e he hflight
      rwa [Nat.add_right_comm] at hlater

/-- **The cause does not depend** on the rest of the records, nor on what later
operations left on disk. -/
lemma rootCauseFrom_congr (hevents : List.Forall₂ SameCall events events')
    (hstates : ∀ i, UpToLoss state operation index events i → SameAt state state' (index + i)) :
    rootCauseFrom state operation index events = rootCauseFrom state' operation index events' := by
  induction hevents generalizing index with
  | nil => rfl
  | @cons event event' events events' hevent hevents ih =>
      have hfirst : SameAt state state' index := hstates 0 fun j hj => absurd hj (Nat.not_lt_zero j)
      have hiff : InFlight operation event ∧ ¬ FullyPersisted state index ↔
          InFlight operation event' ∧ ¬ FullyPersisted state' index :=
        and_congr hevent.inFlight_iff (not_congr hfirst.fullyPersisted_iff)
      rw [rootCauseFrom_cons, rootCauseFrom_cons]
      by_cases hlost : InFlight operation event ∧ ¬ FullyPersisted state index
      · rw [if_pos hlost, if_pos (hiff.mp hlost), causeAt, causeAt, hevent.call_eq, hevent.name_eq]
        simp only [hfirst.2]
      · rw [if_neg hlost, if_neg (mt hiff.mpr hlost)]
        refine ih fun i hi => ?_
        have hhere : InFlight operation event → FullyPersisted state index := fun hflight =>
          by_contra fun hnot => hlost ⟨hflight, hnot⟩
        have hnext := hstates (i + 1) (hi.cons hhere)
        rwa [Nat.add_comm i 1, ← Nat.add_assoc] at hnext

/-- **Signatures identify causes**: two violations get the same one exactly if
they have the same class and the same cause, and it does not change with
anything that the cause leaves out. -/
theorem signature_identifies_cause :
    (∀ violation violation' state state' trace trace' operation operation',
      signatureOf violation state trace operation =
          signatureOf violation' state' trace' operation' ↔
        violation.violationClass = violation'.violationClass ∧
          rootCause state operation trace.events = rootCause state' operation' trace'.events) ∧
    ∀ violation violation' state state' trace trace' operation,
      violation.violationClass = violation'.violationClass →
      List.Forall₂ SameCall trace.events trace'.events →
      (∀ i, UpToLoss state operation 0 trace.events i → SameAt state state' i) →
      signatureOf violation state trace operation =
        signatureOf violation' state' trace' operation := by
  constructor
  · intro violation violation' state state' trace trace' operation operation'
    rw [signatureOf_eq, signatureOf_eq]
    refine ⟨signature_inj, ?_⟩
    rintro ⟨hclass, hcause⟩
    rw [hclass, hcause]
  · intro violation violation' state state' trace trace' operation hclass hevents hstates
    have hcause : rootCause state operation trace.events =
        rootCause state' operation trace'.events :=
      rootCauseFrom_congr hevents fun i hi => (Nat.zero_add i).symm ▸ hstates i hi
    rw [signatureOf_eq, signatureOf_eq, hclass, hcause]

end CrashFuzz
