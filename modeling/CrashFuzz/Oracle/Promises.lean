import CrashFuzz.Enumerate.Floor
import CrashFuzz.Oracle.AckLog
import CrashFuzz.Oracle.Oracle

/-!
Which acknowledgements the enumeration puts to the test.

* `CrashPoint.states_ne_nil_iff`: the crash points that have a state at all.
* `Tested`: a state is emitted whose crash point counts the operation among the
  promised ones.
* `tested_iff`: an operation acknowledged at stamp `a` is tested exactly when an
  event with a later stamp has a state. Crash points are events, so nothing
  tests what is acknowledged after the last one.
-/

namespace CrashFuzz

variable {trace : Trace} {model : FilesystemModel} {bounds : Bounds} {o : AckedOperation} {a : ℕ}

/-- A crash point has a state unless the loop limit is negative. -/
lemma CrashPoint.states_ne_nil_iff {events : List TraceEvent} {k : ℕ} :
    (∃ s, s ∈ states events model bounds k) ↔ model.totalOrder = true ∨
      windowSize bounds.maxUnpersistedWindow (unpinnedCount events k) % 32 ≠ 31 := by
  rw [← length_window]
  cases hmodel : model.totalOrder with
  | true => exact iff_of_true ⟨_, issued_mem_states hmodel⟩ (.inl rfl)
  | false =>
      by_cases hmasks : (window events bounds.maxUnpersistedWindow k).length % 32 = 31
      · rw [states_eq_nil hmodel hmasks]
        simp [hmasks]
      · exact iff_of_true ⟨_, least_mem_states hmodel hmasks⟩ (.inr hmasks)

/-- A promised operation that does not read back is reported. -/
lemma lost_reported {ackLog : List AckedOperation} {crashStamp : ℕ}
    (h : o ∈ promisedBefore ackLog crashStamp) {values : String → Option String}
    (hlost : values o.key ≠ some o.digest) (intact : Bool) (detail : Option String) :
    ⟨.lostAcked, crashStamp, some o.op, o.key, o.digest, (values o.key).getD absent⟩ ∈
      checkOracle ⟨crashStamp, ackLog, .opened intact values detail⟩ := by
  have hne : promisedBefore ackLog crashStamp ≠ [] := List.ne_nil_of_mem h
  rw [checkOracle, if_neg hne]
  refine List.mem_append_right _ (List.mem_filterMap.mpr ⟨o, h, ?_⟩)
  rw [if_neg hlost]

/-- With every crash point enumerated, some state counts the operation among
the promised ones. -/
def Tested (trace : Trace) (model : FilesystemModel) (bounds : Bounds) (o : AckedOperation) :
    Prop :=
  ∃ states, enumerateCrashStates trace ⟨model, bounds, none⟩ = .ok states ∧
    ∃ s ∈ states, ∃ event ∈ trace.events[s.crashPoint]?,
      o ∈ promisedBefore (parseAckLog trace) event.index

/-- A crash point with a state stands at an event stamped after `a`. -/
def FollowedBy (trace : Trace) (model : FilesystemModel) (bounds : Bounds) (a : ℕ) : Prop :=
  ∃ k, (∃ event ∈ trace.events[k]?, a < event.index) ∧ (model.totalOrder = true ∨
    windowSize bounds.maxUnpersistedWindow (unpinnedCount trace.events k) % 32 ≠ 31)

lemma tested_iff_exists : Tested trace model bounds o ↔
    ∃ k, (∃ s, s ∈ CrashPoint.states trace.events model bounds k) ∧
      ∃ event ∈ trace.events[k]?, o ∈ promisedBefore (parseAckLog trace) event.index := by
  constructor
  · rintro ⟨states, hok, s, hs, hcounted⟩
    exact ⟨s.crashPoint, ⟨s, (emittedAt_iff.mp ⟨none, states, hok, hs, rfl⟩).2⟩, hcounted⟩
  · rintro ⟨k, ⟨s, hs⟩, event, hevent, hcounted⟩
    have hk : k < trace.events.length := (List.getElem?_eq_some_iff.mp hevent).1
    refine ⟨_, enumerateFrom_eq_ok.mpr ⟨fun j hj => List.mem_range.mp hj, rfl⟩, s,
      List.mem_flatMap.mpr ⟨k, List.mem_range.mpr hk, hs⟩, event, ?_, hcounted⟩
    rwa [CrashPoint.crashPoint_of_mem hs]

lemma tested_iff_followedBy (ho : o ∈ parseAckLog trace) (hdurable : o.durable = true)
    (hack : o.acknowledgedAt = some a) :
    Tested trace model bounds o ↔ FollowedBy trace model bounds a := by
  rw [tested_iff_exists]
  refine exists_congr fun k => ?_
  rw [CrashPoint.states_ne_nil_iff, and_comm]
  refine and_congr_left fun _ => exists_congr fun event => and_congr_right fun _ => ?_
  rw [mem_promisedBefore]
  constructor
  · rintro ⟨-, -, b, hb, hlt⟩
    obtain rfl : a = b := Option.some.inj (hack.symm.trans hb)
    exact hlt
  · exact fun hlt => ⟨ho, hdurable, a, hack, hlt⟩

/-- **Which acknowledgements are tested**, and that the loss of a tested one is
reported. -/
theorem tested_iff (trace : Trace) (model : FilesystemModel) (bounds : Bounds)
    (ho : o ∈ parseAckLog trace) (hdurable : o.durable = true) (hack : o.acknowledgedAt = some a) :
    (Tested trace model bounds o ↔ FollowedBy trace model bounds a) ∧
      ∀ crashStamp, o ∈ promisedBefore (parseAckLog trace) crashStamp →
        ∀ intact values detail, values o.key ≠ some o.digest →
          ∃ v ∈ checkOracle ⟨crashStamp, parseAckLog trace, .opened intact values detail⟩,
            v.violationClass = .lostAcked ∧ v.op = some o.op :=
  ⟨tested_iff_followedBy ho hdurable hack, fun _ h intact _ detail hlost =>
    ⟨_, lost_reported h hlost intact detail, rfl, rfl⟩⟩

/-- A put of one write, whose file is unlinked after the ack. -/
def droppedTrace (events : List TraceEvent) : Trace where
  header := ⟨1, 7⟩
  events := events
  markers := [⟨0, 7, "op=1 phase=begin kind=put key=k"⟩,
    ⟨4, 7, "op=1 phase=ack kind=put key=k digest=aa durable=1"⟩]

lemma parseAckLog_droppedTrace (events : List TraceEvent) :
    parseAckLog (droppedTrace events) = [⟨1, "put", "k", "aa", 0, some 4, true⟩] := by
  have hmarkers : (droppedTrace events).markers = (droppedTrace []).markers := rfl
  rw [parseAckLog, hmarkers]
  decide +kernel

/-- An ack between two events is tested at the second one. -/
theorem tested_between :
    Tested (droppedTrace [callAt 1 .write "/db/k", callAt 3 .unlink "/db/k"]) xfs ⟨true, 8⟩
      ⟨1, "put", "k", "aa", 0, some 4, true⟩ := by
  refine (tested_iff _ xfs ⟨true, 8⟩ ?_ rfl rfl).1.mpr ⟨1, ⟨_, rfl, by decide⟩, .inr (by decide)⟩
  rw [parseAckLog_droppedTrace]
  exact List.mem_singleton_self _

/-- An ack after the last event is tested nowhere. -/
theorem untested_last :
    ⟨1, "put", "k", "aa", 0, some 4, true⟩ ∈
        parseAckLog (droppedTrace [callAt 1 .write "/db/k"]) ∧
      ¬ Tested (droppedTrace [callAt 1 .write "/db/k"]) xfs ⟨true, 8⟩
        ⟨1, "put", "k", "aa", 0, some 4, true⟩ := by
  have hlog : ⟨1, "put", "k", "aa", 0, some 4, true⟩ ∈
      parseAckLog (droppedTrace [callAt 1 .write "/db/k"]) := by
    rw [parseAckLog_droppedTrace]
    exact List.mem_singleton_self _
  refine ⟨hlog, fun htested => ?_⟩
  obtain ⟨k, ⟨event, hevent, hlt⟩, -⟩ := (tested_iff_followedBy hlog rfl rfl).mp htested
  obtain rfl : event = callAt 1 .write "/db/k" :=
    List.mem_singleton.mp (List.mem_of_getElem? hevent)
  revert hlt
  decide

end CrashFuzz
