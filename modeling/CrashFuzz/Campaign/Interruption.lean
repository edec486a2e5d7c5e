import CrashFuzz.Campaign.Occurrences
import CrashFuzz.Enumerate.Causality

/-!
A crash cannot see what comes after it: what is reported at a crash point of a
run is what is reported of the run that stopped there.

* `Reads.upTo`: what was read of the operations before a stamp.
* `promisedBefore_interrupted`: the promises of the shorter log.
* `earliestMissing_take`: the cause of a violation is found among the events up
  to the crash.
* `interrupted_same`: states, replays, violations and signatures agree.
-/

namespace CrashFuzz

variable {ops : List Logged} {t T k : ℕ} {markers : List TraceMarker} {o : Logged}
  {operations : OrderedMap ℚ AckedOperation} {trace : Trace} {r : AckedOperation}

/-- The trace of the run that stopped at position `k`: the calls up to it, and
the markers before its stamp `T`. -/
def Trace.interrupted (trace : Trace) (k T : ℕ) : Trace :=
  { trace.upTo k with markers := trace.markers.filter (·.index < T) }

/-! ### The log -/

namespace Logged

/-- Without a marker in between nothing more is read of an operation. -/
lemma before_eq (h : Interleaved ops t markers) (ho : o ∈ ops) (htT : t ≤ T)
    (hlate : ∀ m ∈ markers, T ≤ m.index) : o.before T = o.before t := by
  have hbegun : o.beganAt < T ↔ o.beganAt < t := by
    refine ⟨fun hlt => by_contra fun hge => ?_, fun hlt => hlt.trans_le htT⟩
    obtain ⟨m, hm, hindex, -⟩ := h.begun o ho (not_lt.mp hge)
    have hle := hlate m hm
    omega
  have hacked : o.ack.filter (·.stamp < T) = o.ack.filter (·.stamp < t) := by
    cases ha : o.ack with
    | none => rfl
    | some a =>
        have hstamp : a.stamp < T ↔ a.stamp < t := by
          refine ⟨fun hlt => by_contra fun hge => ?_, fun hlt => hlt.trans_le htT⟩
          obtain ⟨m, hm, hindex, -⟩ := (h.acked o ho a ha).2 (not_lt.mp hge)
          have hle := hlate m hm
          omega
        simp only [Option.filter_some, hstamp]
  simp only [before, hbegun, hacked]

/-- What was read of an operation acknowledged before a stamp is all of it. -/
lemma before_eq_some_iff (h : Interleaved ops 0 markers) (ho : o ∈ ops)
    (hr : ∃ a, r.acknowledgedAt = some a ∧ a < T) : o.before T = some r ↔ o.record = r := by
  obtain ⟨a, ha, hlt⟩ := hr
  cases hack : o.ack with
  | none =>
      have hne : o.begun ≠ r := by
        rintro rfl
        cases ha
      have hbefore : o.before T = some r → False := by
        rw [before, hack]
        split
        · exact fun heq => hne (Option.some.inj heq)
        · exact fun heq => by cases heq
      rw [record, hack]
      exact iff_of_false hbefore hne
  | some ack =>
      have hrecord : o.record = o.acked ack := by rw [record, hack]; rfl
      have hbegan := (h.acked o ho ack hack).1
      rw [hrecord, before, hack]
      constructor
      · intro heq
        split at heq
        · by_cases hstamp : ack.stamp < T
          · simp only [Option.filter_some, hstamp, decide_true, if_true] at heq
            exact Option.some.inj heq
          · simp only [Option.filter_some, hstamp, decide_false, Bool.false_eq_true,
              if_false] at heq
            obtain rfl : o.begun = r := Option.some.inj heq
            cases ha
        · cases heq
      · rintro rfl
        obtain rfl : ack.stamp = a := Option.some.inj ha
        rw [if_pos (hbegan.trans hlt)]
        simp only [Option.filter_some, hlt, decide_true, if_true]
        rfl

end Logged

/-- **Reading the markers before a stamp.** -/
lemma Reads.upTo (h : Reads ops t operations) (hmarkers : Interleaved ops t markers)
    (hdistinct : (ops.map (·.number)).Nodup) (htT : t ≤ T) :
    Reads ops T ((markers.filter (·.index < T)).foldl readMarker operations) := by
  have hstop : ∀ {t markers operations}, Reads ops t operations → Interleaved ops t markers →
      t ≤ T → (∀ m ∈ markers, T ≤ m.index) → Reads ops T operations := by
    intro t markers operations h hmarkers htT hlate
    exact ⟨fun o ho => (h.known o ho).trans (Logged.before_eq hmarkers ho htT hlate).symm, h.only⟩
  induction markers generalizing t operations with
  | nil => exact hstop h hmarkers htT fun m hm => by cases hm
  | cons m markers ih =>
      by_cases hm : m.index < T
      · rw [List.filter_cons, if_pos (by simpa using hm), List.foldl_cons]
        exact ih (h.step hmarkers hdistinct) hmarkers.tail hm
      · have hlate : ∀ m' ∈ m :: markers, T ≤ m'.index := by
          rw [List.forall_mem_cons]
          exact ⟨not_lt.mp hm, fun m' hm' => (not_lt.mp hm).trans (hmarkers.lt_of_mem hm').le⟩
        have hnone : (m :: markers).filter (·.index < T) = [] :=
          List.filter_eq_nil_iff.mpr fun m' hm' => by simpa using hlate m' hm'
        rw [hnone]
        exact hstop h hmarkers htT hlate

lemma mem_parseAckLog_iff : r ∈ parseAckLog trace ↔
    ∃ x, (trace.markers.foldl readMarker .empty).get? x = some r := by
  rw [parseAckLog, List.mem_insertionSort, OrderedMap.mem_values_iff]

/-- A record of an operation is found under its number only. -/
lemma exists_get?_iff {f : Logged → Option AckedOperation}
    (hknown : ∀ o ∈ ops, operations.get? o.number = f o)
    (honly : ∀ x, (∀ o ∈ ops, o.number ≠ x) → operations.get? x = none) :
    (∃ x, operations.get? x = some r) ↔ ∃ o ∈ ops, f o = some r := by
  constructor
  · rintro ⟨x, hx⟩
    by_contra hnone
    have habsent := honly x fun o ho hnumber => hnone ⟨o, ho, by rw [← hknown o ho, hnumber, hx]⟩
    rw [habsent] at hx
    cases hx
  · rintro ⟨o, ho, hr⟩
    exact ⟨o.number, (hknown o ho).trans hr⟩

lemma nodup_parseAckLog (trace : Trace) : (parseAckLog trace).Nodup :=
  List.Nodup.of_map _ (nodup_op_parseAckLog trace)

/-- The two logs hold the same promises. -/
lemma mem_promisedBefore_interrupted (h : Interleaved ops 0 trace.markers)
    (hdistinct : (ops.map (·.number)).Nodup) :
    r ∈ promisedBefore (parseAckLog (trace.interrupted k T)) T ↔
      r ∈ promisedBefore (parseAckLog trace) T := by
  have hbegin : Reads ops 0 .empty := ⟨fun o _ => rfl, fun _ _ => rfl⟩
  have hshort := hbegin.upTo h hdistinct (Nat.zero_le T)
  obtain ⟨hknown, honly⟩ := hbegin.run h hdistinct
  have hwhole := exists_get?_iff (r := r) hknown honly
  have hstopped := exists_get?_iff (r := r) hshort.known hshort.only
  rw [mem_promisedBefore, mem_promisedBefore, mem_parseAckLog_iff, mem_parseAckLog_iff, hwhole]
  refine and_congr_left fun hpromised => hstopped.trans ?_
  refine exists_congr fun o => and_congr_right fun ho => ?_
  rw [Logged.before_eq_some_iff h ho hpromised.2, Option.some.injEq]

/-- **The promises before a crash** are those of the run that stopped there, in
the same order. -/
lemma promisedBefore_interrupted (h : Interleaved ops 0 trace.markers)
    (hdistinct : (ops.map (·.number)).Nodup) :
    promisedBefore (parseAckLog (trace.interrupted k T)) T =
      promisedBefore (parseAckLog trace) T := by
  have htotal : Std.Total fun a b : AckedOperation => a.beganAt ≤ b.beganAt :=
    ⟨fun a b => le_total _ _⟩
  have htrans : IsTrans AckedOperation fun a b => a.beganAt ≤ b.beganAt := ⟨fun _ _ _ => le_trans⟩
  have hsorted : ∀ trace, (promisedBefore (parseAckLog trace) T).Pairwise
      (·.beganAt ≤ ·.beganAt) := fun trace =>
    (List.pairwise_insertionSort (fun a b : AckedOperation => a.beganAt ≤ b.beganAt) _).filter _
  have hperm := (List.perm_ext_iff_of_nodup ((nodup_parseAckLog (trace.interrupted k T)).filter _)
    ((nodup_parseAckLog trace).filter _)).mpr fun r => mem_promisedBefore_interrupted h hdistinct
  -- different operations began at different stamps
  have hrecord : ∀ r ∈ promisedBefore (parseAckLog trace) T, ∃ o ∈ ops, o.record = r := by
    intro r hr
    have hbegin : Reads ops 0 .empty := ⟨fun o _ => rfl, fun _ _ => rfl⟩
    obtain ⟨hknown, honly⟩ := hbegin.run h hdistinct
    have hmem := mem_parseAckLog_iff.mp (mem_promisedBefore.mp hr).1
    obtain ⟨o, ho, heq⟩ := (exists_get?_iff hknown honly).mp hmem
    exact ⟨o, ho, Option.some.inj heq⟩
  refine hperm.eq_of_pairwise (fun a b ha hb hab hba => ?_) (hsorted _) (hsorted _)
  obtain ⟨o, ho, rfl⟩ := hrecord a (hperm.mem_iff.mp ha)
  obtain ⟨o', ho', rfl⟩ := hrecord b hb
  have hstamp := le_antisymm hab hba
  rw [o.beganAt_record, o'.beganAt_record] at hstamp
  rw [List.inj_on_of_nodup_map (h.nodup_beganAt hdistinct) ho ho' hstamp]

/-! ### The cause -/

variable {state : CrashState} {operation : AckedOperation}

/-- Events that are not in flight have no part in it. -/
lemma earliestMissing_append {events later : List TraceEvent} (index : ℕ)
    (hlater : ∀ e ∈ later, ¬ InFlight operation e) :
    earliestMissing state operation index (events ++ later) =
      earliestMissing state operation index events := by
  induction events generalizing index with
  | nil =>
      rw [List.nil_append]
      induction later generalizing index with
      | nil => rfl
      | cons e later ih =>
          rw [earliestMissing_cons, if_neg fun h => hlater e List.mem_cons_self h.1,
            ih fun e' he' => hlater e' (List.mem_cons_of_mem e he')]
          rfl
  | cons e events ih => rw [List.cons_append, earliestMissing_cons, earliestMissing_cons, ih]

/-- The cause is found among the events up to the crash. -/
lemma earliestMissing_take (hsorted : trace.events.Pairwise (·.index < ·.index))
    {crash : TraceEvent} (hcrash : trace.events[k]? = some crash)
    (hacked : ∃ a ≤ crash.index, operation.acknowledgedAt = some a) :
    earliestMissing state operation 0 (trace.events.take (k + 1)) =
      earliestMissing state operation 0 trace.events := by
  obtain ⟨hk, rfl⟩ := List.getElem?_eq_some_iff.mp hcrash
  have hlater : ∀ e ∈ trace.events.drop (k + 1), ¬ InFlight operation e := by
    intro e he hflight
    obtain ⟨a, hle, ha⟩ := hacked
    obtain ⟨i, hi, rfl⟩ := List.getElem_of_mem he
    rw [List.getElem_drop] at hflight
    have hlt := List.pairwise_iff_getElem.mp hsorted k (k + 1 + i) hk
      (by rw [List.length_drop] at hi; omega) (by omega)
    have hindex := hflight.2.2.2 a ha
    omega
  have happend := @earliestMissing_append state operation (trace.events.take (k + 1))
    (trace.events.drop (k + 1)) 0 hlater
  rw [List.take_append_drop] at happend
  exact happend.symm

/-! ### The campaign -/

namespace Campaign

variable {c : Campaign} {crash : TraceEvent}

/-- The campaign on the run that stopped at position `k`, with the same recoveries. -/
def interrupted (c : Campaign) (k T : ℕ) : Campaign := { c with trace := c.trace.interrupted k T }

lemma crashStamp_interrupted (hcrash : c.trace.events[k]? = some crash)
    (hstate : state.crashPoint = k) :
    c.crashStamp state = crash.index ∧
      (c.interrupted k crash.index).crashStamp state = crash.index := by
  have hcut : (c.interrupted k crash.index).trace.events[k]? = some crash :=
    (agreeTo_take k c.trace.events k le_rfl).trans hcrash
  rw [crashStamp, crashStamp, hstate, hcrash, hcut]
  exact ⟨rfl, rfl⟩

/-- The operation that is blamed is the same one. -/
lemma blamedOperation_interrupted (h : Interleaved ops 0 c.trace.markers)
    (hdistinct : (ops.map (·.number)).Nodup) {recovery : RecoveryResult} {v : Violation}
    (hv : v ∈ checkOracle ⟨T, c.ackLog, recovery⟩) :
    blamedOperation (c.interrupted k T).ackLog T v = blamedOperation c.ackLog T v := by
  rcases cases_of_mem_checkOracle hv with ⟨hnone, -⟩ | ⟨o, ho, hop, -⟩
  · have hfind : ∀ log : List AckedOperation, log.find? (fun entry => some entry.op = none) =
        none := by simp
    rw [blamedOperation, blamedOperation, hnone, hfind, hfind]
  · have hcut : o ∈ (c.interrupted k T).ackLog :=
      (mem_promisedBefore.mp ((mem_promisedBefore_interrupted h hdistinct).mpr ho)).1
    have hnodup : ∀ c : Campaign, (c.ackLog.map (·.op)).Nodup := fun c =>
      nodup_op_parseAckLog c.trace
    rw [blamedOperation, blamedOperation, hop, find?_op (hnodup c) (mem_promisedBefore.mp ho).1,
      find?_op (hnodup (c.interrupted k T)) hcut]

/-- **A crash cannot see what comes after it.** Of a run whose operations were
logged, in any order of its threads, each crash point has the states of the run
that stopped there. They are replayed by the same calls, and whatever recovery
makes of them, the same violations are reported under the same signatures. -/
theorem interrupted_same (h : Interleaved ops 0 c.trace.markers)
    (hdistinct : (ops.map (·.number)).Nodup)
    (hsorted : c.trace.events.Pairwise (·.index < ·.index))
    (hcrash : c.trace.events[k]? = some crash) (model : FilesystemModel) (bounds : Bounds)
    (s : CrashState) :
    (EmittedAt (c.interrupted k crash.index).trace model bounds k s ↔
      EmittedAt c.trace model bounds k s) ∧
    (EmittedAt c.trace model bounds k s →
      (∀ options, replaySelection options (c.interrupted k crash.index).trace s.selection =
        replaySelection options c.trace s.selection) ∧
      ∀ i, (c.interrupted k crash.index).violations i s = c.violations i s ∧
        ∀ v ∈ c.violations i s,
          (c.interrupted k crash.index).signature s v = c.signature s v) := by
  constructor
  · refine Iff.trans ?_ emittedAt_upTo
    rw [emittedAt_iff, emittedAt_iff]
    rfl
  · intro hemitted
    obtain ⟨hk, hstate⟩ := emittedAt_iff.mp hemitted
    have hpoint := CrashPoint.crashPoint_of_mem hstate
    obtain ⟨hstamp, hstamp'⟩ := crashStamp_interrupted hcrash hpoint
    refine ⟨fun options => replaySelection_upTo hstate hk options, fun i => ⟨?_, fun v hv => ?_⟩⟩
    · rw [violations, violations, hstamp, hstamp', checkOracle, checkOracle, ackLog, ackLog]
      simp only [interrupted, promisedBefore_interrupted h hdistinct]
    · rw [violations, hstamp] at hv
      rw [signature, signature, hstamp, hstamp', blamedOperation_interrupted h hdistinct hv,
        signatureOf, signatureOf]
      congr 1
      exact earliestMissing_take hsorted hcrash
        (acknowledgedAt_blamedOperation (nodup_op_parseAckLog c.trace) hv)

/-- A put that has been acknowledged. -/
def ackedPut (id : ℤ) (number : ℚ) (key digest : String) (beganAt acknowledgedAt : ℕ)
    (h : toNumber (toString id) = some number ∧ Solid "put" ∧ Solid key ∧ Solid digest) :
    Logged where
  id := id
  kind := "put"
  key := key
  beganAt := beganAt
  ack := some ⟨acknowledgedAt, digest, true, h.2.2.2⟩
  kind_solid := h.2.1
  key_solid := h.2.2.1
  number := number
  number_eq := h.1

lemma logged_first : toNumber (toString (1 : ℤ)) = some 1 ∧ Solid "put" ∧ Solid "k" ∧
    Solid "aa" := ⟨toNumber_small.1, by decide⟩

lemma logged_second : toNumber (toString (2 : ℤ)) = some 2 ∧ Solid "put" ∧ Solid "m" ∧
    Solid "bb" := ⟨toNumber_small.2, by decide⟩

/-- The two puts of a run, as they were logged. -/
def twoPutOps : List Logged :=
  [ackedPut 1 1 "k" "aa" 0 4 logged_first, ackedPut 2 2 "m" "bb" 1 5 logged_second]

/-- The two puts, with a write that comes after the crash. -/
def laterWrite : Campaign :=
  { twoPuts with
    trace := { twoPutTrace with events := twoPutTrace.events ++ [writeAt 7 "/d/c"] } }

lemma interleaved_twoPutOps : Interleaved twoPutOps 0 laterWrite.trace.markers := by
  refine ⟨by decide, by simp, ?_, ?_, ?_⟩
  · simp only [twoPutOps, laterWrite, twoPutTrace, List.forall_mem_cons]
    decide +kernel
  · simp only [twoPutOps, laterWrite, twoPutTrace, List.forall_mem_cons]
    decide +kernel
  · intro m hm
    simp only [laterWrite, twoPutTrace, List.mem_cons, List.not_mem_nil, or_false] at hm
    rcases hm with rfl | rfl | rfl | rfl
    · exact .inl ⟨_, List.mem_cons_self, rfl, by decide +kernel⟩
    · exact .inl ⟨_, List.mem_cons_of_mem _ List.mem_cons_self, rfl, by decide +kernel⟩
    · exact .inr (.inl ⟨_, List.mem_cons_self, _, rfl, rfl, by decide +kernel⟩)
    · exact .inr (.inl ⟨_, List.mem_cons_of_mem _ List.mem_cons_self, _, rfl, rfl,
        by decide +kernel⟩)

/-- Without its write the first put is lost, whether or not the run went on. -/
theorem laterWrite_same :
    (laterWrite.interrupted 1 6).violations 0 ⟨1, [], []⟩ =
      laterWrite.violations 0 ⟨1, [], []⟩ := by
  have hemitted : EmittedAt laterWrite.trace ext4Ordered ⟨true, 8⟩ 1 ⟨1, [], []⟩ := by
    rw [emittedAt_iff]
    decide
  have hsame := @interrupted_same twoPutOps 1 laterWrite (writeAt 6 "/d/b")
    interleaved_twoPutOps (by decide) (by decide) rfl ext4Ordered ⟨true, 8⟩ ⟨1, [], []⟩
  exact ((hsame.2 hemitted).2 0).1

end Campaign

end CrashFuzz
