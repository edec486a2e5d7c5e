import CrashFuzz.Campaign.Occurrences

/-!
What a campaign accuses a target of.

* `Whole`: every mutation issued while an operation was in flight is on disk.
* `Campaign.Faithful`, `Campaign.Exact`: recovery gives back an operation if it
  is whole, or exactly if it is.
* `exists_first`: a crash point has a state that keeps least, which is sampled.
* `accusations`: a faithful target is only accused of operations it lost, and
  never if it syncs each of them before its acknowledgement.
* `silent_iff_unavoidable`: an exact target passes a campaign exactly if every crash point
  that is selected keeps all mutations of the operations promised before it.
-/

namespace CrashFuzz

open PosixPath Subsets

/-- Every mutation issued while an operation was in flight is on disk. -/
def Whole (trace : Trace) (state : CrashState) (o : AckedOperation) : Prop :=
  ∀ m event, trace.events[m]? = some event → InFlight o event → m ∈ state.persisted

namespace Campaign

variable (c : Campaign) (i : ℕ) (state : CrashState)

/-- The target opens what a state left, intact, and reads back every promised
operation that is whole. -/
def Faithful : Prop :=
  ∃ values detail, c.recovery i = .opened true values detail ∧
    ∀ o ∈ promisedBefore c.ackLog (c.crashStamp state), Whole c.trace state o →
      values o.key = some o.digest

/-- It reads back no other one. -/
def Exact : Prop :=
  ∃ values detail, c.recovery i = .opened true values detail ∧
    ∀ o ∈ promisedBefore c.ackLog (c.crashStamp state),
      values o.key = some o.digest ↔ Whole c.trace state o

variable {c i state}

lemma Exact.faithful (h : c.Exact i state) : c.Faithful i state := by
  obtain ⟨values, detail, hopened, hexact⟩ := h
  exact ⟨values, detail, hopened, fun o ho => (hexact o ho).mpr⟩

/-- An exact target is accused in the states that lack a mutation of a promised
operation. -/
lemma Exact.violations_eq_nil_iff (h : c.Exact i state) : c.violations i state = [] ↔
    ∀ o ∈ promisedBefore c.ackLog (c.crashStamp state), Whole c.trace state o := by
  obtain ⟨values, detail, hopened, hexact⟩ := h
  rw [violations, hopened, checkOracle_opened_eq_nil]
  exact forall₂_congr hexact

/-- A faithful one only of operations that are not whole. -/
lemma Faithful.lost_of_mem (h : c.Faithful i state) {v : Violation}
    (hv : v ∈ c.violations i state) : v.violationClass = .lostAcked ∧
      ∃ o ∈ promisedBefore c.ackLog (c.crashStamp state), v.op = some o.op ∧
        ¬ Whole c.trace state o := by
  obtain ⟨values, detail, hopened, hfaithful⟩ := h
  have hne : promisedBefore c.ackLog (c.crashStamp state) ≠ [] := by
    intro hnone
    rw [violations, checkOracle, if_pos hnone] at hv
    cases hv
  rw [violations, checkOracle, if_neg hne, hopened] at hv
  simp only [if_true, List.nil_append, lostAcked_eq] at hv
  obtain ⟨o, ho, rfl⟩ := List.mem_map.mp hv
  obtain ⟨hpromised, hlost⟩ := List.mem_filter.mp ho
  exact ⟨rfl, o, hpromised, rfl, fun hwhole =>
    of_decide_eq_true hlost (hfaithful o hpromised hwhole)⟩

/-- A run is silent exactly if every state is. -/
lemma findings_run_eq_nil_iff {states : List CrashState} :
    (c.run states).findings.values = [] ↔
      ∀ i state, states[i]? = some state → c.violations i state = [] := by
  have hnil : (c.run states).findings.values = [] ↔
      ∀ s, s ∉ (c.run states).findings.values.map (·.signature) := by
    rw [← List.eq_nil_iff_forall_not_mem, List.map_eq_nil_iff]
  rw [hnil]
  constructor
  · intro h i state hstate
    refine List.eq_nil_iff_forall_not_mem.mpr fun v hv => ?_
    exact h _ (mem_signatures_iff.mpr ⟨i, state, hstate, v, hv, rfl⟩)
  · intro h s hs
    obtain ⟨i, state, hstate, v, hv, -⟩ := mem_signatures_iff.mp hs
    rw [h i state hstate] at hv
    cases hv

end Campaign

/-! ### The state that keeps least -/

namespace CrashPoint

variable {events : List TraceEvent} {model : FilesystemModel} {bounds : Bounds} {k W : ℕ}

/-- The states of a total-order model only grow. -/
lemma pairwise_prefixStates {V : ℤ} :
    (prefixStates events V k).Pairwise (·.persisted ⊆ ·.persisted) := by
  rw [prefixStates, List.pairwise_flatMap]
  refine ⟨fun n _ => ?_, List.pairwise_lt_range.imp fun {n n'} hlt s hs s' hs' => ?_⟩
  · dsimp only
    split
    · exact List.pairwise_singleton _ _
    · exact List.Pairwise.nil
  · dsimp only at hs hs'
    split at hs
    · split at hs'
      · rw [List.mem_singleton.mp hs, List.mem_singleton.mp hs']
        exact (List.take_sublist_take_left hlt.le).subset
      · cases hs'
    · cases hs

/-- The first state of a crash point keeps what all its states keep. -/
lemma exists_first (hbounds : bounds.maxUnpersistedWindow = W) (hW : 1 ≤ W) (hW' : W ≤ 30) :
    ∃ first, (states events model bounds k).head? = some first ∧
      ∀ s ∈ states events model bounds k, first.persisted ⊆ s.persisted := by
  cases hmodel : model.totalOrder with
  | false =>
      refine ⟨_, head_states hmodel hbounds hW hW', fun s hs i hi => ?_⟩
      exact alwaysPresent_subset hs (hbounds ▸ hi)
  | true =>
      have hprefixes : states events model bounds k =
          prefixStates events bounds.maxUnpersistedWindow k := by rw [states, if_pos hmodel]
      have hgrow := @pairwise_prefixStates events k bounds.maxUnpersistedWindow
      have hsome := @issued_mem_states events k model bounds hmodel
      rw [hprefixes] at hsome ⊢
      cases hall : prefixStates events bounds.maxUnpersistedWindow k with
      | nil => simp [hall] at hsome
      | cons first rest =>
          rw [hall, List.pairwise_cons] at hgrow
          refine ⟨first, rfl, fun s hs => ?_⟩
          rcases List.mem_cons.mp hs with rfl | hs
          · exact List.Subset.refl _
          · exact hgrow.1 s hs

end CrashPoint

/-! ### What is tested -/

variable {text : String} {cwd : Chars} {options : CampaignOptions} {bounds : LoadedBounds}
  {recovery : ℕ → RecoveryResult} {trace : Trace} {tested k m W : ℕ} {states : List CrashState}
  {state : CrashState}

/-- The crash points of a campaign. -/
def LoadedBounds.points (bounds : LoadedBounds) (options : CampaignOptions) (trace : Trace) :
    List ℕ :=
  selectCrashPoints trace
    ⟨bounds.nonFsyncSampleRate, options.seed, some bounds.maxExhaustiveWorkloadOps⟩

/-- The bounds of its enumeration. -/
def LoadedBounds.enumeration (bounds : LoadedBounds) : Bounds :=
  ⟨bounds.tornWrites, bounds.maxUnpersistedWindow⟩

lemma enumerate_points (trace : Trace) (options : CampaignOptions) (bounds : LoadedBounds) :
    enumerateCrashStates trace
        ⟨options.model, bounds.enumeration, some (bounds.points options trace)⟩ =
      .ok ((bounds.points options trace).flatMap
        (CrashPoint.states trace.events options.model bounds.enumeration)) :=
  enumerateFrom_eq_ok.mpr ⟨fun _ => lt_of_mem_selectCrashPoints, rfl⟩

/-- What a campaign tests is a sample of the enumeration at its crash points. -/
lemma statesToTest_eq (trace : Trace) (options : CampaignOptions) (bounds : LoadedBounds) :
    statesToTest trace options bounds = .ok ((bounds.points options trace).length,
      sampleStates ((bounds.points options trace).flatMap
          (CrashPoint.states trace.events options.model bounds.enumeration))
        ⟨bounds.maxStatesPerCrashPoint, options.seed⟩) := by
  rw [statesToTest]
  change (do
    let emitted ← enumerateCrashStates trace
      ⟨options.model, bounds.enumeration, some (bounds.points options trace)⟩
    return ((bounds.points options trace).length,
      sampleStates emitted ⟨bounds.maxStatesPerCrashPoint, options.seed⟩)) = _
  rw [enumerate_points]
  rfl

lemma statesToTest_ok (h : statesToTest trace options bounds = .ok (tested, states)) :
    ∃ emitted, enumerateCrashStates trace
        ⟨options.model, bounds.enumeration, some (bounds.points options trace)⟩ = .ok emitted ∧
      states = sampleStates emitted ⟨bounds.maxStatesPerCrashPoint, options.seed⟩ := by
  rw [statesToTest_eq] at h
  exact ⟨_, enumerate_points _ _ _, (Prod.ext_iff.mp (Except.ok.inj h)).2.symm⟩

/-- A tested state is one of a selected crash point. -/
lemma emitted_of_tested (h : statesToTest trace options bounds = .ok (tested, states))
    (hstate : state ∈ states) : state.crashPoint ∈ bounds.points options trace ∧
      state ∈ CrashPoint.states trace.events options.model bounds.enumeration state.crashPoint := by
  obtain ⟨emitted, hok, rfl⟩ := statesToTest_ok h
  obtain ⟨-, rfl⟩ := enumerateFrom_eq_ok.mp hok
  obtain ⟨k, hk, hmem⟩ := List.mem_flatMap.mp (mem_of_mem_sampleStates hstate)
  rw [CrashPoint.crashPoint_of_mem hmem]
  exact ⟨hk, hmem⟩

/-- **What every tested state of a crash point keeps** is what no state of it
can lack. -/
lemma tested_forall_iff (h : statesToTest trace options bounds = .ok (tested, states))
    (hbounds : bounds.maxUnpersistedWindow = W) (hW : 1 ≤ W) (hW' : W ≤ 30)
    (hk : k ∈ bounds.points options trace)
    (hm : m ∈ CrashPoint.issued trace.events bounds.maxUnpersistedWindow k) :
    (∀ s ∈ states, s.crashPoint = k → m ∈ s.persisted) ↔
      Unavoidable options.model trace.events W k m := by
  have hfloor := @persisted_forall_iff trace.events k m options.model bounds.enumeration hm
  rw [show bounds.enumeration.maxUnpersistedWindow = (W : ℤ) from hbounds] at hfloor
  rw [← hfloor]
  constructor
  · intro hall s hs
    obtain ⟨emitted, hok, rfl⟩ := statesToTest_ok h
    obtain ⟨first, hhead, hleast⟩ := @CrashPoint.exists_first trace.events options.model
      bounds.enumeration k W hbounds hW hW'
    have hsampled := @mem_sampleStates _ ⟨bounds.maxStatesPerCrashPoint, options.seed⟩ k first
      (.inl (head?_group hok hk hhead))
    exact hleast s hs (hall first hsampled
      (CrashPoint.crashPoint_of_mem (List.mem_of_mem_head? hhead)))
  · intro hall s hs hpoint
    exact hall s (hpoint ▸ (emitted_of_tested h hs).2)

/-! ### What is blamed -/

variable {crash event : TraceEvent} {o : AckedOperation}

/-- A mutation of a promised operation was issued at or before the crash point. -/
lemma le_of_promised (hsorted : trace.events.Pairwise (·.index ≤ ·.index))
    (hcrash : trace.events[k]? = some crash)
    (ho : o ∈ promisedBefore (parseAckLog trace) crash.index)
    (hm : trace.events[m]? = some event) {a : ℕ} (ha : o.acknowledgedAt = some a)
    (hle : event.index ≤ a) : m ≤ k := by
  obtain ⟨-, -, b, hb, hlt⟩ := mem_promisedBefore.mp ho
  obtain rfl : a = b := Option.some.inj (ha.symm.trans hb)
  obtain ⟨hmlen, rfl⟩ := List.getElem?_eq_some_iff.mp hm
  obtain ⟨hklen, rfl⟩ := List.getElem?_eq_some_iff.mp hcrash
  by_contra hlate
  have hindex := List.pairwise_iff_getElem.mp hsorted k m hklen hmlen (by omega)
  omega

/-- So it is among what the crash point has issued. -/
lemma mem_issued_of_promised (hsorted : trace.events.Pairwise (·.index ≤ ·.index))
    (hcrash : trace.events[k]? = some crash)
    (ho : o ∈ promisedBefore (parseAckLog trace) crash.index)
    (hm : trace.events[m]? = some event) (hflight : InFlight o event) {V : ℤ} :
    m ∈ CrashPoint.issued trace.events V k := by
  obtain ⟨-, -, a, ha, -⟩ := mem_promisedBefore.mp ho
  refine CrashPoint.mem_issued_of_applied ?_ ⟨event, hm, hflight.1, hflight.2.1⟩
  exact le_of_promised hsorted hcrash ho hm ha (hflight.2.2.2 a ha)

/-- What a state lacks of a promised operation has a first mutation. -/
lemma exists_blames (hsorted : trace.events.Pairwise (·.index ≤ ·.index))
    (hcrash : trace.events[k]? = some crash)
    (ho : o ∈ promisedBefore (parseAckLog trace) crash.index) {model : FilesystemModel}
    {bounds : Bounds} (hstate : state ∈ CrashPoint.states trace.events model bounds k)
    (hlost : ¬ Whole trace state o) : ∃ m event, Blames trace.events k state o m event ∧
      earliestMissing state o 0 trace.events = blame state m event := by
  have hspec := @earliestMissing_spec state o trace.events
    (fun t ht => (CrashPoint.torn_window hstate ht).2) 0
  simp only [Nat.zero_add] at hspec
  rcases hspec with ⟨-, hall⟩ | ⟨m, event, hm, hflight, hdropped, hleast, hblame⟩
  · exact absurd hall hlost
  · obtain ⟨-, -, a, ha, -⟩ := mem_promisedBefore.mp ho
    have hbefore := le_of_promised hsorted hcrash ho hm ha (hflight.2.2.2 a ha)
    refine ⟨m, event, ⟨hm, hbefore, hflight, hdropped, hleast, fun hpinned => ?_⟩, hblame⟩
    exact hdropped (CrashPoint.alwaysPresent_subset hstate
      (CrashPoint.mem_alwaysPresent.mpr (.inl hpinned)))

/-- A finding of a campaign: the operation it accuses the target of having lost
was promised before the crash, and the mutation it names is one of its own, which the
kept state lacks and which no persistence call on its path followed. -/
structure Accuses (trace : Trace) (f : Finding) (o : AckedOperation) : Prop where
  promised : ∃ crash, trace.events[f.state.crashPoint]? = some crash ∧
    o ∈ promisedBefore (parseAckLog trace) crash.index
  named : f.violation.violationClass = .lostAcked ∧ f.violation.op = some o.op
  blames : ∃ m event, Blames trace.events f.state.crashPoint f.state o m event ∧
    f.signature = "LOST_ACKED|" ++ blame f.state m event

/-- If the operation was acknowledged as durable, each of its mutations is
followed by a successful persistence call on its path that was issued before. -/
def Synced (trace : Trace) (o : AckedOperation) : Prop :=
  o.durable = true → ∀ a, o.acknowledgedAt = some a →
    ∀ m event, trace.events[m]? = some event → InFlight o event →
      ∃ f : ℕ, m < f ∧ ∃ e ∈ trace.events[f]?, e.call ∈ persistence ∧ 0 ≤ e.returnValue ∧
        event.path = e.path ∧ e.index ≤ a

/-- Nothing unpinned is left to blame. -/
lemma Synced.not_blames (h : Synced trace o)
    (hsorted : trace.events.Pairwise (·.index ≤ ·.index)) (hcrash : trace.events[k]? = some crash)
    (ho : o ∈ promisedBefore (parseAckLog trace) crash.index) :
    ¬ Blames trace.events k state o m event := by
  intro hblames
  obtain ⟨-, hdurable, a, ha, -⟩ := mem_promisedBefore.mp ho
  obtain ⟨f, hmf, e, he, hcall, hret, hpath, hle⟩ :=
    h hdurable a ha m event hblames.here hblames.in_flight
  exact hblames.unpinned ⟨event, hblames.here, hblames.in_flight.1, f, hmf,
    le_of_promised hsorted hcrash ho he ha hle, e, he, hcall, hret, hpath⟩

namespace Campaign

variable {c : Campaign}

lemma crashStamp_eq (hcrash : c.trace.events[state.crashPoint]? = some crash) :
    c.crashStamp state = crash.index := by
  rw [crashStamp, hcrash]
  rfl

/-- What a finding shows of a faithful target. -/
lemma accuses_of_mem (hsorted : c.trace.events.Pairwise (·.index ≤ ·.index))
    {model : FilesystemModel} {bounds : Bounds}
    (hstates : ∀ s ∈ states, s.crashPoint < c.trace.events.length ∧
      s ∈ CrashPoint.states c.trace.events model bounds s.crashPoint)
    (hfaithful : ∀ i state, states[i]? = some state → c.Faithful i state) {f : Finding}
    (hf : f ∈ (c.run states).findings.values) : ∃ o, Accuses c.trace f o := by
  obtain ⟨i, hstate, -, hfirst, -⟩ := exists_first hf
  have hreported := List.mem_of_find?_eq_some hfirst
  have hsignature : c.signature f.state f.violation = f.signature := by
    simpa using List.find?_some hfirst
  obtain ⟨hclass, o, ho, hop, hlost⟩ := (hfaithful i f.state hstate).lost_of_mem hreported
  obtain ⟨hpoint, hemitted⟩ := hstates f.state (List.mem_of_getElem? hstate)
  have hcrash := List.getElem?_eq_getElem hpoint
  have hblamed : blamedOperation c.ackLog (c.crashStamp f.state) f.violation = o := by
    rw [blamedOperation, hop, ackLog,
      find?_op (nodup_op_parseAckLog c.trace) (mem_promisedBefore.mp ho).1]
    rfl
  rw [crashStamp_eq hcrash] at ho
  obtain ⟨m, event, hblames, hblame⟩ := exists_blames hsorted hcrash ho hemitted hlost
  refine ⟨o, ⟨_, hcrash, ho⟩, ⟨hclass, hop⟩, m, event, hblames, ?_⟩
  rw [← hsignature, signature, hblamed, signatureOf, hblame, hclass]
  rfl

end Campaign

/-- **A faithful target** is only accused of operations it lost, whatever the
bounds and the seed, and never if it syncs them before it acknowledges them. -/
theorem accusations (hparse : parseTrace readLine text = .ok trace)
    (hstates : statesToTest trace options bounds = .ok (tested, states))
    (hfaithful : ∀ i state, states[i]? = some state →
      Campaign.Faithful ⟨trace, options.imageDir, cwd, recovery⟩ i state) :
    ∃ result images, runCampaign text cwd options bounds recovery = .ok (result, images) ∧
      (∀ f ∈ result.findings, ∃ o, Accuses trace f o) ∧
        ((∀ o ∈ parseAckLog trace, Synced trace o) → result.findings = []) := by
  have hsorted := (parseTrace_sorted hparse).1
  have hemitted : ∀ s ∈ states, s.crashPoint < trace.events.length ∧
      s ∈ CrashPoint.states trace.events options.model bounds.enumeration s.crashPoint := by
    intro s hs
    obtain ⟨hpoint, hmem⟩ := emitted_of_tested hstates hs
    exact ⟨lt_of_mem_selectCrashPoints hpoint, hmem⟩
  have haccuses : ∀ f ∈ (Campaign.run ⟨trace, options.imageDir, cwd, recovery⟩
      states).findings.values, ∃ o, Accuses trace f o := fun f hf =>
    @Campaign.accuses_of_mem _ ⟨trace, options.imageDir, cwd, recovery⟩ hsorted _ _ hemitted
      hfaithful f hf
  refine ⟨_, _, runCampaign_eq hparse hstates, haccuses, fun hsynced => ?_⟩
  refine List.eq_nil_iff_forall_not_mem.mpr fun f hf => ?_
  obtain ⟨o, ⟨crash, hcrash, ho⟩, -, m, event, hblames, -⟩ := haccuses f hf
  exact (hsynced o (mem_promisedBefore.mp ho).1).not_blames hsorted hcrash ho hblames

open Shim Json

/-- A sync of a file at a stamp. -/
def syncAt (index : ℕ) (path : String) : TraceEvent :=
  { writeAt index path with call := .fsync, length := 0, returnValue := 0 }

lemma readsBack_syncAt {index : ℕ} (hindex : index ≤ 9) {path : String} (h : Plain path.toList)
    (time : ℕ) : ReadsBack ⟨.event (syncAt index path), 0, time⟩ := by
  have hexact : ExactEvent (syncAt index path) := by
    simp only [ExactEvent, syncAt, writeAt]
    omega
  have hempty : Plain "".toList := by decide
  exact ⟨by simp, ⟨h, hempty, hempty⟩, readLine_event rfl hexact h hempty hempty⟩

/-- A put that writes a file, syncs it and is acknowledged, and a write after it. -/
def syncedLines : List Line :=
  [⟨.marker ⟨0, 7, "op=1 phase=begin kind=put key=k"⟩, 0, 0⟩, ⟨.event (writeAt 1 "/d/a"), 0, 1⟩,
    ⟨.event (syncAt 3 "/d/a"), 0, 1⟩,
    ⟨.marker ⟨5, 7, "op=1 phase=ack kind=put key=k digest=aa durable=1"⟩, 0, 0⟩,
    ⟨.event (writeAt 6 "/d/a"), 0, 2⟩]

/-- The trace of these records. -/
def syncedTrace : Trace where
  header := ⟨1, 7⟩
  events := [writeAt 1 "/d/a", syncAt 3 "/d/a", writeAt 6 "/d/a"]
  markers :=
    [⟨0, 7, "op=1 phase=begin kind=put key=k"⟩,
      ⟨5, 7, "op=1 phase=ack kind=put key=k digest=aa durable=1"⟩]

lemma parse_syncedLines :
    parseTrace readLine (textOf (headerLine opener :: syncedLines)) = .ok syncedTrace := by
  have hread : ∀ line ∈ syncedLines, ReadsBack line := by
    simp only [syncedLines, List.forall_mem_cons]
    exact ⟨readsBack_marker (by decide) (by decide), readsBack_writeAt (by decide) (by decide) _,
      readsBack_syncAt (by decide) (by decide) _, readsBack_marker (by decide) (by decide),
      readsBack_writeAt (by decide) (by decide) _, List.forall_mem_nil _⟩
  exact parse_readable hread

lemma parseAckLog_syncedTrace :
    parseAckLog syncedTrace = [⟨1, "put", "k", "aa", 0, some 5, true⟩] := by
  rw [parseAckLog]
  decide +kernel

/-- The write of the put is synced, the later one is not in flight. -/
lemma synced_syncedTrace {o : AckedOperation} (ho : o ∈ parseAckLog syncedTrace) :
    Synced syncedTrace o := by
  rw [parseAckLog_syncedTrace, List.mem_singleton] at ho
  subst ho
  rintro - a ha m event hm hflight
  obtain rfl : 5 = a := Option.some.inj ha
  rcases m with _ | _ | _ | m
  · obtain rfl : writeAt 1 "/d/a" = event := Option.some.inj hm
    exact ⟨1, by decide, syncAt 3 "/d/a", rfl, by decide⟩
  · obtain rfl : syncAt 3 "/d/a" = event := Option.some.inj hm
    exact absurd hflight (by decide)
  · obtain rfl : writeAt 6 "/d/a" = event := Option.some.inj hm
    exact absurd hflight (by decide)
  · simp [syncedTrace] at hm

/-- What an exact store holds of the put, in the states with its write. -/
def readsWritten (states : List CrashState) (i : ℕ) : RecoveryResult :=
  .opened true (fun _ => if ∃ s ∈ states[i]?, 0 ∈ s.persisted then some "aa" else none) none

/-- It is exact if the put is whole where its write is on disk. -/
lemma exact_readsWritten {states : List CrashState} {i : ℕ} {state : CrashState}
    {o : AckedOperation} (hlog : parseAckLog trace = [o]) (hdigest : o.digest = "aa")
    (hwhole : Whole trace state o ↔ 0 ∈ state.persisted) (hstate : states[i]? = some state) :
    Campaign.Exact ⟨trace, "/images".toList, "/".toList, readsWritten states⟩ i state := by
  refine ⟨_, none, rfl, fun o' ho' => ?_⟩
  have hmem := (mem_promisedBefore.mp ho').1
  rw [Campaign.ackLog, hlog, List.mem_singleton] at hmem
  subst hmem
  simp [hstate, hwhole, hdigest]

/-- A put that is synced is not reported, by a store that may lose what is not on disk. -/
theorem syncedLines_silent : ∃ tested states result images,
    statesToTest syncedTrace ⟨"/images".toList, ext4Ordered, 1⟩ ⟨1 / 20, 8, 3, 24, true⟩ =
      .ok (tested, states) ∧
    runCampaign (textOf (headerLine opener :: syncedLines)) "/".toList
        ⟨"/images".toList, ext4Ordered, 1⟩ ⟨1 / 20, 8, 3, 24, true⟩ (readsWritten states) =
      .ok (result, images) ∧ result.findings = [] := by
  have hstates := statesToTest_eq syncedTrace ⟨"/images".toList, ext4Ordered, 1⟩
    ⟨1 / 20, 8, 3, 24, true⟩
  have hwhole : ∀ state, Whole syncedTrace state ⟨1, "put", "k", "aa", 0, some 5, true⟩ ↔
      0 ∈ state.persisted := by
    intro state
    constructor
    · exact fun h => h 0 (writeAt 1 "/d/a") rfl (by decide)
    · intro h m event hm hflight
      rcases m with _ | _ | _ | m
      · exact h
      · obtain rfl : syncAt 3 "/d/a" = event := Option.some.inj hm
        exact absurd hflight (by decide)
      · obtain rfl : writeAt 6 "/d/a" = event := Option.some.inj hm
        exact absurd hflight (by decide)
      · simp [syncedTrace] at hm
  obtain ⟨result, images, hok, -, hsilent⟩ := accusations parse_syncedLines hstates
    fun i state hstate =>
      (exact_readsWritten parseAckLog_syncedTrace rfl (hwhole state) hstate).faithful
  exact ⟨_, _, result, images, hstates, hok, hsilent fun o ho => synced_syncedTrace ho⟩

/-- **When a campaign is silent** on an exact target: at every crash point that
is selected, each mutation of an operation promised before it is unavoidable. -/
theorem silent_iff_unavoidable (hparse : parseTrace readLine text = .ok trace)
    (hbounds : bounds.maxUnpersistedWindow = W) (hW : 1 ≤ W) (hW' : W ≤ 30)
    (hstates : statesToTest trace options bounds = .ok (tested, states))
    (hexact : ∀ i state, states[i]? = some state →
      Campaign.Exact ⟨trace, options.imageDir, cwd, recovery⟩ i state) :
    ∃ result images, runCampaign text cwd options bounds recovery = .ok (result, images) ∧
      (result.findings = [] ↔ ∀ k ∈ bounds.points options trace,
        ∀ crash, trace.events[k]? = some crash →
        ∀ o ∈ promisedBefore (parseAckLog trace) crash.index,
        ∀ m event, trace.events[m]? = some event → InFlight o event →
          Unavoidable options.model trace.events W k m) := by
  have hsorted := (parseTrace_sorted hparse).1
  refine ⟨_, _, runCampaign_eq hparse hstates, ?_⟩
  rw [Campaign.findings_run_eq_nil_iff]
  constructor
  · intro h k hk crash hcrash o ho m event hm hflight
    refine (tested_forall_iff hstates hbounds hW hW' hk
      (mem_issued_of_promised hsorted hcrash ho hm hflight)).mp fun s hs hpoint => ?_
    obtain ⟨i, hi⟩ := List.mem_iff_getElem?.mp hs
    have hstamp := @Campaign.crashStamp_eq s crash ⟨trace, options.imageDir, cwd, recovery⟩
      (hpoint.symm ▸ hcrash)
    exact (hexact i s hi).violations_eq_nil_iff.mp (h i s hi) o (hstamp.symm ▸ ho) m event hm
      hflight
  · intro h i s hi
    have hs := List.mem_of_getElem? hi
    have hpoint := (emitted_of_tested hstates hs).1
    have hcrash := List.getElem?_eq_getElem (lt_of_mem_selectCrashPoints hpoint)
    refine (hexact i s hi).violations_eq_nil_iff.mpr fun o ho m event hm hflight => ?_
    rw [Campaign.crashStamp_eq hcrash] at ho
    exact (tested_forall_iff hstates hbounds hW hW' hpoint
      (mem_issued_of_promised hsorted hcrash ho hm hflight)).mpr
        (h _ hpoint _ hcrash o ho m event hm hflight) s hs rfl

/-- The put is whole where its write is on disk. -/
lemma whole_putTrace {state : CrashState} :
    Whole (putTrace "/d/a") state ⟨1, "put", "k", "aa", 0, some 3, true⟩ ↔
      0 ∈ state.persisted := by
  constructor
  · exact fun h => h 0 (writeAt 1 "/d/a") rfl (by decide)
  · intro h m event hm hflight
    rcases m with _ | _ | m
    · exact h
    · obtain rfl : writeAt 4 "/d/b" = event := Option.some.inj hm
      exact absurd hflight (by decide)
    · simp [putTrace] at hm

/-- A put that is not synced is reported: the state without its write is tested. -/
theorem putLines_reported : ∃ recovery result images,
    runCampaign (textOf (headerLine opener :: putLines "/d/a")) "/".toList
        ⟨"/images".toList, ext4Ordered, 1⟩ ⟨1 / 20, 8, 3, 24, true⟩ recovery =
      .ok (result, images) ∧ result.findings ≠ [] := by
  have hall : LoadedBounds.points ⟨1 / 20, 8, 3, 24, true⟩ ⟨"/images".toList, ext4Ordered, 1⟩
      (putTrace "/d/a") = [0, 1] :=
    selectCrashPoints_of_not_sampled fun h => absurd h.long (by norm_num [putTrace])
  obtain ⟨tested, states, hstates, -⟩ := @exists_statesToTest (putTrace "/d/a")
    ⟨"/images".toList, ext4Ordered, 1⟩ ⟨1 / 20, 8, 3, 24, true⟩ 1 8 rfl rfl (by decide)
    (by decide) (show 1 ∈ LoadedBounds.points _ _ _ by rw [hall]; decide)
  have hplain : Plain "/d/a".toList := by decide
  obtain ⟨result, images, hok, hsilent⟩ := @silent_iff_unavoidable _ _ _ _ _ _ _ 8 _
    (parse_putLines hplain) rfl (by decide) (by decide) hstates fun i state hstate =>
      exact_readsWritten (parseAckLog_putTrace _) rfl whole_putTrace hstate
  refine ⟨_, result, images, hok, fun hnone => ?_⟩
  have hkept := hsilent.mp hnone 1 (hall ▸ by decide) (writeAt 4 "/d/b") rfl
    ⟨1, "put", "k", "aa", 0, some 3, true⟩ (by rw [parseAckLog_putTrace]; decide) 0
    (writeAt 1 "/d/a") rfl (by decide)
  have hlost := (@persisted_forall_iff _ 1 0 ext4Ordered ⟨true, 8⟩ (by decide)).mpr hkept
    ⟨1, [], []⟩ (emittedAt_iff.mp (emitted_putTrace (.inl rfl))).2
  cases hlost

end CrashFuzz
