import CrashFuzz.Campaign.Soundness
import CrashFuzz.Enumerate.Disk

/-!
A campaign as a search of what a crash may leave of the disk.

* `Shows`: the oracle accuses a target of a violation with some signature in a
  state, for a target whose recovery is determined by the state it is given.
* `Exhaustive`: every crash point is tested, and no window or cap leaves a state out.
* `found_iff_left`: a campaign only finds what the target does after a crash that the
  disk permits, and an exhaustive one finds all of it.
* `exhaustive_covers`: if the model of an exhaustive campaign reorders, a campaign on the
  same run under any other model finds nothing new.
-/

namespace CrashFuzz

open PosixPath Shim Json Subsets

/-- The oracle reports a violation of this signature of what a target makes of a state. -/
def Shows (trace : Trace) (target : CrashState → RecoveryResult) (s : CrashState)
    (signature : String) : Prop :=
  let stamp := (trace.events[s.crashPoint]?.map (·.index)).getD 0
  ∃ v ∈ checkOracle ⟨stamp, parseAckLog trace, target s⟩,
    signatureOf v s trace (blamedOperation (parseAckLog trace) stamp v) = signature

/-- Nothing is left out: no crash point is skipped, the window has room for all that is
unpinned, and the cap for all states. -/
structure Exhaustive (trace : Trace) (options : CampaignOptions) (bounds : LoadedBounds) (W : ℕ) :
    Prop where
  points : ¬ Sampled trace
    ⟨bounds.nonFsyncSampleRate, options.seed, some bounds.maxExhaustiveWorkloadOps⟩
  room : ∀ k < trace.events.length, unpinnedCount trace.events k ≤ W
  cap : ∀ k < trace.events.length, ((CrashPoint.states trace.events options.model
    bounds.enumeration k).length : ℚ) ≤ bounds.maxStatesPerCrashPoint

variable {text : String} {cwd : Chars} {options options' : CampaignOptions}
  {bounds bounds' : LoadedBounds} {recovery recovery' : ℕ → RecoveryResult} {trace : Trace}
  {tested tested' k W W' : ℕ} {states states' : List CrashState} {s : CrashState}
  {target : CrashState → RecoveryResult} {signature : String}

/-- What a campaign finds is what the oracle reports of the states it tests. -/
lemma mem_signatures_iff_shows
    (htarget : ∀ i state, states[i]? = some state → recovery i = target state) :
    signature ∈ (Campaign.run ⟨trace, options.imageDir, cwd, recovery⟩
        states).findings.values.map (·.signature) ↔
      ∃ s ∈ states, Shows trace target s signature := by
  have hviolations : ∀ i state, states[i]? = some state →
      Campaign.violations ⟨trace, options.imageDir, cwd, recovery⟩ i state =
        checkOracle ⟨(trace.events[state.crashPoint]?.map (·.index)).getD 0, parseAckLog trace,
          target state⟩ := fun i state hi => by
    rw [← htarget i state hi]
    rfl
  rw [Campaign.mem_signatures_iff]
  constructor
  · rintro ⟨i, s, hi, v, hv, hsignature⟩
    exact ⟨s, List.mem_of_getElem? hi, v, hviolations i s hi ▸ hv, hsignature⟩
  · rintro ⟨s, hs, v, hv, hsignature⟩
    obtain ⟨i, hi⟩ := List.mem_iff_getElem?.mp hs
    exact ⟨i, s, hi, v, (hviolations i s hi).symm ▸ hv, hsignature⟩

/-- A tested state is one that a crash may leave. -/
lemma left_of_tested (hpins : PinsApplied trace.events)
    (hbounds : bounds.maxUnpersistedWindow = W) (hW : 1 ≤ W) (hW' : W ≤ 30)
    (hstates : statesToTest trace options bounds = .ok (tested, states)) (hs : s ∈ states) :
    s.crashPoint < trace.events.length ∧
      LeftBy trace.events options.model bounds.enumeration s := by
  obtain ⟨hpoint, hemitted⟩ := emitted_of_tested hstates hs
  exact ⟨lt_of_mem_selectCrashPoints hpoint,
    ((mem_states_iff hpins hbounds hW hW').mp hemitted).2.1⟩

/-- A cap with room keeps all states of a crash point. -/
lemma tested_of_emitted (hstates : statesToTest trace options bounds = .ok (tested, states))
    (hk : k ∈ bounds.points options trace)
    (hcap : ((CrashPoint.states trace.events options.model bounds.enumeration k).length : ℚ) ≤
      bounds.maxStatesPerCrashPoint)
    (hs : s ∈ CrashPoint.states trace.events options.model bounds.enumeration k) :
    s ∈ states := by
  obtain ⟨emitted, hok, rfl⟩ := statesToTest_ok hstates
  have hnodup : (bounds.points options trace).Nodup := nodup_selectCrashPoints trace _
  obtain ⟨out, hout, hgroup⟩ := @exists_enumerateCrashStates k trace ⟨options.model,
    bounds.enumeration, some (bounds.points options trace)⟩
    (fun _ hj => lt_of_mem_selectCrashPoints hj) (List.count_eq_one_of_mem hnodup hk)
  obtain rfl : emitted = out := Except.ok.inj (hok.symm.trans hout)
  have hsampled : s ∈ (sampleStates emitted ⟨bounds.maxStatesPerCrashPoint,
      options.seed⟩).filter (·.crashPoint = k) := by
    rw [filter_sampleStates, hgroup, sampleGroup, if_pos hcap]
    exact hs
  exact (List.mem_filter.mp hsampled).1

namespace Exhaustive

/-- An exhaustive campaign tests every state of every crash point. -/
lemma tested_of_emitted (h : Exhaustive trace options bounds W)
    (hstates : statesToTest trace options bounds = .ok (tested, states))
    (hk : k < trace.events.length)
    (hs : s ∈ CrashPoint.states trace.events options.model bounds.enumeration k) :
    s ∈ states := by
  have hpoint : k ∈ bounds.points options trace := by
    rw [LoadedBounds.points, selectCrashPoints_of_not_sampled h.points]
    exact List.mem_range.mpr hk
  exact CrashFuzz.tested_of_emitted hstates hpoint (h.cap k hk) hs

/-- What a crash may leave is tested by it. -/
lemma mem_states (h : Exhaustive trace options bounds W)
    (hpins : PinsApplied trace.events) (hbounds : bounds.maxUnpersistedWindow = W)
    (hW : 1 ≤ W) (hW' : W ≤ 30)
    (hstates : statesToTest trace options bounds = .ok (tested, states))
    (hs : s.crashPoint < trace.events.length)
    (hleft : LeftBy trace.events options.model bounds.enumeration s) : s ∈ states :=
  h.tested_of_emitted hstates hs ((mem_states_iff hpins hbounds hW hW').mpr
    ⟨rfl, hleft, hleft.kept hpins (h.room _ hs)⟩)

end Exhaustive

/-- **What a campaign finds** is what the oracle reports of states that a crash may leave, and
an exhaustive one misses none of it. -/
theorem found_iff_left (hparse : parseTrace readLine text = .ok trace)
    (hpins : PinsApplied trace.events) (hbounds : bounds.maxUnpersistedWindow = W) (hW : 1 ≤ W)
    (hW' : W ≤ 30) (hstates : statesToTest trace options bounds = .ok (tested, states))
    (htarget : ∀ i state, states[i]? = some state → recovery i = target state) :
    ∃ result images, runCampaign text cwd options bounds recovery = .ok (result, images) ∧
      (∀ signature ∈ result.findings.map (·.signature), ∃ s,
        s.crashPoint < trace.events.length ∧
          LeftBy trace.events options.model bounds.enumeration s ∧
            Shows trace target s signature) ∧
      (Exhaustive trace options bounds W → ∀ s, s.crashPoint < trace.events.length →
        LeftBy trace.events options.model bounds.enumeration s →
          ∀ signature, Shows trace target s signature →
            signature ∈ result.findings.map (·.signature)) := by
  refine ⟨_, _, runCampaign_eq hparse hstates, fun signature h => ?_, ?_⟩
  · obtain ⟨s, hs, hshows⟩ := (mem_signatures_iff_shows htarget).mp h
    obtain ⟨hpoint, hleft⟩ := left_of_tested hpins hbounds hW hW' hstates hs
    exact ⟨s, hpoint, hleft, hshows⟩
  · intro hexhaustive s hs hleft signature hshows
    exact (mem_signatures_iff_shows htarget).mpr
      ⟨s, hexhaustive.mem_states hpins hbounds hW hW' hstates hs hleft, hshows⟩

lemma eq_of_lt_putTrace {path : String} (hk : k < (putTrace path).events.length) :
    k = 0 ∨ k = 1 := by
  simp only [putTrace, List.length_cons, List.length_nil] at hk
  omega

/-- The run of a put that is not synced is small enough to be searched. -/
lemma exhaustive_putTrace : Exhaustive (putTrace "/d/a") ⟨"/images".toList, ext4Ordered, 1⟩
    ⟨1 / 20, 8, 3, 24, true⟩ 8 where
  points := fun h => absurd h.long (by norm_num [putTrace])
  room := fun k hk => by rcases eq_of_lt_putTrace hk with rfl | rfl <;> decide
  cap := fun k hk => by
    have hlength : (CrashPoint.states (putTrace "/d/a").events ext4Ordered ⟨true, 8⟩ k).length ≤
        24 := by
      rcases eq_of_lt_putTrace hk with rfl | rfl <;> decide
    change ((CrashPoint.states (putTrace "/d/a").events ext4Ordered ⟨true, 8⟩ k).length : ℚ) ≤ 24
    exact_mod_cast hlength

lemma pinsApplied_putTrace (path : String) : PinsApplied (putTrace path).events := by
  have hall : AllSucceeded (putTrace path).events := by simp [AllSucceeded, putTrace, writeAt]
  exact hall.pinsApplied

/-- What an exact store makes of a state. -/
def openWritten (s : CrashState) : RecoveryResult :=
  .opened true (fun _ => if 0 ∈ s.persisted then some "aa" else none) none

lemma readsWritten_eq {states : List CrashState} (i : ℕ) (state : CrashState)
    (hstate : states[i]? = some state) : readsWritten states i = openWritten state := by
  simp [readsWritten, openWritten, hstate]

/-- A crash may leave nothing of it, so its loss is found. -/
theorem putLines_found : ∃ recovery result images,
    runCampaign (textOf (headerLine opener :: putLines "/d/a")) "/".toList
        ⟨"/images".toList, ext4Ordered, 1⟩ ⟨1 / 20, 8, 3, 24, true⟩ recovery =
      .ok (result, images) ∧
        "LOST_ACKED|missing:write@a" ∈ result.findings.map (·.signature) := by
  have hplain : Plain "/d/a".toList := by decide
  have hleft : LeftBy (putTrace "/d/a").events ext4Ordered ⟨true, 8⟩ ⟨1, [], []⟩ :=
    ((@mem_states_iff _ ext4Ordered ⟨true, 8⟩ 1 8 _ (pinsApplied_putTrace _) rfl (by decide)
      (by decide)).mp (emittedAt_iff.mp (emitted_putTrace (.inl rfl))).2).2.1
  have hshows : Shows (putTrace "/d/a") openWritten ⟨1, [], []⟩
      "LOST_ACKED|missing:write@a" := by
    refine ⟨lostPut, lostPut_mem "/d/a", (signatureOf_lostPut "/d/a").trans ?_⟩
    decide +kernel
  obtain ⟨result, images, hok, -, hfound⟩ := @found_iff_left _ "/".toList _ _ _ _ _ 8 _ _
    (parse_putLines hplain) (pinsApplied_putTrace _) rfl (by decide) (by decide)
    (statesToTest_eq (putTrace "/d/a") ⟨"/images".toList, ext4Ordered, 1⟩
      ⟨1 / 20, 8, 3, 24, true⟩) readsWritten_eq
  exact ⟨_, result, images, hok, hfound exhaustive_putTrace _ (by decide) hleft _ hshows⟩

/-- **An exhaustive campaign** under a model that reorders finds what a campaign on the same
run finds under any model, with any seed, window and cap and with torn writes only where it
has them itself. -/
theorem exhaustive_covers (hparse : parseTrace readLine text = .ok trace)
    (hbounds : bounds.maxUnpersistedWindow = W) (hW : 1 ≤ W)
    (hW' : W ≤ 30) (hexhaustive : Exhaustive trace options bounds W)
    (hmodel : options.model.totalOrder = false)
    (hstates : statesToTest trace options bounds = .ok (tested, states))
    (htarget : ∀ i state, states[i]? = some state → recovery i = target state)
    {V : ℕ} (hbounds' : bounds'.maxUnpersistedWindow = V) (hV : 1 ≤ V) (hV' : V ≤ 30)
    (htorn : bounds'.tornWrites = true → bounds.tornWrites = true)
    (hstates' : statesToTest trace options' bounds' = .ok (tested', states'))
    (htarget' : ∀ i state, states'[i]? = some state → recovery' i = target state) :
    ∃ result images result' images',
      runCampaign text cwd options bounds recovery = .ok (result, images) ∧
        runCampaign text cwd options' bounds' recovery' = .ok (result', images') ∧
          result'.findings.map (·.signature) ⊆ result.findings.map (·.signature) := by
  refine ⟨_, _, _, _, runCampaign_eq hparse hstates, runCampaign_eq hparse hstates',
    fun signature h => ?_⟩
  obtain ⟨s, hs, hshows⟩ := (mem_signatures_iff_shows htarget').mp h
  obtain ⟨hpoint, hemitted⟩ := emitted_of_tested hstates' hs
  have hk := lt_of_mem_selectCrashPoints hpoint
  have hcovered : s ∈ CrashPoint.states trace.events options.model bounds.enumeration
      s.crashPoint :=
    CrashPoint.mem_states_of_room hmodel hbounds hW hW' (hexhaustive.room _ hk) hbounds' hV hV'
      htorn hemitted
  exact (mem_signatures_iff_shows htarget).mpr
    ⟨s, hexhaustive.tested_of_emitted hstates hk hcovered, hshows⟩

/-- Program order loses nothing that the other order has not lost. -/
theorem putLines_covered : ∃ recovery recovery' result images result' images',
    runCampaign (textOf (headerLine opener :: putLines "/d/a")) "/".toList
        ⟨"/images".toList, ext4Ordered, 1⟩ ⟨1 / 20, 8, 3, 24, true⟩ recovery =
      .ok (result, images) ∧
    runCampaign (textOf (headerLine opener :: putLines "/d/a")) "/".toList
        ⟨"/images".toList, ext4Journal, 5⟩ ⟨1 / 20, 4, 3, 2, false⟩ recovery' =
      .ok (result', images') ∧
        result'.findings.map (·.signature) ⊆ result.findings.map (·.signature) := by
  have hplain : Plain "/d/a".toList := by decide
  exact ⟨_, _, @exhaustive_covers _ "/".toList _ _ _ _ _ _ _ _ _ 8 _ _ _
    (parse_putLines hplain) rfl (by decide) (by decide) exhaustive_putTrace rfl
    (statesToTest_eq _ _ _) readsWritten_eq 4 rfl (by decide) (by decide) (by decide)
    (statesToTest_eq _ ⟨"/images".toList, ext4Journal, 5⟩ ⟨1 / 20, 4, 3, 2, false⟩)
    readsWritten_eq⟩

end CrashFuzz
