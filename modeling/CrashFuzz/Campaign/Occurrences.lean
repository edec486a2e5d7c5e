import CrashFuzz.Campaign.Campaign
import CrashFuzz.Oracle.Signatures

/-!
What the findings of a campaign count.

* `Campaign.cause`: the cause of a violation, and `signature_eq_iff`.
* `occurrences_foldl_note`: a finding counts the reports with its signature.
* `Loses`, `nodup_signatures_iff`: when no two reports of a state share one.
* `sum_eq_countP_iff`: when a sum counts its positive terms.
* `Campaign.occurrences_iff`: when a finding counts states.
-/

namespace CrashFuzz

open PosixPath

namespace Campaign

variable {c : Campaign} {states : List CrashState} {state state' : CrashState} {i : ℕ}
  {violation violation' : Violation} {findings : OrderedMap String Finding} {fs : List Finding}
  {s : String}

/-! ### Causes -/

/-- The cause of a violation of a state. -/
def cause (c : Campaign) (state : CrashState) (violation : Violation) : Option Cause :=
  rootCause state (blamedOperation c.ackLog (c.crashStamp state) violation) c.trace.events

lemma signature_eq (state : CrashState) (violation : Violation) : c.signature state violation =
    violation.violationClass.text ++ "|" ++ causeText (c.cause state violation) :=
  signatureOf_eq violation c.trace

lemma signature_eq_iff : c.signature state violation = c.signature state' violation' ↔
    violation.violationClass = violation'.violationClass ∧
      c.cause state violation = c.cause state' violation' := by
  rw [signature_eq, signature_eq]
  refine ⟨signature_inj, ?_⟩
  rintro ⟨hclass, hcause⟩
  rw [hclass, hcause]

/-! ### Counting reports -/

/-- How often a signature was noted. -/
def noted (findings : OrderedMap String Finding) (s : String) : ℕ :=
  ((findings.get? s).map (·.occurrences)).getD 0

lemma noted_note (f : Finding) (hf : f.occurrences = 1) :
    noted (note findings f) s = noted findings s + if f.signature = s then 1 else 0 := by
  rw [noted, note, OrderedMap.record]
  by_cases hs : f.signature = s
  · subst hs
    cases hold : findings.get? f.signature with
    | none => simp [noted, hold, hf]
    | some old => simp [noted, hold]
  · rw [if_neg hs, Nat.add_zero, noted]
    split
    · rw [OrderedMap.get?_set_of_ne (Ne.symm hs)]
    · rw [OrderedMap.get?_set_of_ne (Ne.symm hs)]

/-- A finding counts the reports with its signature. -/
lemma noted_foldl_note (hfs : ∀ f ∈ fs, f.occurrences = 1) :
    noted (fs.foldl note findings) s = noted findings s + fs.countP (·.signature = s) := by
  induction fs generalizing findings with
  | nil => rfl
  | cons f fs ih =>
      rw [List.foldl_cons, ih fun f' hf' => hfs f' (List.mem_cons_of_mem f hf'),
        noted_note f (hfs f List.mem_cons_self), List.countP_cons]
      simp only [decide_eq_true_eq]
      omega

/-- The reports of one state. -/
lemma countP_reports (entries : List (CrashState × ℕ)) :
    (c.reports entries).countP (·.signature = s) =
      (entries.map fun entry => (c.violations entry.2 entry.1).countP
        (c.signature entry.1 · = s)).sum := by
  induction entries with
  | nil => rfl
  | cons entry entries ih =>
      rw [reports, List.flatMap_cons, List.countP_append, List.countP_map, List.map_cons,
        List.sum_cons, ← ih]
      rfl

/-- A finding occurs as often as its signature was reported. -/
lemma occurrences_eq {f : Finding} (hf : f ∈ (c.run states).findings.values) :
    f.occurrences = (states.zipIdx.map fun entry => (c.violations entry.2 entry.1).countP
      (c.signature entry.1 · = f.signature)).sum := by
  obtain ⟨s, hs⟩ := OrderedMap.mem_values_iff.mp hf
  obtain rfl := signature_of_get? hs
  have hnoted : noted (c.run states).findings f.signature = f.occurrences := by
    rw [noted, hs]
    rfl
  have hone : ∀ f' ∈ c.reports states.zipIdx, f'.occurrences = 1 := by
    intro f' hf'
    obtain ⟨i, state, -, v, -, rfl⟩ := mem_reports_iff.mp hf'
    rfl
  rw [← hnoted, run, findings_foldl, noted_foldl_note hone, countP_reports]
  exact Nat.zero_add _

/-! ### Counting states -/

/-- How many tested states report a signature. -/
def statesReporting (c : Campaign) (states : List CrashState) (s : String) : ℕ :=
  states.zipIdx.countP fun entry =>
    (c.violations entry.2 entry.1).any (c.signature entry.1 · = s)

/-- A sum of numbers counts the positive ones exactly if none exceeds one. -/
lemma sum_eq_countP_iff {α : Type} {a : α → ℕ} {l : List α} :
    (l.map a).sum = l.countP (0 < a ·) ↔ ∀ x ∈ l, a x ≤ 1 := by
  have hle : ∀ l : List α, l.countP (0 < a ·) ≤ (l.map a).sum := by
    intro l
    induction l with
    | nil => exact le_rfl
    | cons x l ih =>
        rw [List.countP_cons, List.map_cons, List.sum_cons]
        simp only [decide_eq_true_eq]
        split <;> omega
  induction l with
  | nil => simp
  | cons x l ih =>
      have hrest := hle l
      rw [List.countP_cons, List.map_cons, List.sum_cons, List.forall_mem_cons]
      refine Iff.trans ?_ (and_congr_right fun _ => ih)
      simp only [decide_eq_true_eq]
      split <;> omega

lemma occurrences_eq_iff {f : Finding} (hf : f ∈ (c.run states).findings.values) :
    f.occurrences = c.statesReporting states f.signature ↔ ∀ entry ∈ states.zipIdx,
      (c.violations entry.2 entry.1).countP (c.signature entry.1 · = f.signature) ≤ 1 := by
  have hpositive : c.statesReporting states f.signature = states.zipIdx.countP fun entry =>
      0 < (c.violations entry.2 entry.1).countP (c.signature entry.1 · = f.signature) := by
    refine List.countP_congr fun entry _ => ?_
    rw [decide_eq_true_eq, List.countP_pos_iff, List.any_eq_true]
  rw [occurrences_eq hf, hpositive, sum_eq_countP_iff]

/-- All findings count states if no state reports a signature twice. -/
lemma forall_occurrences_iff :
    (∀ f ∈ (c.run states).findings.values,
        f.occurrences = c.statesReporting states f.signature) ↔
      ∀ entry ∈ states.zipIdx,
        ((c.violations entry.2 entry.1).map (c.signature entry.1)).Nodup := by
  have hcount : ∀ (entry : CrashState × ℕ) s,
      ((c.violations entry.2 entry.1).map (c.signature entry.1)).count s =
        (c.violations entry.2 entry.1).countP (c.signature entry.1 · = s) := by
    intro entry s
    rw [List.count, List.countP_map]
    refine List.countP_congr fun v _ => ?_
    simp
  simp only [List.nodup_iff_count_le_one, hcount]
  constructor
  · intro h entry hentry s
    by_cases hreported : ∃ v ∈ c.violations entry.2 entry.1, c.signature entry.1 v = s
    · obtain ⟨v, hv, hs⟩ := hreported
      have hmem := (@mem_signatures_iff c states s).mpr
        ⟨entry.2, entry.1, List.mem_zipIdx_iff_getElem?.mp hentry, v, hv, hs⟩
      obtain ⟨f, hf, rfl⟩ := List.mem_map.mp hmem
      exact (occurrences_eq_iff hf).mp (h f hf) entry hentry
    · have hnone : (c.violations entry.2 entry.1).countP (c.signature entry.1 · = s) = 0 :=
        List.countP_eq_zero.mpr fun v hv hs => hreported ⟨v, hv, of_decide_eq_true hs⟩
      omega
  · exact fun h f hf => (occurrences_eq_iff hf).mpr fun entry hentry => h entry hentry f.signature

/-! ### Operations that are lost together -/

/-- A tested state loses a promised operation: its database opened, and does not
return the value the operation wrote. -/
structure Loses (c : Campaign) (i : ℕ) (state : CrashState) (o : AckedOperation) : Prop where
  promised : o ∈ promisedBefore c.ackLog (c.crashStamp state)
  opened : ∃ integrityOk values detail, c.recovery i = .opened integrityOk values detail ∧
    values o.key ≠ some o.digest

/-- The report of a lost operation. -/
def lossOf (c : Campaign) (state : CrashState) (values : String → Option String)
    (o : AckedOperation) : Violation where
  violationClass := .lostAcked
  crashStamp := c.crashStamp state
  op := some o.op
  key := o.key
  expected := o.digest
  actual := (values o.key).getD absent

lemma cause_lossOf {values : String → Option String} {o : AckedOperation}
    (ho : o ∈ promisedBefore c.ackLog (c.crashStamp state)) :
    c.cause state (c.lossOf state values o) = rootCause state o c.trace.events := by
  have hblamed : blamedOperation c.ackLog (c.crashStamp state) (c.lossOf state values o) = o := by
    rw [blamedOperation, lossOf, ackLog,
      find?_op (nodup_op_parseAckLog c.trace) (mem_promisedBefore.mp ho).1]
    rfl
  rw [cause, hblamed]

/-- The reports of the loop over the promises. -/
lemma lostAcked_eq {values : String → Option String} {promised : List AckedOperation} :
    lostAcked (c.crashStamp state) values promised =
      (promised.filter fun o => values o.key ≠ some o.digest).map (c.lossOf state values) := by
  induction promised with
  | nil => rfl
  | cons o promised ih =>
      rw [lostAcked] at ih ⊢
      rw [List.filterMap_cons, List.filter_cons, ih]
      by_cases hkept : values o.key = some o.digest
      · simp [hkept]
      · simp [hkept, lossOf]

lemma nodup_promisedBefore (c : Campaign) (stamp : ℕ) : (promisedBefore c.ackLog stamp).Nodup :=
  (List.Nodup.of_map _ (nodup_op_parseAckLog c.trace)).filter _

/-- The reports of lost operations, for a database that opened. -/
lemma nodup_lost_iff {values : String → Option String} :
    ((lostAcked (c.crashStamp state) values
        (promisedBefore c.ackLog (c.crashStamp state))).map (c.signature state)).Nodup ↔
      ∀ o ∈ promisedBefore c.ackLog (c.crashStamp state), values o.key ≠ some o.digest →
      ∀ o' ∈ promisedBefore c.ackLog (c.crashStamp state), values o'.key ≠ some o'.digest →
        rootCause state o c.trace.events = rootCause state o' c.trace.events → o = o' := by
  have hsame : ∀ o ∈ promisedBefore c.ackLog (c.crashStamp state),
      ∀ o' ∈ promisedBefore c.ackLog (c.crashStamp state),
        c.signature state (c.lossOf state values o) = c.signature state (c.lossOf state values o') ↔
          rootCause state o c.trace.events = rootCause state o' c.trace.events := by
    intro o ho o' ho'
    rw [signature_eq_iff, cause_lossOf ho, cause_lossOf ho', and_iff_right]
    rfl
  rw [lostAcked_eq, List.map_map,
    List.nodup_map_iff_inj_on ((nodup_promisedBefore c _).filter _)]
  simp only [List.mem_filter, decide_eq_true_eq, Function.comp_apply]
  constructor
  · exact fun h o ho hlost o' ho' hlost' hcause =>
      h o ⟨ho, hlost⟩ o' ⟨ho', hlost'⟩ ((hsame o ho o' ho').mpr hcause)
  · exact fun h o ho o' ho' hsig =>
      h o ho.1 ho.2 o' ho'.1 ho'.2 ((hsame o ho.1 o' ho'.1).mp hsig)

/-- A lost operation is reported. -/
lemma Loses.reported {o : AckedOperation} (h : c.Loses i state o) :
    ∃ v ∈ c.violations i state, v.violationClass = .lostAcked ∧
      c.cause state v = rootCause state o c.trace.events := by
  obtain ⟨hpromised, integrityOk, values, detail, hopened, hlost⟩ := h
  have hreport : c.lossOf state values o ∈
      lostAcked (c.crashStamp state) values (promisedBefore c.ackLog (c.crashStamp state)) := by
    rw [lostAcked_eq]
    exact List.mem_map_of_mem (List.mem_filter.mpr ⟨hpromised, decide_eq_true hlost⟩)
  refine ⟨c.lossOf state values o, ?_, rfl, cause_lossOf hpromised⟩
  rw [violations, checkOracle, if_neg (List.ne_nil_of_mem hpromised), hopened]
  exact List.mem_append_right _ hreport

/-- **No signature twice**: a state reports none twice exactly if it loses no two
operations to one cause. -/
lemma nodup_signatures_iff : ((c.violations i state).map (c.signature state)).Nodup ↔
    ∀ o o', c.Loses i state o → c.Loses i state o' →
      rootCause state o c.trace.events = rootCause state o' c.trace.events → o = o' := by
  rw [violations, checkOracle]
  by_cases hnone : promisedBefore c.ackLog (c.crashStamp state) = []
  · rw [if_pos hnone]
    refine iff_of_true List.nodup_nil fun o _ h => absurd (hnone ▸ h.promised) (List.not_mem_nil)
  · rw [if_neg hnone]
    cases hrecovery : c.recovery i with
    | failed detail =>
        refine iff_of_true (List.nodup_singleton _) fun o _ h => ?_
        obtain ⟨_, _, _, hopened, -⟩ := h.opened
        cases hrecovery.symm.trans hopened
    | opened integrityOk values detail =>
        have hloses : ∀ o, c.Loses i state o ↔
            o ∈ promisedBefore c.ackLog (c.crashStamp state) ∧ values o.key ≠ some o.digest := by
          refine fun o => ⟨fun h => ⟨h.promised, ?_⟩, fun h => ⟨h.1, _, values, _, hrecovery, h.2⟩⟩
          obtain ⟨_, _, _, hopened, hlost⟩ := h.opened
          cases hrecovery.symm.trans hopened
          exact hlost
        have hclass : ∀ v ∈ lostAcked (c.crashStamp state) values
            (promisedBefore c.ackLog (c.crashStamp state)), v.violationClass = .lostAcked := by
          rw [lostAcked_eq]
          intro v hv
          obtain ⟨o, -, rfl⟩ := List.mem_map.mp hv
          rfl
        simp only [hloses]
        refine Iff.trans ?_ ((@nodup_lost_iff c state values).trans ?_)
        · cases integrityOk with
          | true => rfl
          | false =>
              simp only [Bool.false_eq_true, if_false, List.singleton_append, List.map_cons,
                List.nodup_cons, and_iff_right_iff_imp]
              rintro - hmem
              obtain ⟨v, hv, hsig⟩ := List.mem_map.mp hmem
              have heq := (signature_eq_iff.mp hsig).1
              rw [hclass v hv] at heq
              cases heq
        · exact ⟨fun h o o' ho ho' => h o ho.1 ho.2 o' ho'.1 ho'.2,
            fun h o ho hlost o' ho' hlost' => h o o' ⟨ho, hlost⟩ ⟨ho', hlost'⟩⟩

end Campaign

/-- The result of a campaign is that of the run over its states. -/
lemma runCampaign_eq {text : String} {cwd : Chars} {options : CampaignOptions}
    {bounds : LoadedBounds} {recovery : ℕ → RecoveryResult} {trace : Trace} {tested : ℕ}
    {states : List CrashState} (hparse : parseTrace readLine text = .ok trace)
    (hstates : statesToTest trace options bounds = .ok (tested, states)) :
    runCampaign text cwd options bounds recovery =
      .ok (⟨tested, states.length,
          (Campaign.run ⟨trace, options.imageDir, cwd, recovery⟩ states).findings.values⟩,
        (Campaign.run ⟨trace, options.imageDir, cwd, recovery⟩ states).images) := by
  rw [runCampaign, hparse]
  simp only [bind, Except.bind, hstates, Campaign.statesTested_run]
  rfl

/-! ### Two losses in one state -/

open Shim

/-- Two puts that are in flight during one write, and a write after both are
acknowledged. -/
def twoPutLines : List Line :=
  [⟨.marker ⟨0, 7, "op=1 phase=begin kind=put key=k"⟩, 0, 0⟩,
    ⟨.marker ⟨1, 7, "op=2 phase=begin kind=put key=m"⟩, 0, 0⟩,
    ⟨.event (writeAt 2 "/d/a"), 0, 1⟩,
    ⟨.marker ⟨4, 7, "op=1 phase=ack kind=put key=k digest=aa durable=1"⟩, 0, 0⟩,
    ⟨.marker ⟨5, 7, "op=2 phase=ack kind=put key=m digest=bb durable=1"⟩, 0, 0⟩,
    ⟨.event (writeAt 6 "/d/b"), 0, 2⟩]

/-- The trace of these records. -/
def twoPutTrace : Trace where
  header := ⟨1, 7⟩
  events := [writeAt 2 "/d/a", writeAt 6 "/d/b"]
  markers :=
    [⟨0, 7, "op=1 phase=begin kind=put key=k"⟩, ⟨1, 7, "op=2 phase=begin kind=put key=m"⟩,
      ⟨4, 7, "op=1 phase=ack kind=put key=k digest=aa durable=1"⟩,
      ⟨5, 7, "op=2 phase=ack kind=put key=m digest=bb durable=1"⟩]

/-- Its campaign, on a database that lost all keys. -/
def twoPuts : Campaign where
  trace := twoPutTrace
  imageDir := "/images".toList
  cwd := "/".toList
  recovery := fun _ => .opened true (fun _ => none) none

lemma parse_twoPutLines :
    parseTrace readLine (textOf (headerLine opener :: twoPutLines)) = .ok twoPutTrace := by
  have hread : ∀ line ∈ twoPutLines, ReadsBack line := by
    simp only [twoPutLines, List.forall_mem_cons]
    exact ⟨readsBack_marker (by decide) (by decide), readsBack_marker (by decide) (by decide),
      readsBack_writeAt (by decide) (by decide) _, readsBack_marker (by decide) (by decide),
      readsBack_marker (by decide) (by decide), readsBack_writeAt (by decide) (by decide) _,
      List.forall_mem_nil _⟩
  exact parse_readable hread

/-- The first put, as the log has it. -/
def firstPut : AckedOperation := ⟨1, "put", "k", "aa", 0, some 4, true⟩

/-- The second put. -/
def secondPut : AckedOperation := ⟨2, "put", "m", "bb", 1, some 5, true⟩

lemma ackLog_twoPuts : twoPuts.ackLog = [firstPut, secondPut] := by
  rw [Campaign.ackLog, parseAckLog]
  decide +kernel

/-- The state without the write loses both puts to it. -/
lemma not_nodup_twoPuts (i : ℕ) :
    ¬ ((twoPuts.violations i ⟨1, [], []⟩).map (twoPuts.signature ⟨1, [], []⟩)).Nodup := by
  have hloses : ∀ o ∈ [firstPut, secondPut], twoPuts.Loses i ⟨1, [], []⟩ o := by
    intro o ho
    refine ⟨?_, true, fun _ => none, none, rfl, nofun⟩
    have hpromised : promisedBefore [firstPut, secondPut] (twoPuts.crashStamp ⟨1, [], []⟩) =
        [firstPut, secondPut] := by decide
    rw [ackLog_twoPuts, hpromised]
    exact ho
  intro hnodup
  have hsame := Campaign.nodup_signatures_iff.mp hnodup firstPut secondPut
    (hloses _ (by simp)) (hloses _ (by simp)) (by decide)
  revert hsame
  decide

/-! ### Occurrences and states -/

namespace Campaign

/-- **When occurrences count states**: whichever states are tested and whatever
their recoveries report, all findings do exactly if no tested state loses two
operations to one cause. The findings are those of every campaign that tests
these states. -/
theorem occurrences_iff (c : Campaign) (states : List CrashState) :
    ((∀ f ∈ (c.run states).findings.values,
        f.occurrences = c.statesReporting states f.signature) ↔
      ∀ i state, states[i]? = some state → ∀ o o', c.Loses i state o → c.Loses i state o' →
        rootCause state o c.trace.events = rootCause state o' c.trace.events → o = o') ∧
    ∀ text options bounds tested, parseTrace readLine text = .ok c.trace →
      options.imageDir = c.imageDir →
      statesToTest c.trace options bounds = .ok (tested, states) →
      runCampaign text c.cwd options bounds c.recovery =
        .ok (⟨tested, states.length, (c.run states).findings.values⟩, (c.run states).images) := by
  refine ⟨forall_occurrences_iff.trans ?_, fun text options bounds tested hparse hdir hstates => ?_⟩
  · simp only [nodup_signatures_iff]
    exact ⟨fun h i state hstate => h (state, i) (List.mem_zipIdx_iff_getElem?.mpr hstate),
      fun h entry hentry => h entry.2 entry.1 (List.mem_zipIdx_iff_getElem?.mp hentry)⟩
  · have hresult := @runCampaign_eq text c.cwd options bounds c.recovery c.trace tested states
      hparse hstates
    rwa [hdir] at hresult

end Campaign

/-- One state that lost both puts is counted twice. -/
theorem twoPuts_counted_twice : ∃ tested states images findings,
    statesToTest twoPutTrace ⟨"/images".toList, xfs, 1⟩ ⟨1 / 20, 8, 3, 24, true⟩ =
        .ok (tested, states) ∧
      runCampaign (textOf (headerLine opener :: twoPutLines)) "/".toList
          ⟨"/images".toList, xfs, 1⟩ ⟨1 / 20, 8, 3, 24, true⟩
          (fun _ => .opened true (fun _ => none) none) =
        .ok (⟨tested, states.length, findings⟩, images) ∧
      ∃ f ∈ findings, f.occurrences ≠ twoPuts.statesReporting states f.signature := by
  obtain ⟨tested, states, hstates, hleast, -⟩ := @exists_statesToTest twoPutTrace
    ⟨"/images".toList, xfs, 1⟩ ⟨1 / 20, 8, 3, 24, true⟩ 1 8 rfl rfl (by decide) (by decide) (by
      rw [selectCrashPoints_of_not_sampled fun h => absurd h.long (by norm_num [twoPutTrace])]
      decide)
  refine ⟨tested, states, _, _, hstates, runCampaign_eq parse_twoPutLines hstates, ?_⟩
  obtain ⟨i, hi⟩ := List.mem_iff_getElem?.mp hleast
  by_contra hnone
  have hall : ∀ f ∈ (twoPuts.run states).findings.values,
      f.occurrences = twoPuts.statesReporting states f.signature := fun f hf =>
    by_contra fun hne => hnone ⟨f, hf, hne⟩
  exact not_nodup_twoPuts i (Campaign.forall_occurrences_iff.mp hall (⟨1, [], []⟩, i)
    (List.mem_zipIdx_iff_getElem?.mpr hi))

end CrashFuzz
