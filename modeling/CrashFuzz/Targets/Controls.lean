import CrashFuzz.Campaign.Soundness
import CrashFuzz.Oracle.Query
import CrashFuzz.Targets.Acknowledged

/-!
What the oracle makes of the workloads.

* `Inv.exists_violation_iff`: the operations that are accused are those that were
  acknowledged durable before the crash and do not read back, whatever the integrity
  check of the recovery says.
* `swapped_accused`: a store that holds the value of another operation is accused,
  unless SHA-256 collides on the two.
* `controls_silent`: the report of a store that keeps what it committed is read back, and
  a campaign on it has no findings, from the markers of the workload to the query tool.
-/

namespace CrashFuzz

namespace World

variable {w : Workload} {s : World w} {trace : Trace} {steps : List (WorkloadStep w.threads)}
  {T : ℕ}

/-! ### What is promised -/

/-- The operations that were promised before a crash. -/
lemma Inv.mem_promisedBefore_iff (h : Inv s) (hops : w.operations ≤ 2 ^ 53)
    (htrace : trace.markers = s.markers) {r : AckedOperation} :
    r ∈ promisedBefore (parseAckLog trace) T ↔ ∃ op a, w.durable op = true ∧
      s.ackedAt op = some a ∧ a < T ∧ s.recordOf op = some r := by
  rw [mem_promisedBefore, (h.parseAckLog_perm hops htrace).mem_iff, records, List.mem_filterMap]
  constructor
  · rintro ⟨⟨op, -, hr⟩, hdurable, a, ha, hlt⟩
    obtain ⟨b, hb, rfl⟩ := Option.map_eq_some_iff.mp hr
    exact ⟨op, a, (Bool.and_eq_true _ _ ▸ hdurable).2, ha, hlt, hr⟩
  · rintro ⟨op, a, hdurable, ha, hlt, hr⟩
    obtain ⟨b, hb, rfl⟩ := Option.map_eq_some_iff.mp hr
    obtain ⟨-, hpos, hle, -⟩ := h.staged.begun op b hb
    refine ⟨⟨op, List.mem_range'_1.mpr ⟨hpos, by omega⟩, hr⟩, ?_, a, ha, hlt⟩
    simp [ha, hdurable]

/-- The record of one that was acknowledged. -/
lemma recordOf_acked {op a : ℕ} (ha : s.ackedAt op = some a) {r : AckedOperation}
    (hr : s.recordOf op = some r) :
    r.op = op ∧ r.key = opKey op ∧ r.digest = digestOf (w.value op) := by
  obtain ⟨b, hb, rfl⟩ := Option.map_eq_some_iff.mp hr
  simp [ha]

lemma Inv.exists_recordOf (h : Inv s) {op a : ℕ} (ha : s.ackedAt op = some a) :
    ∃ r, s.recordOf op = some r := by
  obtain ⟨-, c, hc, -⟩ := h.staged.acked op a ha
  obtain ⟨-, b, hb, -⟩ := h.staged.committed op c hc
  exact ⟨_, by rw [recordOf, hb, Option.map_some]⟩

/-- An operation is accused if it was promised and does not read back: a failed integrity
check accuses no operation. -/
lemma exists_op_iff {ackLog : List AckedOperation} {integrityOk : Bool}
    {values : String → Option String} {detail : Option String} {x : ℚ} :
    (∃ v ∈ checkOracle ⟨T, ackLog, .opened integrityOk values detail⟩, v.op = some x) ↔
      ∃ r ∈ promisedBefore ackLog T, r.op = x ∧ values r.key ≠ some r.digest := by
  have hlost : (∃ v ∈ lostAcked T values (promisedBefore ackLog T), v.op = some x) ↔
      ∃ r ∈ promisedBefore ackLog T, r.op = x ∧ values r.key ≠ some r.digest := by
    simp only [lostAcked, List.mem_filterMap]
    constructor
    · rintro ⟨v, ⟨r, hr, hv⟩, hop⟩
      split at hv
      · cases hv
      · next hlost =>
          obtain rfl := Option.some.inj hv
          exact ⟨r, hr, Option.some.inj hop, hlost⟩
    · rintro ⟨r, hr, rfl, hlost⟩
      exact ⟨_, ⟨r, hr, if_neg hlost⟩, rfl⟩
  by_cases hnone : promisedBefore ackLog T = []
  · simp [checkOracle, hnone]
  · rw [checkOracle, if_neg hnone, ← hlost]
    cases integrityOk <;> simp

/-- The operations that are accused. -/
lemma Inv.exists_violation_iff {integrityOk : Bool} {values : String → Option String}
    {detail : Option String} {op : ℕ} (h : Inv s) (hops : w.operations ≤ 2 ^ 53)
    (htrace : trace.markers = s.markers) :
    (∃ v ∈ checkOracle ⟨T, parseAckLog trace, .opened integrityOk values detail⟩,
        v.op = some (op : ℚ)) ↔
      w.durable op = true ∧ (∃ a, s.ackedAt op = some a ∧ a < T) ∧
        values (opKey op) ≠ some (digestOf (w.value op)) := by
  rw [exists_op_iff]
  constructor
  · rintro ⟨r, hr, hop, hlost⟩
    obtain ⟨op', a, hdurable, ha, hlt, hrecord⟩ := (h.mem_promisedBefore_iff hops htrace).mp hr
    obtain ⟨hop', hkey, hdigest⟩ := recordOf_acked ha hrecord
    obtain rfl : op' = op := Nat.cast_injective (R := ℚ) (hop'.symm.trans hop)
    exact ⟨hdurable, ⟨a, ha, hlt⟩, by rwa [← hkey, ← hdigest]⟩
  · rintro ⟨hdurable, ⟨a, ha, hlt⟩, hlost⟩
    obtain ⟨r, hrecord⟩ := h.exists_recordOf ha
    obtain ⟨hop, hkey, hdigest⟩ := recordOf_acked ha hrecord
    refine ⟨r, (h.mem_promisedBefore_iff hops htrace).mpr ⟨op, a, hdurable, ha, hlt, hrecord⟩,
      hop, ?_⟩
    rwa [hkey, hdigest]

/-- **Who is accused**, in whatever order the writers move and whatever the integrity check
says: exactly the operations with a durable commit that were acknowledged before the crash
and do not read back. -/
theorem accused_iff {integrityOk : Bool} {values : String → Option String}
    {detail : Option String} {op : ℕ}
    (hops : w.operations ≤ 2 ^ 53) (hthreads : w.threads < 2 ^ 63)
    (hrun : run w steps = some s) (htrace : trace.markers = s.markers) :
    (∃ v ∈ checkOracle ⟨T, parseAckLog trace, .opened integrityOk values detail⟩,
        v.op = some (op : ℚ)) ↔
      w.durable op = true ∧ (∃ a, s.ackedAt op = some a ∧ a < T) ∧
        values (opKey op) ≠ some (digestOf (w.value op)) :=
  (Inv.run (by omega) hrun).exists_violation_iff hops htrace

/-- Two puts, the second without a durable commit. -/
def mixedPuts : Workload := redbWorkload (shapeFor "mixed") 2 fun t => t

def mixedSteps : List (WorkloadStep mixedPuts.threads) :=
  let t : Fin mixedPuts.threads := ⟨0, by decide⟩
  let put := [.take t, .mark t, .release t, .beginWrite t, .commit t, .mark t, .release t]
  put ++ put ++ [.take t]

lemma exists_mixed : ∃ s, run mixedPuts mixedSteps = some s ∧ s.ackedAt 1 = some 1 :=
  exists_run (by decide +kernel)

/-- On an empty store the first is accused and the second is not, corrupt or not. -/
theorem mixedPuts_accused : ∃ s, run mixedPuts mixedSteps = some s ∧
    ∀ (integrityOk : Bool) (trace : Trace), trace.markers = s.markers →
      (∃ v ∈ checkOracle ⟨4, parseAckLog trace, .opened integrityOk (fun _ => none) none⟩,
        v.op = some ((1 : ℕ) : ℚ)) ∧
      ¬ ∃ v ∈ checkOracle ⟨4, parseAckLog trace, .opened integrityOk (fun _ => none) none⟩,
        v.op = some ((2 : ℕ) : ℚ) := by
  obtain ⟨s, hs, hacked⟩ := exists_mixed
  refine ⟨s, hs, fun integrityOk trace htrace => ⟨?_, fun haccused => ?_⟩⟩
  · exact (accused_iff (by decide) (by decide) hs htrace).mpr
      ⟨by decide, ⟨1, hacked, by decide⟩, by simp⟩
  · have hdurable := ((accused_iff (by decide) (by decide) hs htrace).mp haccused).1
    exact absurd hdurable (by decide)

/-! ### Values of other operations -/

/-- Every shape has room for a key, and few writers. -/
lemma shapeFor_spec (name : String) :
    64 ≤ (shapeFor name).valueBytes ∧ (shapeFor name).threads ≤ 4 := by
  unfold shapeFor
  split <;> decide

/-- The workloads of the targets write each value once. -/
lemma value_inj {name : String} {operations : ℕ} {tid : ℕ → ℤ} {i j : ℕ} (hi : i < 2 ^ 63)
    (hj : j < 2 ^ 63)
    (hw : w = redbWorkload (shapeFor name) operations tid ∨ w = sqliteWorkload operations tid)
    (h : w.value i = w.value j) : i = j := by
  have hletter : ∀ n, 97 ≤ 97 + n % 26 ∧ 97 + n % 26 ≤ 122 := fun n => by omega
  have hlength : ∀ k < 2 ^ 63, (digitBytes k).length < 64 := fun k hk => by
    have hle := length_digitBytes_le hk
    omega
  rcases hw with rfl | rfl
  · have hbytes := (shapeFor_spec name).1
    exact stamped_inj (hletter _) (hletter _) ((hlength i hi).trans_le hbytes)
      ((hlength j hj).trans_le hbytes) h
  · exact stamped_inj (hletter _) (hletter _) ((hlength i hi).trans (by decide))
      ((hlength j hj).trans (by decide)) h

/-- **A value of another operation** under the key of one that was promised is a
violation, whatever the integrity check says, unless SHA-256 collides on the two values. -/
theorem swapped_accused {name : String} {operations : ℕ} {tid : ℕ → ℤ}
    {integrityOk : Bool} {held : String → Option (List UInt8)} {detail : Option String}
    {i j a : ℕ}
    (hw : w = redbWorkload (shapeFor name) operations tid ∨ w = sqliteWorkload operations tid)
    (hops : w.operations ≤ 2 ^ 53) (hrun : run w steps = some s)
    (htrace : trace.markers = s.markers) (hdurable : w.durable i = true)
    (hacked : s.ackedAt i = some a) (hlt : a < T) (hne : i ≠ j) (hj : j < 2 ^ 63)
    (hheld : held (opKey i) = some (w.value j)) :
    (∃ v ∈ checkOracle ⟨T, parseAckLog trace,
        .opened integrityOk (fun key => (held key).map digestOf) detail⟩, v.op = some (i : ℚ)) ∨
      w.value i ≠ w.value j ∧ digestOf (w.value i) = digestOf (w.value j) := by
  have hthreads : w.threads < 2 ^ 63 := by
    rcases hw with rfl | rfl
    · have hfew := (shapeFor_spec name).2
      exact (max_le (by decide) hfew).trans_lt (by decide : 4 < 2 ^ 63)
    · exact Nat.one_lt_two_pow (by decide)
  have hinv : Inv s := Inv.run (by omega) hrun
  have hi : i < 2 ^ 63 := by
    obtain ⟨-, c, hc, -⟩ := hinv.staged.acked i a hacked
    obtain ⟨-, b, hb, -⟩ := hinv.staged.committed i c hc
    have hle := (hinv.staged.begun i b hb).2.2.1
    omega
  by_cases hcollides : digestOf (w.value i) = digestOf (w.value j)
  · exact .inr ⟨fun heq => hne (value_inj hi hj hw heq), hcollides⟩
  · refine .inl ((hinv.exists_violation_iff hops htrace).mpr ⟨hdurable, ⟨a, hacked, hlt⟩, ?_⟩)
    rw [hheld]
    exact fun heq => hcollides (Option.some.inj heq).symm

/-- The store holds the second value for the first put. -/
theorem mixedPuts_swapped : ∃ s, run mixedPuts mixedSteps = some s ∧
    ∀ (integrityOk : Bool) (trace : Trace), trace.markers = s.markers →
      (∃ v ∈ checkOracle ⟨4, parseAckLog trace, .opened integrityOk (fun key =>
          (if key = opKey 1 then some (mixedPuts.value 2) else none).map digestOf) none⟩,
        v.op = some ((1 : ℕ) : ℚ)) ∨
      mixedPuts.value 1 ≠ mixedPuts.value 2 ∧
        digestOf (mixedPuts.value 1) = digestOf (mixedPuts.value 2) := by
  obtain ⟨s, hs, hacked⟩ := exists_mixed
  exact ⟨s, hs, fun integrityOk trace htrace => swapped_accused (.inl rfl) (by decide) hs htrace
    (by decide) hacked (by decide) (by decide) (by decide) (if_pos rfl)⟩

/-! ### Stores that keep what they committed -/

/-- What a query tool reports of a store after a crash, if the store keeps every
durable commit that returned before. -/
structure Kept (s : World w) (T : ℕ) (report : Report) : Prop where
  integrityOk : report.integrityOk = true
  keys : ∀ key ∈ report.values.keys, ∃ op, key = opKey op
  values : ∀ op c, w.durable op = true → s.committedAt op = some c → c ≤ T →
    report.values.get? (opKey op) = some (digestOf (w.value op))

/-- Such a report is read back, from either tool. -/
lemma Kept.queryTarget_eq {report : Report} (h : Kept s T report)
    {text stderr absentDetail : String}
    (htext : text = report.redb ∨ text = report.sqlite) :
    queryTarget true ⟨some 0, text, stderr⟩ absentDetail =
      .opened true report.values.get? (saidOnStderr stderr) := by
  have hkey : ∀ key ∈ report.values.keys, ¬ statusField <+: key.toList ∧ '\x00' ∉ key.toList := by
    intro key hmem
    obtain ⟨op, rfl⟩ := h.keys key hmem
    rw [toList_opKey]
    refine ⟨fun hstatus => ?_, fun hnul => ?_⟩
    · have hhead := (List.cons_prefix_cons.mp hstatus).1
      exact absurd hhead (by decide)
    · rcases List.mem_cons.mp hnul with heq | hdigit
      · exact absurd heq (by decide)
      · exact absurd (Decimal.isDigit_toDigits hdigit) (by decide)
  have hsame : text = report.redb := by
    rcases htext with rfl | rfl
    · rfl
    · exact Report.sqlite_eq_redb fun key hmem => (hkey key hmem).2
  have hread := Report.readReport_redb fun key hmem => (hkey key hmem).1
  have heq := (@Report.queryTarget_eq_iff report stderr absentDetail text).mpr
    (by rw [hsame, hread]; exact ⟨rfl, rfl⟩)
  rwa [h.integrityOk] at heq

/-- **The controls are silent.** If each recovery of the states of a workload's trace finds
the durable commits that returned before the crash, whatever it finds of the others, then
the report that either query tool prints of it is read back, and the campaign has no
findings. -/
theorem controls_silent {c : Campaign} {states : List CrashState} {report : ℕ → Report}
    {text stderr : ℕ → String} {absentDetail : String}
    (hops : w.operations ≤ 2 ^ 53) (hthreads : w.threads < 2 ^ 63)
    (hrun : run w steps = some s) (htrace : c.trace.markers = s.markers)
    (hkept : ∀ i state, states[i]? = some state → Kept s (c.crashStamp state) (report i))
    (htext : ∀ i, text i = (report i).redb ∨ text i = (report i).sqlite)
    (hrecovery : ∀ i, c.recovery i = queryTarget true ⟨some 0, text i, stderr i⟩ absentDetail) :
    (∀ i state, states[i]? = some state → c.recovery i =
      .opened true (report i).values.get? (saidOnStderr (stderr i))) ∧
      (c.run states).findings.values = [] := by
  have hinv : Inv s := Inv.run (by omega) hrun
  refine ⟨fun i state hstate =>
    (hrecovery i).trans ((hkept i state hstate).queryTarget_eq (htext i)), ?_⟩
  refine Campaign.findings_run_eq_nil_iff.mpr fun i state hstate => ?_
  have hstate' := hkept i state hstate
  rw [Campaign.violations, hrecovery, hstate'.queryTarget_eq (htext i), checkOracle_opened_eq_nil]
  intro r hr
  obtain ⟨op, a, hdurable, ha, hlt, hrecord⟩ := (hinv.mem_promisedBefore_iff hops htrace).mp hr
  obtain ⟨-, hkey, hdigest⟩ := recordOf_acked ha hrecord
  obtain ⟨-, commit, hcommit, hle⟩ := hinv.staged.acked op a ha
  rw [hkey, hdigest]
  exact hstate'.values op commit hdurable hcommit (by omega)

/-- What is found of the first put alone. -/
def foundFirst : Report where
  integrityOk := true
  values := ⟨[(opKey 1, digestOf (mixedPuts.value 1))], List.nodup_singleton _⟩
  key_ne := fun key hkey => by
    rw [List.mem_singleton.mp hkey]
    decide
  key_solid := fun key hkey => by
    rw [List.mem_singleton.mp hkey]
    exact solid_opKey 1
  length_digest := fun digest hdigest => by
    rw [List.mem_singleton.mp hdigest]
    exact length_digestOf _
  hex_digest := fun digest hdigest => by
    rw [List.mem_singleton.mp hdigest]
    exact forall_mem_digestOf (by decide) _

/-- A crash after the run. -/
def mixedCampaign (markers : List TraceMarker) : Campaign where
  trace := ⟨⟨1, 7⟩, [syncAt 4 "/db/main.redb"], markers⟩
  imageDir := "/images".toList
  cwd := "/".toList
  recovery := fun _ => queryTarget true ⟨some 0, foundFirst.redb, ""⟩ ""

/-- That much is enough. -/
theorem mixedPuts_silent : ∃ s, run mixedPuts mixedSteps = some s ∧
    (∀ (i : ℕ) (state : CrashState), [(⟨0, [], []⟩ : CrashState)][i]? = some state →
      (mixedCampaign s.markers).recovery i = .opened true foundFirst.values.get?
        (saidOnStderr "")) ∧
    ((mixedCampaign s.markers).run [⟨0, [], []⟩]).findings.values = [] := by
  obtain ⟨s, hs, hacked⟩ := exists_mixed
  have hinv : Inv s := Inv.run (by decide) hs
  refine ⟨s, hs, @controls_silent _ _ _ _ _ (fun _ => foundFirst) _ _ "" (by decide) (by decide) hs
    rfl (fun i state _ => ⟨rfl, fun key hkey => ⟨1, List.mem_singleton.mp hkey⟩, ?_⟩)
    (fun _ => .inl rfl) fun _ => rfl⟩
  intro op c hdurable hc _
  obtain ⟨-, b, hb, -⟩ := hinv.staged.committed op c hc
  obtain ⟨-, hpos, hle, -⟩ := hinv.staged.begun op b hb
  have hle' : op ≤ 2 := hle
  interval_cases op
  · rfl
  · exact absurd hdurable (by decide)

end World

end CrashFuzz
