import CrashFuzz.Campaign.Blame
import CrashFuzz.Enumerate.Selection
import CrashFuzz.Lib.PosixPath

/-!
The campaign (`core/src/campaign/campaign.ts`): one trace through the whole
pipeline.

* `Campaign.testState`: the body of the loop. It materializes a state in an
  image, keeps what the oracle reports of its recovery, and removes the image
  unless a finding points at it.
* `runCampaign`: the pipeline around the loop.
* `Kept`: what one state preserves of the images (`Kept.step`), and a run
  (`Kept.run`).
* `Campaign.run_evidence`: no finding is lost, each keeps the first state that
  produced it, and the images that are left are theirs.

The files of the image directory are a set of locations. Formatting, mounting
and replaying change only the image of the state they are for, so they are left
out, and what recovery reports of it is a parameter.
-/

namespace CrashFuzz

open PosixPath

/-- `Finding`. -/
structure Finding where
  signature : String
  violation : Violation
  /-- How often the signature was reported. -/
  occurrences : ℕ
  /-- The first state that produced it, kept as the reproducer. -/
  state : CrashState
  imagePath : Chars

/-- What the loop of `runCampaign` reads. -/
structure Campaign where
  trace : Trace
  /-- Where images are written. -/
  imageDir : Chars
  /-- The working directory of the process. -/
  cwd : Chars
  /-- What recovery reports of the image of the state at a position. -/
  recovery : ℕ → RecoveryResult

/-- What the loop of `runCampaign` changes. -/
structure CampaignRun where
  findings : OrderedMap String Finding
  statesTested : ℕ
  /-- The locations of the image files. -/
  images : Finset (List Chars)

namespace Campaign

variable (c : Campaign)

def ackLog : List AckedOperation := parseAckLog c.trace

/-- The name of an image file. -/
def imageName (index : ℕ) : Chars :=
  "state-".toList ++ (toString index).toList ++ ".img".toList

def imagePath (index : ℕ) : Chars := join c.imageDir (imageName index)

/-- The location of a file. -/
def location (path : Chars) : List Chars := resolve c.cwd path

def crashStamp (state : CrashState) : ℕ :=
  (c.trace.events[state.crashPoint]?.map (·.index)).getD 0

/-- The violations of the state at a position. -/
def violations (index : ℕ) (state : CrashState) : List Violation :=
  checkOracle ⟨c.crashStamp state, c.ackLog, c.recovery index⟩

def signature (state : CrashState) (violation : Violation) : String :=
  signatureOf violation state c.trace
    (blamedOperation c.ackLog (c.crashStamp state) violation)

/-- A new finding. -/
def finding (index : ℕ) (state : CrashState) (violation : Violation) : Finding where
  signature := c.signature state violation
  violation := violation
  occurrences := 1
  state := state
  imagePath := c.imagePath index

/-- A finding is added, or the one with its signature occurs once more. -/
def note (findings : OrderedMap String Finding) (finding : Finding) :
    OrderedMap String Finding :=
  findings.record finding.signature finding fun existing =>
    { existing with occurrences := existing.occurrences + 1 }

/-- The body of the loop of `runCampaign`. -/
def testState (run : CampaignRun) (entry : CrashState × ℕ) : CampaignRun :=
  let (state, index) := entry
  let imagePath := c.imagePath index
  let materialized := insert (c.location imagePath) run.images
  let findings := ((c.violations index state).map (c.finding index state)).foldl note run.findings
  let isEvidence := findings.values.any (·.imagePath = imagePath)
  { findings := findings
    statesTested := run.statesTested + 1
    images := if isEvidence then materialized else materialized.erase (c.location imagePath) }

/-- The loop of `runCampaign`, from an empty image directory. -/
def run (states : List CrashState) : CampaignRun :=
  states.zipIdx.foldl c.testState ⟨.empty, 0, ∅⟩

end Campaign

/-- `CampaignOptions`, as far as the pipeline depends on them. -/
structure CampaignOptions where
  imageDir : Chars
  model : FilesystemModel
  seed : ℚ

/-- `LoadedBounds`, as far as the pipeline depends on them. -/
structure LoadedBounds where
  nonFsyncSampleRate : ℚ
  maxUnpersistedWindow : ℤ
  maxExhaustiveWorkloadOps : ℚ
  maxStatesPerCrashPoint : ℚ
  tornWrites : Bool

/-- `CampaignResult`. -/
structure CampaignResult where
  crashPointsTested : ℕ
  statesTested : ℕ
  findings : List Finding

/-- The states of a trace that are tested, with the number of crash points. -/
def statesToTest (trace : Trace) (options : CampaignOptions) (bounds : LoadedBounds) :
    Except Thrown (ℕ × List CrashState) := do
  let crashPoints := selectCrashPoints trace
    { nonFsyncSampleRate := bounds.nonFsyncSampleRate
      maxExhaustiveWorkloadOps := some bounds.maxExhaustiveWorkloadOps
      seed := options.seed }
  let states ← enumerateCrashStates trace
    { model := options.model
      bounds := ⟨bounds.tornWrites, bounds.maxUnpersistedWindow⟩
      crashPoints := some crashPoints }
  return (crashPoints.length, sampleStates states ⟨bounds.maxStatesPerCrashPoint, options.seed⟩)

/-- `runCampaign`, on the text of a trace, with the image files it leaves. -/
def runCampaign (text : String) (cwd : Chars) (options : CampaignOptions) (bounds : LoadedBounds)
    (recovery : ℕ → RecoveryResult) : Except Thrown (CampaignResult × Finset (List Chars)) := do
  let trace ← parseTrace readLine text
  let (crashPointsTested, states) ← statesToTest trace options bounds
  let run := Campaign.run ⟨trace, options.imageDir, cwd, recovery⟩ states
  return (⟨crashPointsTested, run.statesTested, run.findings.values⟩, run.images)

namespace Campaign

variable {c : Campaign}

/-! ### The images -/

lemma imageName_eq (index : ℕ) :
    imageName index = "state-".toList ++ Nat.toDigits 10 index ++ ".img".toList :=
  congrArg ("state-".toList ++ · ++ ".img".toList) Nat.toList_repr

lemma proper_imageName (index : ℕ) : Proper (imageName index) := by
  have hhead : ∃ rest, imageName index = 's' :: rest := ⟨_, rfl⟩
  obtain ⟨rest, hrest⟩ := hhead
  refine ⟨?_, ?_, ?_, fun hslash => ?_⟩
  · simp [hrest]
  · simp [hrest]
  · simp [hrest, dotdot]
  · rw [imageName_eq, List.append_assoc, List.mem_append, List.mem_append] at hslash
    rcases hslash with h | h | h
    · revert h
      decide
    · exact absurd (Decimal.isDigit_toDigits h) (by decide)
    · revert h
      decide

lemma imageName_injective : Function.Injective imageName := by
  intro i j hij
  rw [imageName_eq, imageName_eq, List.append_left_inj, List.append_right_inj] at hij
  calc i
      = Nat.ofDigitChars 10 (Nat.toDigits 10 i) 0 := Nat.ofDigitChars_ten_toDigits.symm
    _ = Nat.ofDigitChars 10 (Nat.toDigits 10 j) 0 := by rw [hij]
    _ = j := Nat.ofDigitChars_ten_toDigits

lemma location_imagePath (index : ℕ) :
    c.location (c.imagePath index) = resolve c.cwd c.imageDir ++ [imageName index] :=
  resolve_join_component c.cwd c.imageDir (proper_imageName index)

/-- No two states share an image file. -/
lemma location_imagePath_injective : Function.Injective fun i => c.location (c.imagePath i) := by
  intro i j hij
  simp only [location_imagePath, List.append_cancel_left_eq, List.cons.injEq, and_true] at hij
  exact imageName_injective hij

/-- The images of some findings. -/
def paths (findings : OrderedMap String Finding) : List Chars := findings.values.map (·.imagePath)

lemma mem_paths_iff {findings : OrderedMap String Finding} {p : Chars} :
    p ∈ paths findings ↔ ∃ s, (findings.get? s).map (·.imagePath) = some p := by
  simp only [paths, List.mem_map, OrderedMap.mem_values_iff, Option.map_eq_some_iff]
  constructor
  · rintro ⟨f, ⟨s, hs⟩, hf⟩
    exact ⟨s, f, hs, hf⟩
  · rintro ⟨s, f, hs, hf⟩
    exact ⟨f, ⟨s, hs⟩, hf⟩

/-- What noting some findings leaves alone of the ones that are there: all but
how often they occur. -/
lemma map_get?_foldl_note {ρ : Type} {π : Finding → ρ}
    (h : ∀ (f : Finding) (n : ℕ), π { f with occurrences := n } = π f)
    (findings : OrderedMap String Finding) (fs : List Finding) (s : String) :
    ((fs.foldl note findings).get? s).map π =
      ((findings.get? s).map π).or ((fs.find? (·.signature = s)).map π) :=
  OrderedMap.map_get?_foldl_record (fun f => h f _) Finding.signature id fs

/-- Noting the findings of one image adds that image, or none. -/
lemma mem_paths_foldl_note {findings : OrderedMap String Finding} {fs : List Finding} {q p : Chars}
    (hq : ∀ f ∈ fs, f.imagePath = q) :
    (p ∈ paths findings → p ∈ paths (fs.foldl note findings)) ∧
      (p ∈ paths (fs.foldl note findings) → p ∈ paths findings ∨ p = q) := by
  have hget := @map_get?_foldl_note _ Finding.imagePath (fun _ _ => rfl) findings fs
  rw [mem_paths_iff, mem_paths_iff]
  refine ⟨fun ⟨s, hs⟩ => ⟨s, ?_⟩, fun ⟨s, hs⟩ => ?_⟩
  · rw [hget, hs]
    rfl
  · rw [hget, Option.or_eq_some_iff] at hs
    rcases hs with hold | ⟨-, hnew⟩
    · exact .inl ⟨s, hold⟩
    · obtain ⟨f, hf, rfl⟩ := Option.map_eq_some_iff.mp hnew
      exact .inr (hq f (List.mem_of_find?_eq_some hf))

/-- After `n` states the findings point at images of those, and there are no
other images. -/
structure Kept (c : Campaign) (n : ℕ) (run : CampaignRun) : Prop where
  paths_lt : ∀ p ∈ paths run.findings, ∃ i < n, c.imagePath i = p
  images_iff : ∀ l, l ∈ run.images ↔ ∃ p ∈ paths run.findings, c.location p = l

namespace Kept

variable {n : ℕ} {before : CampaignRun}

/-- The image of the next state is a new one. -/
lemma notMem_images (h : Kept c n before) : c.location (c.imagePath n) ∉ before.images := by
  rw [h.images_iff]
  rintro ⟨p, hp, hl⟩
  obtain ⟨i, hi, rfl⟩ := h.paths_lt p hp
  have hin := location_imagePath_injective hl
  omega

/-- **One state**: its image is left exactly if a finding points at it. -/
lemma step (h : Kept c n before) (state : CrashState) :
    Kept c (n + 1) (c.testState before (state, n)) := by
  have hpaths := fun p => @mem_paths_foldl_note before.findings
    ((c.violations n state).map (c.finding n state)) (c.imagePath n) p (by simp [finding])
  have hevidence : ((c.testState before (state, n)).findings.values.any
      fun f => decide (f.imagePath = c.imagePath n)) = true ↔
        c.imagePath n ∈ paths (c.testState before (state, n)).findings := by
    simp [paths, List.any_eq_true]
  refine ⟨fun p hp => ?_, fun l => ?_⟩
  · rcases (hpaths p).2 hp with hold | rfl
    · obtain ⟨i, hi, hip⟩ := h.paths_lt p hold
      exact ⟨i, by omega, hip⟩
    · exact ⟨n, by omega, rfl⟩
  · by_cases hkept : c.imagePath n ∈ paths (c.testState before (state, n)).findings
    · have himages : (c.testState before (state, n)).images =
          insert (c.location (c.imagePath n)) before.images := if_pos (hevidence.mpr hkept)
      rw [himages, Finset.mem_insert, h.images_iff]
      constructor
      · rintro (rfl | ⟨p, hp, rfl⟩)
        · exact ⟨_, hkept, rfl⟩
        · exact ⟨p, (hpaths p).1 hp, rfl⟩
      · rintro ⟨p, hp, rfl⟩
        rcases (hpaths p).2 hp with hold | rfl
        · exact .inr ⟨p, hold, rfl⟩
        · exact .inl rfl
    · have himages : (c.testState before (state, n)).images = before.images :=
        (if_neg (mt hevidence.mp hkept)).trans (Finset.erase_insert h.notMem_images)
      rw [himages, h.images_iff]
      refine exists_congr fun p => and_congr_left fun _ => ⟨(hpaths p).1, fun hp => ?_⟩
      rcases (hpaths p).2 hp with hold | rfl
      · exact hold
      · exact absurd hp hkept

/-- **A run.** -/
lemma run (h : Kept c n before) (states : List CrashState) :
    Kept c (n + states.length) ((states.zipIdx n).foldl c.testState before) := by
  induction states generalizing n before with
  | nil => exact h
  | cons state states ih =>
      rw [List.zipIdx_cons, List.foldl_cons, List.length_cons, ← Nat.succ_add_eq_add_succ]
      exact ih (h.step state)

end Kept

/-! ### The findings -/

/-- What is reported of some states, in order. -/
def reports (c : Campaign) (entries : List (CrashState × ℕ)) : List Finding :=
  entries.flatMap fun entry => (c.violations entry.2 entry.1).map (c.finding entry.2 entry.1)

/-- The findings of a run are its reports, noted one by one. -/
lemma findings_foldl (entries : List (CrashState × ℕ)) (run : CampaignRun) :
    (entries.foldl c.testState run).findings = (c.reports entries).foldl note run.findings := by
  induction entries generalizing run with
  | nil => rfl
  | cons entry entries ih =>
      rw [List.foldl_cons, ih, reports, reports, List.flatMap_cons, List.foldl_append]
      rfl

lemma statesTested_foldl (entries : List (CrashState × ℕ)) (run : CampaignRun) :
    (entries.foldl c.testState run).statesTested = run.statesTested + entries.length := by
  induction entries generalizing run with
  | nil => rfl
  | cons entry entries ih =>
      have hone : (c.testState run entry).statesTested = run.statesTested + 1 := rfl
      rw [List.foldl_cons, ih, hone, List.length_cons]
      omega

lemma mem_reports_iff {states : List CrashState} {f : Finding} :
    f ∈ c.reports states.zipIdx ↔ ∃ i state, states[i]? = some state ∧
      ∃ v ∈ c.violations i state, c.finding i state v = f := by
  simp only [reports, List.mem_flatMap, List.mem_zipIdx_iff_getElem?, List.mem_map, Prod.exists]
  exact ⟨fun ⟨state, i, h⟩ => ⟨i, state, h⟩, fun ⟨i, state, h⟩ => ⟨state, i, h⟩⟩

/-- The first report with a signature comes from the first state that has one. -/
lemma find?_reports {states : List CrashState} {s : String} {f : Finding}
    (h : (c.reports states.zipIdx).find? (·.signature = s) = some f) :
    ∃ i, states[i]? = some f.state ∧ f.imagePath = c.imagePath i ∧
      (c.violations i f.state).find? (c.signature f.state · = s) = some f.violation ∧
      ∀ j < i, ∀ state, states[j]? = some state →
        ∀ v ∈ c.violations j state, c.signature state v ≠ s := by
  rw [reports, List.find?_flatMap, List.findSome?_eq_some_iff] at h
  obtain ⟨before, entry, after, hsplit, hhere, hbefore⟩ := h
  have hentry : ∀ j : ℕ, states.zipIdx[j]? = states[j]?.map (·, j) := by
    intro j
    rw [List.getElem?_zipIdx, Nat.zero_add]
  have hat : states[before.length]?.map (·, before.length) = some entry := by
    rw [← hentry, hsplit, List.getElem?_append_right le_rfl, Nat.sub_self]
    rfl
  obtain ⟨state, hstate, rfl⟩ := Option.map_eq_some_iff.mp hat
  rw [List.find?_map] at hhere
  obtain ⟨v, hv, rfl⟩ := Option.map_eq_some_iff.mp hhere
  refine ⟨before.length, hstate, rfl, hv, fun j hj state' hstate' v' hv' hs => ?_⟩
  have hmem : (state', j) ∈ before := by
    have hj' : before[j]? = some (state', j) := by
      rw [← List.getElem?_append_left hj, ← hsplit, hentry, hstate']
      rfl
    exact List.mem_of_getElem? hj'
  have hnone := List.find?_eq_none.mp (hbefore _ hmem) (c.finding j state' v')
    (List.mem_map_of_mem hv')
  exact hnone (decide_eq_true hs)

/-- What a run leaves: the signatures of all reports, each once, with what the
first state that produced it showed, and the images of these states. -/
structure Evidence (c : Campaign) (states : List CrashState) (run : CampaignRun) : Prop where
  tested : run.statesTested = states.length
  nodup : (run.findings.values.map (·.signature)).Nodup
  signatures : ∀ s, s ∈ run.findings.values.map (·.signature) ↔
    ∃ i state, states[i]? = some state ∧ ∃ v ∈ c.violations i state, c.signature state v = s
  first : ∀ f ∈ run.findings.values, ∃ i, states[i]? = some f.state ∧
    f.imagePath = c.imagePath i ∧
    (c.violations i f.state).find? (c.signature f.state · = f.signature) = some f.violation ∧
    ∀ j < i, ∀ state, states[j]? = some state →
      ∀ v ∈ c.violations j state, c.signature state v ≠ f.signature
  images : ∀ l, l ∈ run.images ↔ ∃ f ∈ run.findings.values, c.location f.imagePath = l

/-- What a run finds under a signature is its first report, but for how often it
occurs. -/
lemma get?_run (states : List CrashState) (s : String) :
    ((c.run states).findings.get? s).map (fun f => { f with occurrences := 1 }) =
      (c.reports states.zipIdx).find? (·.signature = s) := by
  rw [run, findings_foldl, map_get?_foldl_note (fun _ _ => rfl), OrderedMap.get?_empty,
    Option.map_none, Option.none_or]
  cases hfind : (c.reports states.zipIdx).find? (·.signature = s) with
  | none => rfl
  | some f =>
      obtain ⟨i, state, -, v, -, rfl⟩ := mem_reports_iff.mp (List.mem_of_find?_eq_some hfind)
      rfl

lemma find?_reports_of_get? {states : List CrashState} {s : String} {f : Finding}
    (h : (c.run states).findings.get? s = some f) :
    (c.reports states.zipIdx).find? (·.signature = s) = some { f with occurrences := 1 } := by
  rw [← get?_run, h]
  rfl

/-- A finding stands under its own signature. -/
lemma signature_of_get? {states : List CrashState} {s : String} {f : Finding}
    (h : (c.run states).findings.get? s = some f) : f.signature = s := by
  have hs := List.find?_some (find?_reports_of_get? h)
  exact of_decide_eq_true hs

lemma statesTested_run (states : List CrashState) :
    (c.run states).statesTested = states.length := by
  rw [run, statesTested_foldl, List.length_zipIdx, Nat.zero_add]

lemma kept_run (states : List CrashState) : Kept c states.length (c.run states) := by
  have hempty : Kept c 0 ⟨.empty, 0, ∅⟩ := by
    refine ⟨fun p hp => ?_, fun l => ?_⟩
    · cases hp
    · simp [paths, OrderedMap.values]
  have hkept := hempty.run states
  rwa [Nat.zero_add] at hkept

lemma map_signature_run (states : List CrashState) :
    (c.run states).findings.values.map (·.signature) = (c.run states).findings.keys :=
  OrderedMap.map_values _ fun _ _ => signature_of_get?

/-- The signatures of a run are those of its reports. -/
lemma mem_signatures_iff {states : List CrashState} {s : String} :
    s ∈ (c.run states).findings.values.map (·.signature) ↔
      ∃ i state, states[i]? = some state ∧ ∃ v ∈ c.violations i state, c.signature state v = s := by
  rw [map_signature_run, OrderedMap.mem_keys_iff, ← Option.isSome_iff_exists,
    ← Option.isSome_map (f := fun f : Finding => { f with occurrences := 1 }), get?_run,
    List.find?_isSome]
  constructor
  · rintro ⟨f, hf, hs⟩
    obtain ⟨i, state, hstate, v, hv, rfl⟩ := mem_reports_iff.mp hf
    exact ⟨i, state, hstate, v, hv, of_decide_eq_true hs⟩
  · rintro ⟨i, state, hstate, v, hv, hs⟩
    exact ⟨_, mem_reports_iff.mpr ⟨i, state, hstate, v, hv, rfl⟩, decide_eq_true hs⟩

/-- A finding shows what the first state with its signature reported. -/
lemma exists_first {states : List CrashState} {f : Finding}
    (hf : f ∈ (c.run states).findings.values) : ∃ i, states[i]? = some f.state ∧
      f.imagePath = c.imagePath i ∧
      (c.violations i f.state).find? (c.signature f.state · = f.signature) = some f.violation ∧
      ∀ j < i, ∀ state, states[j]? = some state →
        ∀ v ∈ c.violations j state, c.signature state v ≠ f.signature := by
  obtain ⟨s, hs⟩ := OrderedMap.mem_values_iff.mp hf
  obtain rfl := signature_of_get? hs
  have hfirst := find?_reports (find?_reports_of_get? hs)
  exact hfirst

/-- **No finding is lost and every finding keeps its evidence**, whichever states
are tested and whatever their recoveries report. -/
theorem run_evidence (c : Campaign) (states : List CrashState) :
    Evidence c states (c.run states) := by
  refine ⟨statesTested_run states, ?_, fun s => mem_signatures_iff, fun f hf => exists_first hf,
    fun l => ?_⟩
  · rw [map_signature_run]
    exact OrderedMap.nodup _
  · rw [(kept_run states).images_iff]
    simp [paths]

end Campaign

/-- A campaign on a trace tests some states of it, and its result is that of
their run. -/
lemma runCampaign_ok {text : String} {cwd : Chars} {options : CampaignOptions}
    {bounds : LoadedBounds} {recovery : ℕ → RecoveryResult} {result : CampaignResult}
    {images : Finset (List Chars)}
    (h : runCampaign text cwd options bounds recovery = .ok (result, images)) :
    ∃ trace states, parseTrace readLine text = .ok trace ∧
      result.statesTested = states.length ∧
      result.findings =
        (Campaign.run ⟨trace, options.imageDir, cwd, recovery⟩ states).findings.values ∧
      images = (Campaign.run ⟨trace, options.imageDir, cwd, recovery⟩ states).images := by
  rw [runCampaign] at h
  cases hparse : parseTrace readLine text with
  | error e =>
      rw [hparse] at h
      cases h
  | ok trace =>
      rw [hparse] at h
      cases hstates : statesToTest trace options bounds with
      | error e =>
          simp only [bind, Except.bind, hstates] at h
          cases h
      | ok selected =>
          simp only [bind, Except.bind, hstates] at h
          obtain ⟨crashPointsTested, states⟩ := selected
          cases h
          exact ⟨trace, states, rfl, Campaign.statesTested_run states, rfl, rfl⟩

/-- **The boundaries are tested**: at each crash point that is selected, the state that keeps
least and the one that keeps everything issued, whatever the cap. -/
lemma exists_statesToTest {trace : Trace} {options : CampaignOptions} {bounds : LoadedBounds}
    {k W : ℕ} (hmodel : options.model.totalOrder = false)
    (hbounds : bounds.maxUnpersistedWindow = W) (hW : 1 ≤ W) (hW' : W ≤ 30)
    (hk : k ∈ selectCrashPoints trace ⟨bounds.nonFsyncSampleRate, options.seed,
      some bounds.maxExhaustiveWorkloadOps⟩) :
    ∃ tested states, statesToTest trace options bounds = .ok (tested, states) ∧
      ⟨k, CrashPoint.alwaysPresent trace.events W k, []⟩ ∈ states ∧
      ⟨k, CrashPoint.issued trace.events W k, []⟩ ∈ states := by
  let crashPoints := selectCrashPoints trace ⟨bounds.nonFsyncSampleRate, options.seed,
    some bounds.maxExhaustiveWorkloadOps⟩
  let emitted := crashPoints.flatMap (CrashPoint.states trace.events options.model
    ⟨bounds.tornWrites, bounds.maxUnpersistedWindow⟩)
  have henumerate : enumerateCrashStates trace ⟨options.model,
      ⟨bounds.tornWrites, bounds.maxUnpersistedWindow⟩, some crashPoints⟩ = .ok emitted :=
    enumerateFrom_eq_ok.mpr ⟨fun _ => lt_of_mem_selectCrashPoints, rfl⟩
  have hhead := head?_group henumerate hk (head_states hmodel hbounds hW hW')
  have hlast := getLast?_group henumerate hk (getLast_states hmodel hbounds hW hW')
  refine ⟨crashPoints.length, sampleStates emitted ⟨bounds.maxStatesPerCrashPoint, options.seed⟩,
    ?_, mem_sampleStates (.inl hhead), mem_sampleStates (.inr hlast)⟩
  rw [statesToTest, henumerate]
  rfl

end CrashFuzz
