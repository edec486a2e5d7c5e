import CrashFuzz.Campaign.Artifacts
import CrashFuzz.Campaign.Hosted
import CrashFuzz.Campaign.Packaged
import CrashFuzz.Oracle.Query
import CrashFuzz.Oracle.RunScript

/-!
The sweep (`core/tools/campaign-run.ts`): every filesystem against every shape,
with one trace for each shape.

* `SweepHost`: what its commands and calls come to, each of which may throw.
* `sweepRow`, `sweep`: the loop of `main`, with its map of traces.
* `plainRow`: a row as it would be without the map.
* `Cached.step`: the map holds the traces of the shapes that were met.
* `Swept.step`: what one row preserves, and `sweepOver_spec`: what the loop does.
* `sweep_ok_iff`: when the sweep ends.

What testing a state comes to is a parameter here; `HostedSweep` issues the commands.
-/

namespace CrashFuzz

open PosixPath

/-! ### The driver -/

/-- `Filesystem`, as text. -/
def Image.Filesystem.text : Image.Filesystem → String
  | .ext4 => "ext4"
  | .xfs => "xfs"
  | .btrfs => "btrfs"

/-- The `filesystem` of an entry of `SWEEP`. -/
def SweepConfig.filesystem (config : SweepConfig) : Image.Filesystem :=
  if config.name = "xfs" then .xfs else if config.name = "btrfs" then .btrfs else .ext4

/-- The `mountOptions` of an entry of `SWEEP`. -/
def SweepConfig.mountOptions (config : SweepConfig) : Option String :=
  if config.name = "ext4-ordered" then some "data=ordered"
  else if config.name = "ext4-journal" then some "data=journal"
  else none

/-- `SweepRow`. -/
structure SweepRow where
  configName : String
  filesystem : Image.Filesystem
  mountOptions : Option String
  shape : String
  crashPointsTested : ℕ
  statesTested : ℕ
  /-- Signatures, and how often each occurs. -/
  findings : List (String × ℕ)

/-- What the workload leaves when it ran with the shim. -/
structure WorkloadRun where
  exitCode : Option ℕ
  stderr : String
  /-- The text of its trace. -/
  trace : String

/-- What a sweep meets outside of itself. -/
structure SweepHost where
  cwd : Chars
  /-- The directory of the images. -/
  workdir : Chars
  /-- The workload, run for a row of the plan with a shape. Making its directories,
  starting it or reading the file of its trace may throw. -/
  workload : ℕ → String → Except Thrown WorkloadRun
  /-- What testing a state of a row of the plan comes to: what its recovery reports, or
  what making, mounting, replaying, recovering or removing its image throws. -/
  tested : ℕ → ℕ → Except Thrown RecoveryResult
  /-- What making the directory of an artifact of a row and writing its files comes to. -/
  packaged : ℕ → Chars → Except Thrown Unit

/-- What recovery reports in a row of the plan of the image of a state. -/
def SweepHost.recovery (host : SweepHost) (index i : ℕ) : RecoveryResult :=
  reported (host.tested index i)

/-- `captureTrace`, with the text of the trace. -/
def captureTrace (host : SweepHost) (index : ℕ) (shape : String) : Except Thrown String := do
  let run ← host.workload index shape
  if run.exitCode = some 0 then return run.trace
  else throw (.error ("workload " ++ shape ++ " exited " ++
    (run.exitCode.map toString).getD "null" ++ ": " ++ run.stderr))

/-- The `imageDir` that `main` passes to `runCampaign`. -/
def SweepHost.imageDir (host : SweepHost) (run : SweepRun) : Chars :=
  join host.workdir ("img-".toList ++ run.config.name.toList ++ '-' :: run.shape.toList)

/-- `DB_NAME`. -/
def DB_NAME : String := "main.redb"

/-- The options of `redbQueryAndBuildCommand` and of the configuration. -/
def SweepConfig.reproducer (config : SweepConfig) : ReproducerOptions where
  dbName := DB_NAME
  filesystem := config.filesystem.text
  queryCommand := "/var/lib/crashfuzz/cargo-target/release/redb-query"
  buildCommand := some ("CARGO_TARGET_DIR=/var/lib/crashfuzz/cargo-target cargo build --release " ++
    "--manifest-path \"$repo/targets/redb-workload/Cargo.toml\"")

/-- The files of an artifact, but for `finding.json`. -/
structure Artifact where
  /-- The image that `state.img` is a copy of. -/
  image : Chars
  tracePrefix : String
  runScript : String
  readme : String

/-- `writeReproducer`, for the images that are there and what making the directory and
writing the files comes to. -/
def writeReproducer (cwd : Chars) (isThere : List Chars → Bool) (written : Except Thrown Unit)
    (text : String) (options : ReproducerOptions) (finding : Finding) (outDir : Chars) :
    Except Thrown Artifact := do
  written
  -- `copyFileSync`
  unless isThere (resolve cwd finding.imagePath) do
    throw (.error ("ENOENT: no such file or directory, copyfile '" ++
      String.ofList finding.imagePath ++ "' -> '" ++
      String.ofList (join outDir "state.img".toList) ++ "'"))
  let kept ← CrashFuzz.tracePrefix readLine text finding.state.crashPoint
  return ⟨finding.imagePath, kept, runScript options, readme finding.violation options⟩

/-- What the loop of `main` changes. -/
structure SweepState where
  /-- The text of the trace of a shape. -/
  traces : OrderedMap String String
  rows : List SweepRow
  /-- What is below `findingsRoot`, by location. -/
  artifacts : OrderedMap (List Chars) Artifact

/-- The row of a campaign. -/
def SweepRun.row (run : SweepRun) (result : CampaignResult) : SweepRow where
  configName := run.config.name
  filesystem := run.config.filesystem
  mountOptions := run.config.mountOptions
  shape := run.shape
  crashPointsTested := result.crashPointsTested
  statesTested := result.statesTested
  findings := result.findings.map fun finding => (finding.signature, finding.occurrences)

/-- The campaign of a row, on the trace that was read. -/
def SweepHost.campaign (host : SweepHost) (run : SweepRun) (index : ℕ) (trace : Trace) :
    Campaign :=
  ⟨trace, host.imageDir run, host.cwd, host.recovery index⟩

/-- The options of the campaign of a row. -/
def SweepHost.options (host : SweepHost) (seed : ℚ) (run : SweepRun) : CampaignOptions :=
  ⟨host.imageDir run, run.config.model, seed⟩

section Driver

variable (host : SweepHost) (bounds : LoadedBounds) (seed : ℚ)

/-- `runCampaign` in a row, with the image files it leaves. -/
def rowCampaign (run : SweepRun) (index : ℕ) (text : String) :
    Except Thrown (CampaignResult × Finset (List Chars)) := do
  let trace ← parseTrace readLine text
  let (crashPointsTested, states) ← statesToTest trace (host.options seed run) bounds
  let run ← (host.campaign run index trace).tryRun (host.tested index) states
  return (⟨crashPointsTested, run.statesTested, run.findings.values⟩, run.images)

/-- The loop over the findings of a row. -/
def package (run : SweepRun) (index : ℕ) (text : String) (isThere : List Chars → Bool)
    (artifacts : OrderedMap (List Chars) Artifact) (finding : Finding) :
    Except Thrown (OrderedMap (List Chars) Artifact) := do
  let artifact ← writeReproducer host.cwd isThere (host.packaged index (outDir run finding)) text
    run.config.reproducer finding (outDir run finding)
  return artifacts.set (resolve host.cwd (outDir run finding)) artifact

/-- The trace of a shape is captured if there is none. -/
def withTrace (traces : OrderedMap String String) (index : ℕ) (shape : String) :
    Except Thrown (OrderedMap String String) :=
  if (traces.get? shape).isSome then .ok traces
  else (captureTrace host index shape).map fun text => traces.set shape text

/-- The body of the loop of `main`. -/
def sweepRow (st : SweepState) (entry : SweepRun × ℕ) : Except Thrown SweepState := do
  let (run, index) := entry
  let traces ← withTrace host st.traces index run.shape
  match traces.get? run.shape with
  | none => throw .typeError
  | some text => do
      let (result, images) ← rowCampaign host bounds seed run index text
      let artifacts ← result.findings.foldlM (package host run index text (· ∈ images))
        st.artifacts
      return ⟨traces, st.rows ++ [run.row result], artifacts⟩

/-- The loop of `main` over a plan, from an empty `findingsRoot`. -/
def sweepOver (plan : List SweepRun) : Except Thrown SweepState :=
  plan.zipIdx.foldlM (sweepRow host bounds seed) ⟨.empty, [], .empty⟩

/-- The loop of `main`. -/
def sweep : Except Thrown SweepState := sweepOver host bounds seed sweepPlan

/-! ### The plain loop -/

/-- The first row of a plan with a shape. -/
def firstRow (plan : List SweepRun) (shape : String) : ℕ := plan.findIdx (·.shape = shape)

/-- A row with its trace, its campaign and the images that this left. -/
structure SweptRow where
  run : SweepRun
  text : String
  result : CampaignResult
  images : Finset (List Chars)

/-- A row, from the trace that the workload left in the first row of its shape. -/
def plainRow (plan : List SweepRun) (entry : SweepRun × ℕ) : Except Thrown SweptRow := do
  let (run, index) := entry
  let text ← captureTrace host (firstRow plan run.shape) run.shape
  let (result, images) ← rowCampaign host bounds seed run index text
  forM result.findings fun finding => host.packaged index (outDir run finding)
  return ⟨run, text, result, images⟩

end Driver

variable {host : SweepHost} {bounds : LoadedBounds} {seed : ℚ} {plan : List SweepRun}
  {run : SweepRun} {n points : ℕ} {shape text : String} {traces : OrderedMap String String}
  {rows : List SweptRow} {row : SweptRow} {st : SweepState} {f : Finding} {a : Artifact}
  {trace : Trace} {states : List CrashState}

/-- A shape of a row was met by then. -/
lemma firstRow_le (h : plan[n]? = some run) : firstRow plan run.shape ≤ n := by
  by_contra hlate
  obtain ⟨hn, rfl⟩ := List.getElem?_eq_some_iff.mp h
  have hother := List.not_of_lt_findIdx (not_le.mp hlate)
  simp at hother

/-- A row meets no shape for the first time but its own. -/
lemma eq_shape_of_firstRow (h : plan[n]? = some run) (hfirst : firstRow plan shape = n) :
    run.shape = shape := by
  obtain ⟨hn, rfl⟩ := List.getElem?_eq_some_iff.mp h
  subst hfirst
  exact of_decide_eq_true (List.findIdx_getElem (w := hn))

/-! ### The map of traces -/

/-- Before a row the map has the trace of each shape that was met, as the
workload left it then. -/
structure Cached (host : SweepHost) (plan : List SweepRun) (n : ℕ)
    (traces : OrderedMap String String) : Prop where
  captured : ∀ shape, firstRow plan shape < n → ∃ text,
    captureTrace host (firstRow plan shape) shape = .ok text ∧ traces.get? shape = some text
  uncaptured : ∀ shape, n ≤ firstRow plan shape → traces.get? shape = none

namespace Cached

/-- A shape that was met before is not captured again. -/
lemma again (h : Cached host plan n traces) (hrun : plan[n]? = some run)
    (hmet : firstRow plan run.shape < n) : Cached host plan (n + 1) traces := by
  refine ⟨fun shape hlt => ?_, fun shape hle => h.uncaptured shape (by omega)⟩
  rcases (Nat.lt_succ_iff.mp hlt).eq_or_lt with hhere | hbefore
  · rw [← eq_shape_of_firstRow hrun hhere]
    exact h.captured run.shape hmet
  · exact h.captured shape hbefore

/-- A shape that is met for the first time is. -/
lemma first (h : Cached host plan n traces) (hrun : plan[n]? = some run)
    (hnew : firstRow plan run.shape = n) (htext : captureTrace host n run.shape = .ok text) :
    Cached host plan (n + 1) (traces.set run.shape text) := by
  refine ⟨fun shape hlt => ?_, fun shape hle => ?_⟩
  · rcases (Nat.lt_succ_iff.mp hlt).eq_or_lt with hhere | hbefore
    · obtain rfl := eq_shape_of_firstRow hrun hhere
      exact ⟨text, by rwa [hnew], OrderedMap.get?_set_self⟩
    · have hne : shape ≠ run.shape := by
        rintro rfl
        omega
      rw [OrderedMap.get?_set_of_ne hne]
      exact h.captured shape hbefore
  · have hne : shape ≠ run.shape := by
      rintro rfl
      omega
    rw [OrderedMap.get?_set_of_ne hne]
    exact h.uncaptured shape (by omega)

/-- **The trace of a row** is the one of the first row of its shape. -/
lemma step (h : Cached host plan n traces) (hrun : plan[n]? = some run) :
    (∃ e, withTrace host traces n run.shape = .error e ∧
      captureTrace host (firstRow plan run.shape) run.shape = .error e) ∨
    ∃ traces' text, withTrace host traces n run.shape = .ok traces' ∧
      captureTrace host (firstRow plan run.shape) run.shape = .ok text ∧
      traces'.get? run.shape = some text ∧ Cached host plan (n + 1) traces' := by
  rcases (firstRow_le hrun).eq_or_lt with hnew | hmet
  · have hnone := h.uncaptured run.shape hnew.ge
    rw [withTrace, hnone, hnew]
    cases htext : captureTrace host n run.shape with
    | error e => exact .inl ⟨e, rfl, rfl⟩
    | ok text =>
        exact .inr ⟨_, text, rfl, rfl, OrderedMap.get?_set_self, h.first hrun hnew htext⟩
  · obtain ⟨text, htext, hget⟩ := h.captured run.shape hmet
    rw [withTrace, hget]
    exact .inr ⟨traces, text, rfl, htext, hget, h.again hrun hmet⟩

end Cached

/-! ### The campaign of a row -/

lemma rowCampaign_eq (hread : parseTrace readLine text = .ok trace)
    (hstates : statesToTest trace (host.options seed run) bounds = .ok (points, states)) :
    rowCampaign host bounds seed run n text =
      ((host.campaign run n trace).tryRun (host.tested n) states).map fun run' =>
        (⟨points, run'.statesTested, run'.findings.values⟩, run'.images) := by
  rw [rowCampaign, hread]
  simp only [bind, Except.bind, hstates]
  cases (host.campaign run n trace).tryRun (host.tested n) states <;> rfl

/-- **The campaign of a row** returns if no state throws, and then it is a run over what
their recoveries reported. -/
lemma rowCampaign_ok_iff {result : CampaignResult} {images : Finset (List Chars)}
    (hread : parseTrace readLine text = .ok trace)
    (hstates : statesToTest trace (host.options seed run) bounds = .ok (points, states)) :
    rowCampaign host bounds seed run n text = .ok (result, images) ↔
      (∀ i < states.length, ∃ recovery, host.tested n i = .ok recovery) ∧
      result = ⟨points, states.length,
        ((host.campaign run n trace).run states).findings.values⟩ ∧
      images = ((host.campaign run n trace).run states).images := by
  rw [rowCampaign_eq hread hstates]
  cases hrun : (host.campaign run n trace).tryRun (host.tested n) states with
  | ok run' =>
      obtain ⟨htested, rfl⟩ := Campaign.tryRun_ok_iff.mp hrun
      rw [and_iff_right htested]
      change Except.ok _ = Except.ok _ ↔ _
      rw [Except.ok.injEq, Prod.mk.injEq, Campaign.statesTested_run, @eq_comm _ _ result,
        @eq_comm _ _ images]
      rfl
  | error e =>
      refine iff_of_false (fun h => by cases h) fun ⟨htested, _⟩ => ?_
      have hok := (@Campaign.tryRun_ok_iff (host.campaign run n trace) _ _ _).mpr ⟨htested, rfl⟩
      cases hrun.symm.trans hok

/-- Where no state throws, that is `runCampaign`. -/
lemma rowCampaign_eq_runCampaign (hread : parseTrace readLine text = .ok trace)
    (hstates : statesToTest trace (host.options seed run) bounds = .ok (points, states))
    (htested : ∀ i < states.length, ∃ recovery, host.tested n i = .ok recovery) :
    rowCampaign host bounds seed run n text =
      runCampaign text host.cwd (host.options seed run) bounds (host.recovery n) := by
  rw [runCampaign_eq hread hstates]
  exact (rowCampaign_ok_iff hread hstates).mpr ⟨htested, rfl, rfl⟩

/-- What it returned is of the states of a trace that was read. -/
lemma exists_of_rowCampaign {result : CampaignResult} {images : Finset (List Chars)}
    (h : rowCampaign host bounds seed run n text = .ok (result, images)) :
    ∃ trace points states, parseTrace readLine text = .ok trace ∧
      statesToTest trace (host.options seed run) bounds = .ok (points, states) ∧
      (∀ i < states.length, ∃ recovery, host.tested n i = .ok recovery) ∧
      result = ⟨points, states.length,
        ((host.campaign run n trace).run states).findings.values⟩ ∧
      images = ((host.campaign run n trace).run states).images := by
  cases hread : parseTrace readLine text with
  | error e =>
      rw [rowCampaign, hread] at h
      cases h
  | ok trace =>
      have hstates := statesToTest_eq trace (host.options seed run) bounds
      exact ⟨trace, _, _, rfl, hstates, (rowCampaign_ok_iff hread hstates).mp h⟩

/-! ### Packaging -/

/-- What an artifact has of a finding. -/
structure Packages (text : String) (options : ReproducerOptions) (f : Finding) (a : Artifact) :
    Prop where
  image : a.image = f.imagePath
  kept : tracePrefix readLine text f.state.crashPoint = .ok a.tracePrefix
  script : a.runScript = runScript options
  claimed : a.readme = readme f.violation options

/-- The image of a finding of a row is left. -/
lemma mem_images_of_rowCampaign {result : CampaignResult} {images : Finset (List Chars)}
    (h : rowCampaign host bounds seed run n text = .ok (result, images))
    (hf : f ∈ result.findings) : resolve host.cwd f.imagePath ∈ images := by
  obtain ⟨trace, points, states, -, -, -, rfl, rfl⟩ := exists_of_rowCampaign h
  rw [(Campaign.kept_run states).images_iff]
  exact ⟨f.imagePath, List.mem_map_of_mem hf, rfl⟩

/-- **A finding can be packaged** if its files can be written: its image is left, and
its trace was read. -/
lemma exists_artifact {result : CampaignResult} {images : Finset (List Chars)}
    (h : rowCampaign host bounds seed run n text = .ok (result, images))
    (hf : f ∈ result.findings) (options : ReproducerOptions) (dir : Chars) :
    ∃ a, (∀ written, writeReproducer host.cwd (· ∈ images) written text options f dir =
      written.map fun _ => a) ∧ Packages text options f a := by
  have hleft := mem_images_of_rowCampaign h hf
  obtain ⟨trace, -, -, hparse, -⟩ := exists_of_rowCampaign h
  obtain ⟨kept, -, hkept, -⟩ := parseTrace_tracePrefix hparse f.state.crashPoint
  refine ⟨⟨f.imagePath, kept, runScript options, readme f.violation options⟩, fun written => ?_,
    rfl, hkept, rfl, rfl⟩
  cases written with
  | error e => rfl
  | ok u =>
      rw [writeReproducer, if_pos (decide_eq_true hleft)]
      simp only [hkept]
      rfl

/-- The location of the artifact of a finding. -/
def SweepHost.artifact (host : SweepHost) (run : SweepRun) (finding : Finding) : List Chars :=
  resolve host.cwd (outDir run finding)

/-- **The loop over the findings** throws if the files of one cannot be written, or it puts
an artifact of each in its place. -/
lemma package_foldlM {isThere : List Chars → Bool} {findings : List Finding}
    {Q : List Chars → Artifact → Prop}
    (hok : ∀ f ∈ findings, ∃ a, (∀ written, writeReproducer host.cwd isThere written text
      run.config.reproducer f (outDir run f) = written.map fun _ => a) ∧ Q (host.artifact run f) a)
    {artifacts : OrderedMap (List Chars) Artifact}
    (hQ : ∀ l a, artifacts.get? l = some a → Q l a) :
    (∃ e, findings.foldlM (package host run n text isThere) artifacts = .error e ∧
      (forM findings fun f => host.packaged n (outDir run f)) = .error e) ∨
    ∃ artifacts', findings.foldlM (package host run n text isThere) artifacts = .ok artifacts' ∧
      (forM findings fun f => host.packaged n (outDir run f)) = .ok () ∧
      (∀ l a, artifacts'.get? l = some a → Q l a) ∧ artifacts.keys ⊆ artifacts'.keys ∧
      ∀ f ∈ findings, host.artifact run f ∈ artifacts'.keys := by
  induction findings generalizing artifacts with
  | nil => exact .inr ⟨artifacts, rfl, rfl, hQ, List.Subset.refl _, List.forall_mem_nil _⟩
  | cons f findings ih =>
      obtain ⟨a, ha, hQa⟩ := hok f List.mem_cons_self
      have hset : ∀ l a', (artifacts.set (host.artifact run f) a).get? l = some a' → Q l a' := by
        intro l a' hl
        rw [OrderedMap.get?_set] at hl
        split at hl
        · next heq =>
            obtain rfl := Option.some.inj hl
            rwa [heq]
        · exact hQ l a' hl
      have hone : package host run n text isThere artifacts f =
          (host.packaged n (outDir run f)).map fun _ =>
            artifacts.set (host.artifact run f) a := by
        rw [package, ha]
        cases host.packaged n (outDir run f) <;> rfl
      rw [List.foldlM_cons, List.forM_cons, hone]
      cases host.packaged n (outDir run f) with
      | error e => exact .inl ⟨e, rfl, rfl⟩
      | ok u =>
          rcases ih (fun f hf => hok f (List.mem_cons_of_mem _ hf)) hset with
            hthrew | ⟨artifacts', hfold, hwritten, hQ', hkeys, hfound⟩
          · exact .inl hthrew
          · refine .inr ⟨artifacts', hfold, hwritten, hQ',
              fun l hl => hkeys (OrderedMap.mem_keys_set.mpr (.inr hl)), ?_⟩
            rw [List.forall_mem_cons]
            exact ⟨hkeys (OrderedMap.mem_keys_set.mpr (.inl rfl)), hfound⟩

/-! ### The loop -/

/-- After some rows: the traces of the shapes that were met, the rows, and an
artifact of a finding of theirs in each place that a finding has. -/
structure Swept (host : SweepHost) (plan : List SweepRun) (n : ℕ) (rows : List SweptRow)
    (st : SweepState) : Prop where
  cached : Cached host plan n st.traces
  rows_eq : st.rows = rows.map fun row => row.run.row row.result
  sound : ∀ l a, st.artifacts.get? l = some a → ∃ row ∈ rows, ∃ f ∈ row.result.findings,
    host.artifact row.run f = l ∧ Packages row.text row.run.config.reproducer f a
  complete : ∀ row ∈ rows, ∀ f ∈ row.result.findings,
    host.artifact row.run f ∈ st.artifacts.keys

/-- A row without a trace throws what capturing it threw. -/
lemma sweepRow_of_error {e : Thrown}
    (htraces : withTrace host st.traces n run.shape = .error e) :
    sweepRow host bounds seed st (run, n) = .error e := by
  simp only [sweepRow, htraces]
  rfl

/-- A row with a trace is its campaign, and then its packages. -/
lemma sweepRow_eq (htraces : withTrace host st.traces n run.shape = .ok traces)
    (hget : traces.get? run.shape = some text) :
    sweepRow host bounds seed st (run, n) =
      (rowCampaign host bounds seed run n text).bind fun tested =>
        (tested.1.findings.foldlM (package host run n text (· ∈ tested.2)) st.artifacts).map
          fun artifacts => ⟨traces, st.rows ++ [run.row tested.1], artifacts⟩ := by
  simp only [sweepRow, htraces]
  change (match traces.get? run.shape with | none => _ | some text => _) = _
  rw [hget]
  refine congrArg (Except.bind _) (funext fun tested => ?_)
  change Except.bind _ _ = _
  cases tested.1.findings.foldlM (package host run n text (· ∈ tested.2)) st.artifacts <;> rfl

lemma plainRow_of_error {e : Thrown}
    (htext : captureTrace host (firstRow plan run.shape) run.shape = .error e) :
    plainRow host bounds seed plan (run, n) = .error e := by
  simp only [plainRow, htext]
  rfl

lemma plainRow_eq (htext : captureTrace host (firstRow plan run.shape) run.shape = .ok text) :
    plainRow host bounds seed plan (run, n) =
      (rowCampaign host bounds seed run n text).bind fun tested =>
        (forM tested.1.findings fun f => host.packaged n (outDir run f)).map
          fun _ => ⟨run, text, tested.1, tested.2⟩ := by
  simp only [plainRow, htext]
  change Except.bind (rowCampaign host bounds seed run n text) _ = _
  refine congrArg (Except.bind _) (funext fun tested => ?_)
  change Except.bind _ _ = _
  cases forM tested.1.findings fun f => host.packaged n (outDir run f) <;> rfl

/-- **One row**: the loop does what the plain one does, or throws what it throws. -/
lemma Swept.step (h : Swept host plan n rows st) (hrun : plan[n]? = some run) :
    (∃ e, sweepRow host bounds seed st (run, n) = .error e ∧
      plainRow host bounds seed plan (run, n) = .error e) ∨
    ∃ st' row, sweepRow host bounds seed st (run, n) = .ok st' ∧
      plainRow host bounds seed plan (run, n) = .ok row ∧
      Swept host plan (n + 1) (rows ++ [row]) st' := by
  rcases h.cached.step hrun with ⟨e, htraces, htext⟩ | ⟨traces, text, htraces, htext, hget, hcached⟩
  · exact .inl ⟨e, sweepRow_of_error htraces, plainRow_of_error htext⟩
  · rw [sweepRow_eq htraces hget, plainRow_eq htext]
    cases hcampaign : rowCampaign host bounds seed run n text with
    | error e => exact .inl ⟨e, rfl, rfl⟩
    | ok tested =>
        obtain ⟨result, images⟩ := tested
        let row : SweptRow := ⟨run, text, result, images⟩
        have hsound : ∀ l a, st.artifacts.get? l = some a → ∃ row' ∈ rows ++ [row],
            ∃ f ∈ row'.result.findings, host.artifact row'.run f = l ∧
              Packages row'.text row'.run.config.reproducer f a := by
          intro l a hl
          obtain ⟨row', hrow', hrest⟩ := h.sound l a hl
          exact ⟨row', List.mem_append_left _ hrow', hrest⟩
        have hpackaged := @package_foldlM host run n text (· ∈ images) result.findings _
          (fun f hf => by
            obtain ⟨a, ha, hpackages⟩ := exists_artifact hcampaign hf run.config.reproducer
              (outDir run f)
            exact ⟨a, ha, row, List.mem_append_right _ List.mem_cons_self, f, hf, rfl, hpackages⟩)
          st.artifacts hsound
        rcases hpackaged with
          ⟨e, hfold, hwritten⟩ | ⟨artifacts, hfold, hwritten, hsound', hkeys, hfound⟩
        · exact .inl ⟨e, congrArg (Except.map _) hfold, congrArg (Except.map _) hwritten⟩
        · refine .inr ⟨⟨traces, st.rows ++ [run.row result], artifacts⟩, row,
            congrArg (Except.map _) hfold, congrArg (Except.map _) hwritten, hcached, ?_,
            hsound', fun row' hrow' f hf => ?_⟩
          · rw [h.rows_eq, List.map_append]
            rfl
          · rcases List.mem_append.mp hrow' with hold | hnew
            · exact hkeys (h.complete row' hold f hf)
            · obtain rfl := List.mem_singleton.mp hnew
              exact hfound f hf

/-- **The rest of a plan**, by induction on it. -/
lemma Swept.loop {done rest : List SweepRun} (h : Swept host plan done.length rows st)
    (hplan : plan = done ++ rest) :
    (∃ e, (rest.zipIdx done.length).foldlM (sweepRow host bounds seed) st = .error e ∧
      (rest.zipIdx done.length).mapM (plainRow host bounds seed plan) = .error e) ∨
    ∃ st' rows', (rest.zipIdx done.length).foldlM (sweepRow host bounds seed) st = .ok st' ∧
      (rest.zipIdx done.length).mapM (plainRow host bounds seed plan) = .ok rows' ∧
      Swept host plan plan.length (rows ++ rows') st' := by
  induction rest generalizing done rows st with
  | nil =>
      rw [List.append_nil] at hplan
      subst hplan
      exact .inr ⟨st, [], rfl, rfl, by rwa [List.append_nil]⟩
  | cons run rest ih =>
      have hrun : plan[done.length]? = some run := by
        rw [hplan, List.getElem?_append_right le_rfl, Nat.sub_self]
        rfl
      rw [List.zipIdx_cons, List.foldlM_cons, List.mapM_cons]
      rcases h.step hrun with ⟨e, hsweep, hplain⟩ | ⟨st', row, hsweep, hplain, hswept⟩
      · rw [hsweep, hplain]
        exact .inl ⟨e, rfl, rfl⟩
      · rw [hsweep, hplain]
        have hlength : (done ++ [run]).length = done.length + 1 := List.length_append
        have hrest := @ih (rows ++ [row]) st' (done ++ [run]) (by rwa [hlength])
          (by rw [hplan, List.append_assoc]; rfl)
        rw [hlength] at hrest
        rcases hrest with ⟨e, hsweeps, hplains⟩ | ⟨st'', rows', hsweeps, hplains, hdone⟩
        · refine .inl ⟨e, hsweeps, ?_⟩
          simp only [bind, Except.bind, hplains]
        · refine .inr ⟨st'', row :: rows', hsweeps, ?_, by rwa [← List.append_cons] at hdone⟩
          simp only [bind, Except.bind, hplains]
          rfl

/-- **The loop over a plan.** -/
lemma sweepOver_spec (host : SweepHost) (bounds : LoadedBounds) (seed : ℚ)
    (plan : List SweepRun) :
    (∃ e, sweepOver host bounds seed plan = .error e ∧
      plan.zipIdx.mapM (plainRow host bounds seed plan) = .error e) ∨
    ∃ st rows, sweepOver host bounds seed plan = .ok st ∧
      plan.zipIdx.mapM (plainRow host bounds seed plan) = .ok rows ∧
      Swept host plan plan.length rows st := by
  have hbegin : Swept host plan ([] : List SweepRun).length [] ⟨.empty, [], .empty⟩ := by
    refine ⟨⟨fun shape hlt => ?_, fun shape _ => rfl⟩, rfl, fun l a hl => ?_, ?_⟩
    · exact absurd hlt (Nat.not_lt_zero _)
    · cases hl
    · exact List.forall_mem_nil _
  exact hbegin.loop rfl

/-! ### When it ends -/

lemma forall₂_of_mapM_ok {α β ε : Type} {g : α → Except ε β} {xs : List α} {ys : List β}
    (h : xs.mapM g = .ok ys) : List.Forall₂ (fun x y => g x = .ok y) xs ys := by
  induction xs generalizing ys with
  | nil =>
      obtain rfl : [] = ys := Except.ok.inj h
      exact .nil
  | cons x xs ih =>
      rw [List.mapM_cons] at h
      cases hx : g x with
      | error e =>
          rw [hx] at h
          cases h
      | ok y =>
          cases hxs : xs.mapM g with
          | error e =>
              simp only [hx, hxs, bind, Except.bind] at h
              cases h
          | ok ys' =>
              simp only [hx, hxs, bind, Except.bind] at h
              obtain rfl : y :: ys' = ys := Except.ok.inj h
              exact .cons hx (ih hxs)

lemma exists_of_forall₂ {α β : Type} {R : α → β → Prop} {xs : List α} {ys : List β}
    (h : List.Forall₂ R xs ys) : (∀ x ∈ xs, ∃ y ∈ ys, R x y) ∧ ∀ y ∈ ys, ∃ x ∈ xs, R x y := by
  induction h with
  | nil => simp
  | cons hxy _ ih =>
      refine ⟨fun x hx => ?_, fun y hy => ?_⟩
      · rcases List.mem_cons.mp hx with rfl | hx
        · exact ⟨_, List.mem_cons_self, hxy⟩
        · obtain ⟨y, hy, hR⟩ := ih.1 x hx
          exact ⟨y, List.mem_cons_of_mem _ hy, hR⟩
      · rcases List.mem_cons.mp hy with rfl | hy
        · exact ⟨_, List.mem_cons_self, hxy⟩
        · obtain ⟨x, hx, hR⟩ := ih.2 y hy
          exact ⟨x, List.mem_cons_of_mem _ hx, hR⟩

lemma exists_of_mapM_error {α β ε : Type} {g : α → Except ε β} {xs : List α} {e : ε}
    (h : xs.mapM g = .error e) : ∃ x ∈ xs, ∃ e, g x = .error e := by
  induction xs generalizing e with
  | nil => cases h
  | cons x xs ih =>
      rw [List.mapM_cons] at h
      cases hx : g x with
      | error e => exact ⟨x, List.mem_cons_self, e, hx⟩
      | ok y =>
          cases hxs : xs.mapM g with
          | error e' =>
              obtain ⟨x', hx', hrest⟩ := ih hxs
              exact ⟨x', List.mem_cons_of_mem _ hx', hrest⟩
          | ok ys =>
              simp only [hx, hxs, bind, Except.bind] at h
              cases h

/-- What a row of the sweep tests: the states of the trace that the workload
left in the first row of its shape. -/
structure RowTests (host : SweepHost) (bounds : LoadedBounds) (seed : ℚ) (run : SweepRun)
    (text : String) (trace : Trace) (points : ℕ) (states : List CrashState) : Prop where
  captured : captureTrace host (SHAPES.idxOf run.shape) run.shape = .ok text
  read : parseTrace readLine text = .ok trace
  tested : statesToTest trace (host.options seed run) bounds = .ok (points, states)

/-- A row tests one list of states. -/
lemma RowTests.unique {text' : String} {trace' : Trace} {points' : ℕ} {states' : List CrashState}
    (h : RowTests host bounds seed run text trace points states)
    (h' : RowTests host bounds seed run text' trace' points' states') :
    trace = trace' ∧ states = states' := by
  obtain rfl := Except.ok.inj (h.captured.symm.trans h'.captured)
  obtain rfl := Except.ok.inj (h.read.symm.trans h'.read)
  exact ⟨rfl, (Prod.mk.inj (Except.ok.inj (h.tested.symm.trans h'.tested))).2⟩

lemma firstRow_sweepPlan : ∀ run ∈ sweepPlan,
    run.shape ∈ SHAPES ∧ firstRow sweepPlan run.shape = SHAPES.idxOf run.shape := by
  decide

/-- The findings of a row. -/
def SweepHost.findings (host : SweepHost) (entry : SweepRun × ℕ) (trace : Trace)
    (states : List CrashState) : List Finding :=
  ((host.campaign entry.1 entry.2 trace).run states).findings.values

/-- No step of a row throws after its trace was read: each of its states is tested, and the
files of each of its findings are written. -/
structure Undisturbed (host : SweepHost) (entry : SweepRun × ℕ) (trace : Trace)
    (states : List CrashState) : Prop where
  tested : ∀ i < states.length, ∃ recovery, host.tested entry.2 i = .ok recovery
  packaged : ∀ f ∈ host.findings entry trace states,
    host.packaged entry.2 (outDir entry.1 f) = .ok ()

lemma forM_ok_iff {α ε : Type} {g : α → Except ε Unit} {xs : List α} :
    forM xs g = .ok () ↔ ∀ x ∈ xs, g x = .ok () := by
  induction xs with
  | nil => simp [pure, Except.pure]
  | cons x xs ih =>
      rw [List.forM_cons, List.forall_mem_cons, ← ih]
      cases g x with
      | error e => simp [bind, Except.bind]
      | ok u => simp [bind, Except.bind]

/-- A row of the plain loop is what it tests, and what comes of it. -/
lemma plainRow_ok (hrun : run ∈ sweepPlan)
    (h : plainRow host bounds seed sweepPlan (run, n) = .ok row) :
    ∃ trace points states, RowTests host bounds seed run row.text trace points states ∧
      Undisturbed host (run, n) trace states ∧
      row.run = run ∧ row.result = ⟨points, states.length, host.findings (run, n) trace states⟩ ∧
      row.images = ((host.campaign run n trace).run states).images := by
  have hfirst := (firstRow_sweepPlan run hrun).2
  cases htext : captureTrace host (firstRow sweepPlan run.shape) run.shape with
  | error e =>
      rw [plainRow_of_error htext] at h
      cases h
  | ok text =>
      rw [plainRow_eq htext] at h
      cases hcampaign : rowCampaign host bounds seed run n text with
      | error e =>
          rw [hcampaign] at h
          cases h
      | ok tested =>
          obtain ⟨result, images⟩ := tested
          rw [hcampaign] at h
          change Except.map _ (forM result.findings fun f =>
            host.packaged n (outDir run f)) = _ at h
          cases hwritten : forM result.findings fun f => host.packaged n (outDir run f) with
          | error e =>
              rw [hwritten] at h
              cases h
          | ok u =>
              rw [hwritten] at h
              obtain rfl := Except.ok.inj h
              obtain ⟨trace, points, states, hread, hstates, htested, rfl, rfl⟩ :=
                exists_of_rowCampaign hcampaign
              exact ⟨trace, points, states, ⟨hfirst ▸ htext, hread, hstates⟩,
                ⟨htested, forM_ok_iff.mp hwritten⟩, rfl, rfl, rfl⟩

/-- A row only fails with its shape, or where one of its steps throws. -/
lemma exists_plainRow (hrun : run ∈ sweepPlan)
    (htests : RowTests host bounds seed run text trace points states)
    (hsteps : Undisturbed host (run, n) trace states) :
    ∃ row, plainRow host bounds seed sweepPlan (run, n) = .ok row := by
  have hcampaign := (@rowCampaign_ok_iff host bounds seed run n points text trace states _ _
    htests.read htests.tested).mpr ⟨hsteps.tested, rfl, rfl⟩
  have htext := htests.captured
  rw [← (firstRow_sweepPlan run hrun).2] at htext
  have hwritten := forM_ok_iff.mpr hsteps.packaged
  rw [plainRow_eq htext, hcampaign]
  exact ⟨_, congrArg (Except.map _) hwritten⟩

/-- What a sweep leaves: the rows of the plain loop, and artifacts of theirs. -/
lemma sweep_ok {st : SweepState} (h : sweep host bounds seed = .ok st) :
    ∃ rows, List.Forall₂
        (fun entry row => plainRow host bounds seed sweepPlan entry = .ok row)
        sweepPlan.zipIdx rows ∧ Swept host sweepPlan sweepPlan.length rows st := by
  rcases sweepOver_spec host bounds seed sweepPlan with
    ⟨e, hsweep, -⟩ | ⟨st', rows, hsweep, hplain, hswept⟩
  · rw [sweep, hsweep] at h
    cases h
  · rw [sweep, hsweep] at h
    obtain rfl := Except.ok.inj h
    exact ⟨rows, forall₂_of_mapM_ok hplain, hswept⟩

/-- A sweep ends if each workload does, its trace is read and no step of a row throws. -/
lemma exists_sweep (h : ∀ shape ∈ SHAPES, ∃ text trace,
      captureTrace host (SHAPES.idxOf shape) shape = .ok text ∧
        parseTrace readLine text = .ok trace)
    (hsteps : ∀ entry ∈ sweepPlan.zipIdx, ∀ text trace points states,
      RowTests host bounds seed entry.1 text trace points states →
        Undisturbed host entry trace states) :
    ∃ st, sweep host bounds seed = .ok st := by
  rcases sweepOver_spec host bounds seed sweepPlan with ⟨e, -, hplain⟩ | ⟨st, rows, hsweep, -⟩
  · obtain ⟨⟨run, n⟩, hmem, e', herror⟩ := exists_of_mapM_error hplain
    have hrun : run ∈ sweepPlan := List.mem_of_getElem? (List.mem_zipIdx_iff_getElem?.mp hmem)
    obtain ⟨text, trace, htext, hread⟩ := h run.shape (firstRow_sweepPlan run hrun).1
    have htests : RowTests host bounds seed run text trace _ _ :=
      ⟨htext, hread, statesToTest_eq trace (host.options seed run) bounds⟩
    obtain ⟨row, hrow⟩ := exists_plainRow hrun htests (hsteps _ hmem _ _ _ _ htests)
    rw [hrow] at herror
    cases herror
  · exact ⟨st, hsweep⟩

end CrashFuzz
