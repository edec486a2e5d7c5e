import CrashFuzz.Campaign.Sweep

/-!
The sweep on its host: the loop of `core/tools/campaign-run.ts` with the commands
that its campaigns issue.

* `hostRow`, `hostSweep`: the campaign of a row and the loop, as scripts.
* `hostRow_ends`: the campaign of a row does what `rowCampaign` does.
* `hostSweepRow_ends`: a round of the loop does what `sweepRow` does, and `Looped.next`: what
  the rounds so far came to goes on with it.
* `hostSweep_refines`: the loop comes to what `sweep` does, for what testing each state of
  each row came to.
-/

namespace CrashFuzz

open PosixPath Effects Image

section Driver

variable {Fs : Type} (env : Environment) (target : SweepRun → Trace → Target Fs)
  (host : SweepHost) (bounds : LoadedBounds) (seed : ℚ)

/-- `runCampaign` in a row. -/
def hostRow (run : SweepRun) (index : ℕ) (text : String) : Script Fs CampaignResult := do
  let trace ← MonadExcept.ofExcept (parseTrace readLine text)
  let selected ← MonadExcept.ofExcept (statesToTest trace (host.options seed run) bounds)
  let tested ← hostCampaign env (target run trace) ⟨run.config.filesystem, run.config.mountOptions⟩
    (host.campaign run index trace) selected.2
  return ⟨selected.1, tested.statesTested, tested.findings.values⟩

/-- The body of the loop of `main`. -/
def hostSweepRow (st : SweepState) (entry : SweepRun × ℕ) : Script Fs SweepState := do
  let (run, index) := entry
  let traces ← MonadExcept.ofExcept (withTrace host st.traces index run.shape)
  match traces.get? run.shape with
  | none => throw .typeError
  | some text => do
      let result ← hostRow env target host bounds seed run index text
      let after ← get
      let artifacts ← MonadExcept.ofExcept (result.findings.foldlM
        (package host run index text fun l => (after.images l).isSome) st.artifacts)
      return ⟨traces, st.rows ++ [run.row result], artifacts⟩

/-- The loop of `main`. -/
def hostSweep : Script Fs SweepState :=
  sweepPlan.zipIdx.foldlM (hostSweepRow env target host bounds seed) ⟨.empty, [], .empty⟩

end Driver

/-- A host where testing the states comes to this. -/
def SweepHost.testing (host : SweepHost) (tested : ℕ → ℕ → Except Thrown RecoveryResult) :
    SweepHost :=
  { host with tested := tested }

variable {Fs : Type} {env : Environment} {target : SweepRun → Trace → Target Fs}
  {host : SweepHost} {bounds : LoadedBounds} {seed : ℚ} {run : SweepRun} {n : ℕ} {text : String}
  {h : Host Fs} {st : SweepState} {tested tested' : ℕ → ℕ → Except Thrown RecoveryResult}

/-! ### A row -/

/-- What testing the states of a row came to is what recoveries reported of what their
replays left, or an error. -/
def Observed (target : SweepRun → Trace → Target Fs) (host : SweepHost) (bounds : LoadedBounds)
    (seed : ℚ) (run : SweepRun) (text : String) (tested : ℕ → Except Thrown RecoveryResult) :
    Prop :=
  ∀ trace points states, parseTrace readLine text = .ok trace →
    statesToTest trace (host.options seed run) bounds = .ok (points, states) →
      ∀ i state recovery, states[i]? = some state → tested i = .ok recovery →
        ∃ fs, Recovered (target run trace) state recovery fs

/-- **The campaign of a row** does what `rowCampaign` does, and the images are there. -/
lemma hostRow_ends : Ends (hostRow env target host bounds seed run n text) h fun r g =>
    ∃ tested, Observed target host bounds seed run text tested ∧
      Then
        (fun result g => ∃ images,
          rowCampaign (host.testing fun _ => tested) bounds seed run n text =
            .ok (result, images) ∧ ∀ l ∈ images, (g.images l).isSome)
        (fun e _ => rowCampaign (host.testing fun _ => tested) bounds seed run n text = .error e)
        r g := by
  refine ends_bind.mpr (ends_ofExcept.mpr ?_)
  cases hread : parseTrace readLine text with
  | error e =>
      refine ⟨fun _ => .error e, fun trace points states hok => ?_, ?_⟩
      · cases hread.symm.trans hok
      · rw [then_error, rowCampaign, hread]
        rfl
  | ok trace =>
      refine then_ok.mpr (ends_bind.mpr (ends_ofExcept.mpr ?_))
      obtain ⟨points, states, hstates⟩ : ∃ points states,
          statesToTest trace (host.options seed run) bounds = .ok (points, states) :=
        ⟨_, _, statesToTest_eq trace _ _⟩
      rw [hstates, then_ok]
      refine ends_bind.mpr ((hostCampaign_tried env _ _ _ _ h).imp fun r g hr => ?_)
      obtain ⟨tested, hobserved, htried⟩ := hr
      have hrow := @rowCampaign_eq (host.testing fun _ => tested) bounds seed run n points text
        trace states hread hstates
      have hsees : Observed target host bounds seed run text tested := by
        rintro trace' points' states' hread' hstates'
        obtain rfl := Except.ok.inj (hread.symm.trans hread')
        obtain ⟨rfl, rfl⟩ := Prod.mk.inj (Except.ok.inj (hstates.symm.trans hstates'))
        exact hobserved
      cases r with
      | ok run' =>
          obtain ⟨run'', hrun, hfindings, htested, himages⟩ := htried
          refine then_ok.mpr (ends_pure.mpr ⟨tested, hsees, run''.images, ?_, himages⟩)
          rw [hrow, hfindings, htested]
          exact congrArg (Except.map _) hrun
      | error e => exact ⟨tested, hsees, hrow.trans (congrArg (Except.map _) htried)⟩

/-! ### The loop -/

/-- A pair of a list with its positions has the position between those before it and
those after it. -/
lemma zipIdx_split {α : Type} {l : List α} {done rest : List (α × ℕ)} {a : α} {i : ℕ}
    (h : l.zipIdx = done ++ (a, i) :: rest) :
    done.length = i ∧ l[i]? = some a ∧ (∀ entry ∈ done, entry.2 < i) ∧
      ∀ entry ∈ rest, i < entry.2 := by
  have hat : ∀ (m : ℕ) (entry : α × ℕ), (done ++ (a, i) :: rest)[m]? = some entry →
      entry.2 = m ∧ l[m]? = some entry.1 := by
    intro m entry hentry
    rw [← h, List.getElem?_zipIdx, Option.map_eq_some_iff] at hentry
    obtain ⟨b, hb, rfl⟩ := hentry
    exact ⟨Nat.zero_add m, hb⟩
  obtain ⟨rfl, hrun⟩ := hat done.length (a, i) (by simp)
  refine ⟨rfl, hrun, fun entry hentry => ?_, fun entry hentry => ?_⟩
  · obtain ⟨m, hm⟩ := List.mem_iff_getElem?.mp hentry
    have hlt := (List.getElem?_eq_some_iff.mp hm).1
    rw [(hat m entry (by rw [List.getElem?_append_left hlt, hm])).1]
    exact hlt
  · obtain ⟨m, hm⟩ := List.mem_iff_getElem?.mp hentry
    have hat' : (done ++ (a, done.length) :: rest)[done.length + (m + 1)]? = some entry := by
      rw [List.getElem?_append_right (Nat.le_add_right _ _), Nat.add_sub_cancel_left]
      exact hm
    rw [(hat _ entry hat').1]
    omega

/-- Packaging only asks whether the images of the findings are there. -/
lemma package_congr {isThere isThere' : List Chars → Bool} {findings : List Finding}
    (h : ∀ f ∈ findings, isThere (resolve host.cwd f.imagePath) =
      isThere' (resolve host.cwd f.imagePath)) (artifacts : OrderedMap (List Chars) Artifact) :
    findings.foldlM (package host run n text isThere) artifacts =
      findings.foldlM (package host run n text isThere') artifacts := by
  induction findings generalizing artifacts with
  | nil => rfl
  | cons f findings ih =>
      have hone : package host run n text isThere artifacts f =
          package host run n text isThere' artifacts f := by
        rw [package, package, writeReproducer, writeReproducer, h f List.mem_cons_self]
      rw [List.foldlM_cons, List.foldlM_cons, hone]
      cases package host run n text isThere' artifacts f with
      | error e => rfl
      | ok artifacts' => exact ih (fun f hf => h f (List.mem_cons_of_mem _ hf)) artifacts'

/-- A row depends on what testing its own states comes to. -/
lemma sweepRow_congr (h : tested n = tested' n) (st : SweepState) :
    sweepRow (host.testing tested) bounds seed st (run, n) =
      sweepRow (host.testing tested') bounds seed st (run, n) := by
  simp only [sweepRow, rowCampaign, SweepHost.testing, h]
  rfl

/-- Rows depend on what testing their states comes to. -/
lemma sweepRow_foldlM_congr {entries : List (SweepRun × ℕ)}
    (h : ∀ entry ∈ entries, tested entry.2 = tested' entry.2) (st : SweepState) :
    entries.foldlM (sweepRow (host.testing tested) bounds seed) st =
      entries.foldlM (sweepRow (host.testing tested') bounds seed) st := by
  induction entries generalizing st with
  | nil => rfl
  | cons entry entries ih =>
      have hone := @sweepRow_congr host bounds seed entry.1 entry.2 tested tested'
        (h entry List.mem_cons_self) st
      rw [List.foldlM_cons, List.foldlM_cons, hone]
      cases sweepRow (host.testing tested') bounds seed st entry with
      | error e => rfl
      | ok st' => exact ih (fun entry hentry => h entry (List.mem_cons_of_mem _ hentry)) st'

/-- What testing the states of a row came to, on the trace of its shape. -/
def Watched (target : SweepRun → Trace → Target Fs) (host : SweepHost) (bounds : LoadedBounds)
    (seed : ℚ) (entry : SweepRun × ℕ) (tested : ℕ → Except Thrown RecoveryResult) : Prop :=
  ∀ text, captureTrace host (firstRow sweepPlan entry.1.shape) entry.1.shape = .ok text →
    Observed target host bounds seed entry.1 text tested

lemma Watched.recovered {entry : SweepRun × ℕ} {t : ℕ → Except Thrown RecoveryResult}
    {trace : Trace} {points : ℕ} {states : List CrashState}
    (h : Watched target host bounds seed entry t) (hentry : entry ∈ sweepPlan.zipIdx)
    (htests : RowTests host bounds seed entry.1 text trace points states) {i : ℕ}
    {state : CrashState} {recovery : RecoveryResult} (hstate : states[i]? = some state)
    (htested : t i = .ok recovery) : ∃ fs, Recovered (target entry.1 trace) state recovery fs := by
  have hrun := List.mem_of_getElem? (List.mem_zipIdx_iff_getElem?.mp hentry)
  have htext := htests.captured
  rw [← (firstRow_sweepPlan _ hrun).2] at htext
  exact h text htext trace points states htests.read htests.tested i state recovery hstate htested

/-- **A round of the loop** does what `sweepRow` does. -/
lemma hostSweepRow_ends (hcached : Cached host sweepPlan n st.traces)
    (hrun : sweepPlan[n]? = some run) :
    Ends (hostSweepRow env target host bounds seed st (run, n)) h fun r _ => ∃ tested,
      Watched target host bounds seed (run, n) tested ∧
      r = sweepRow (host.testing fun _ => tested) bounds seed st (run, n) ∧
      ∀ st', r = .ok st' → Cached host sweepPlan (n + 1) st'.traces := by
  refine ends_bind.mpr (ends_ofExcept.mpr ?_)
  rcases hcached.step hrun with
    ⟨e, htraces, htext⟩ | ⟨traces, text, htraces, htext, hget, hnext⟩
  · rw [htraces, then_error]
    refine ⟨fun _ => .error e, fun text hok => ?_, ?_, fun st' hok => by cases hok⟩
    · cases htext.symm.trans hok
    · exact (@sweepRow_of_error (host.testing fun _ _ => .error e) bounds seed run n st e
        htraces).symm
  · rw [htraces, then_ok]
    have hsees : ∀ {tested}, Observed target host bounds seed run text tested →
        Watched target host bounds seed (run, n) tested := by
      intro tested htested text' htext'
      obtain rfl := Except.ok.inj (htext.symm.trans htext')
      exact htested
    simp only [hget]
    refine ends_bind.mpr (hostRow_ends.imp fun r g hr => ?_)
    obtain ⟨tested, hobserved, hrow⟩ := hr
    -- the row of `sweep`, where testing the states comes to this
    have hround := @sweepRow_eq (host.testing fun _ => tested) bounds seed run n text traces st
      htraces hget
    cases r with
    | error e =>
        refine ⟨tested, hsees hobserved, ?_, fun st' hok => by cases hok⟩
        rw [hround, then_error.mp hrow]
        rfl
    | ok result =>
        obtain ⟨images, hcampaign, himages⟩ := hrow
        have hget' : (get : Script Fs (Host Fs)) g = .ok g g := rfl
        refine then_ok.mpr (ends_bind.mpr ((ends_of_ok hget').mpr (then_ok.mpr ?_)))
        refine ends_bind.mpr (ends_ofExcept.mpr ?_)
        -- both ask for the images of findings only, which are there
        have hthere : ∀ f ∈ result.findings, (g.images (resolve host.cwd f.imagePath)).isSome =
            decide (resolve host.cwd f.imagePath ∈ images) := by
          intro f hf
          have hmem : resolve host.cwd f.imagePath ∈ images :=
            @mem_images_of_rowCampaign (host.testing fun _ => tested) _ _ _ _ _ _ _ _ hcampaign hf
          rw [decide_eq_true hmem]
          exact himages _ hmem
        rw [@package_congr host run n text (fun l => (g.images l).isSome) (· ∈ images) _ hthere]
        rw [hcampaign] at hround
        change sweepRow _ bounds seed st (run, n) = Except.map _
          (result.findings.foldlM (package host run n text (· ∈ images)) st.artifacts) at hround
        cases hfold : result.findings.foldlM (package host run n text (· ∈ images))
            st.artifacts with
        | error e =>
            rw [hfold] at hround
            exact ⟨tested, hsees hobserved, hround.symm, fun st' hok => by cases hok⟩
        | ok artifacts =>
            rw [hfold] at hround
            refine then_ok.mpr (ends_pure.mpr ⟨tested, hsees hobserved, hround.symm, ?_⟩)
            intro st' hok
            cases hok
            exact hnext

/-- What testing the states of these rows came to, and what the loop over them did then. -/
structure Looped (target : SweepRun → Trace → Target Fs) (host : SweepHost)
    (bounds : LoadedBounds) (seed : ℚ) (done : List (SweepRun × ℕ))
    (tested : ℕ → ℕ → Except Thrown RecoveryResult) (r : Except Thrown SweepState) : Prop where
  watched : ∀ entry ∈ done, Watched target host bounds seed entry (tested entry.2)
  looped : done.foldlM (sweepRow (host.testing tested) bounds seed) ⟨.empty, [], .empty⟩ = r

/-- The loop goes on with a row after those before, and has reached none after it. -/
lemma Looped.next {done : List (SweepRun × ℕ)} {here : ℕ → Except Thrown RecoveryResult}
    (h : Looped target host bounds seed done tested (.ok st))
    (hbefore : ∀ entry ∈ done, entry.2 < n)
    (hsees : Watched target host bounds seed (run, n) here) :
    ∃ next, Looped target host bounds seed (done ++ [(run, n)]) next
        (sweepRow (host.testing fun _ => here) bounds seed st (run, n)) ∧
      ∀ m, n < m → next m = fun _ => .error .typeError := by
  let next : ℕ → ℕ → Except Thrown RecoveryResult := fun m =>
    if m < n then tested m else if m = n then here else fun _ => .error .typeError
  have hold : ∀ entry ∈ done, tested entry.2 = next entry.2 := fun entry hentry =>
    (if_pos (hbefore entry hentry)).symm
  have hhere : next n = here := (if_neg (lt_irrefl n)).trans (if_pos rfl)
  refine ⟨next, ⟨fun entry hentry => ?_, ?_⟩, fun m hm => ?_⟩
  · rcases List.mem_append.mp hentry with hmem | hmem
    · rw [← hold entry hmem]
      exact h.watched entry hmem
    · obtain rfl := List.mem_singleton.mp hmem
      rwa [hhere]
  · have hone := @sweepRow_congr host bounds seed run n next (fun _ => here) hhere st
    rw [List.foldlM_append, ← sweepRow_foldlM_congr hold, h.looped, ← hone]
    change (sweepRow (host.testing next) bounds seed st (run, n)).bind .ok = _
    cases sweepRow (host.testing next) bounds seed st (run, n) <;> rfl
  · exact (if_neg (not_lt.mpr hm.le)).trans (if_neg hm.ne')

/-- Rows that were not reached were not tested. -/
lemma Looped.watched_all {done rest : List (SweepRun × ℕ)} {r : Except Thrown SweepState}
    (h : Looped target host bounds seed done tested r)
    (hrest : ∀ entry ∈ rest, tested entry.2 = fun _ => .error .typeError) :
    ∀ entry ∈ done ++ rest, Watched target host bounds seed entry (tested entry.2) := by
  intro entry hentry
  rcases List.mem_append.mp hentry with hmem | hmem
  · exact h.watched entry hmem
  · rw [hrest entry hmem]
    rintro text - trace points states - - i state recovery - hok
    cases hok

/-- **A sweep on its host comes to what `sweep` does**, for what testing each state of each
row came to: what a recovery reported of what the replay of that state left, or an error
of a command, a call, the replay or the recovery. -/
theorem hostSweep_refines (env : Environment) (target : SweepRun → Trace → Target Fs)
    (host : SweepHost) (bounds : LoadedBounds) (seed : ℚ) (h : Host Fs) :
    Ends (hostSweep env target host bounds seed) h fun r _ => ∃ tested,
      (∀ entry ∈ sweepPlan.zipIdx, ∀ text trace points states,
        RowTests host bounds seed entry.1 text trace points states →
          ∀ i state recovery, states[i]? = some state → tested entry.2 i = .ok recovery →
            ∃ fs, Recovered (target entry.1 trace) state recovery fs) ∧
      r = sweep (host.testing tested) bounds seed := by
  have hfirst : Cached host sweepPlan 0 .empty :=
    ⟨fun _ hlt => absurd hlt (Nat.not_lt_zero _), fun _ _ => rfl⟩
  refine ends_foldlM (I := fun done st _ => ∃ tested,
    Looped target host bounds seed done tested (.ok st) ∧
      Cached host sweepPlan done.length st.traces) ?_ ?_ ?_
  · exact ⟨fun _ _ => .error .typeError, ⟨List.forall_mem_nil _, rfl⟩, hfirst⟩
  · rintro done ⟨run, n⟩ rest hsplit st g ⟨tested, hlooped, hcached⟩
    obtain ⟨rfl, hrun, hbefore, hlater⟩ := zipIdx_split hsplit
    refine (hostSweepRow_ends hcached hrun).imp fun r g' hr => ?_
    obtain ⟨here, hsees, rfl, hnext⟩ := hr
    obtain ⟨next, hlooped', hafter⟩ := hlooped.next hbefore hsees
    cases hround : sweepRow (host.testing fun _ => here) bounds seed st (run, done.length) with
    | ok st' =>
        refine ⟨next, hround ▸ hlooped', ?_⟩
        rw [List.length_append]
        exact hnext st' hround
    | error e =>
        rw [hround] at hlooped'
        have hall := hlooped'.watched_all fun entry hentry => hafter _ (hlater entry hentry)
        rw [← List.append_cons, ← hsplit] at hall
        refine ⟨next, fun entry hentry text trace points states htests i state recovery => ?_, ?_⟩
        · exact (hall entry hentry).recovered hentry htests
        · rw [sweep, sweepOver, hsplit, List.append_cons, List.foldlM_append, hlooped'.looped]
          rfl
  · rintro st g ⟨tested, hlooped, -⟩
    refine ⟨tested, fun entry hentry text trace points states htests => ?_, hlooped.looped.symm⟩
    exact fun i state recovery => (hlooped.watched entry hentry).recovered hentry htests

end CrashFuzz
