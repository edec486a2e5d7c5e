import CrashFuzz.Campaign.Campaign
import CrashFuzz.Image.Mount

/-!
The campaign on its host: the loop of `runCampaign` with the commands that make,
mount and remove the images (`materializeState` and `withMount` of
`core/src/image/image.ts`).

* `Target`: what a fresh filesystem holds, what a replay and a recovery make of one.
* `hostState`, `hostCampaign`: the loop, in which any command or call may fail.
* `After`: a campaign that has done some states, which each round carries on
  (`After.step`).
* `hostCampaign_refines`: one that returns has the findings of `Campaign.run` on
  what each recovery made of the state it was given, keeps just its images and
  leaves nothing else. One that throws leaves at most one device, one mount and
  one mount point.
* `Campaign.tryRun`: the loop where testing a state may throw, and
  `hostCampaign_tried`: that is what the one on its host comes to.
-/

namespace CrashFuzz

open PosixPath Effects Image

/-- `IMAGE_BYTES`. -/
def imageBytes : ℕ := 512 * 1024 * 1024

/-- What the commands of a campaign make of a filesystem. -/
structure Target (Fs : Type) where
  /-- What `mkfs` makes. -/
  fresh : Fs
  /-- What a removal leaves of a filesystem that is still mounted. -/
  emptied : Fs → Fs
  /-- `replaySelection` of a state, on what is mounted at a directory. -/
  replay : CrashState → Chars → EStateM Thrown Fs Unit
  /-- `options.recover`. -/
  recover : Chars → EStateM Thrown Fs RecoveryResult

/-- A campaign whose recoveries report this. -/
def Campaign.reporting (c : Campaign) (recovery : ℕ → RecoveryResult) : Campaign :=
  { c with recovery := recovery }

/-- What the loop of `runCampaign` keeps in memory. -/
structure HostedRun where
  findings : OrderedMap String Finding
  statesTested : ℕ

/-- How a campaign mounts. -/
structure MountedAs where
  filesystem : Filesystem
  mountOptions : Option String

section Loop

variable {Fs : Type} (env : Environment) (target : Target Fs) (mounted : MountedAs) (c : Campaign)

/-- `materializeState`. -/
def materializeState (state : CrashState) (imagePath : Chars) : Script Fs Unit := do
  createImage env target.fresh c.cwd imagePath mounted.filesystem imageBytes
  withMount env target.emptied c.cwd imagePath (target.replay state) mounted.mountOptions

/-- The body of the loop of `runCampaign`. -/
def hostState (run : HostedRun) (entry : CrashState × ℕ) : Script Fs HostedRun := do
  let (state, index) := entry
  let imagePath := c.imagePath index
  materializeState env target mounted c state imagePath
  let recovery ← withMount env target.emptied c.cwd imagePath target.recover mounted.mountOptions
  let violations := (c.reporting fun _ => recovery).violations index state
  let findings := (violations.map (c.finding index state)).foldl Campaign.note run.findings
  let isEvidence := findings.values.any (·.imagePath = imagePath)
  unless isEvidence do
    call env (.rm imagePath) (·.setImage (c.location imagePath) none)
  return { findings := findings, statesTested := run.statesTested + 1 }

/-- The loop of `runCampaign`. -/
def hostCampaign (states : List CrashState) : Script Fs HostedRun :=
  states.zipIdx.foldlM (hostState env target mounted c) ⟨.empty, 0⟩

end Loop

variable {Fs : Type} {env : Environment} {target : Target Fs} {mounted : MountedAs} {c : Campaign}
  {h g : Host Fs} {state : CrashState} {states : List CrashState}

/-! ### One state -/

/-- The image of a state, after its recovery reported `r` and left `fs`. -/
def Recovered (target : Target Fs) (state : CrashState) (r : RecoveryResult) (fs : Fs) : Prop :=
  ∃ dir dir' replayed, target.replay state dir target.fresh = .ok () replayed ∧
    target.recover dir' replayed = .ok r fs

lemma Image.Same.trans {f : Host Fs} (hg : Same h g) (hf : Same g f) : Same h f :=
  ⟨hf.devices.trans hg.devices, hf.mounts.trans hg.mounts, hf.dirs.trans hg.dirs⟩

lemma Image.Leftover.of_same {f : Host Fs} (hg : Same h g) (hf : Leftover env g f) :
    Leftover env h f := by
  obtain ⟨hdevices, hmounts, hdirs, hcleaned⟩ := hf
  rw [hg.devices] at hdevices hcleaned
  rw [hg.mounts] at hmounts hcleaned
  rw [hg.dirs] at hdirs
  exact ⟨hdevices, hmounts, hdirs, hcleaned⟩

/-- Making an image leaves nothing else. -/
lemma createImage_ends {imagePath : Chars} {filesystem : Filesystem} {sizeBytes : ℕ} :
    Ends (createImage env target.fresh c.cwd imagePath filesystem sizeBytes) h fun r g =>
      Same h g ∧ (∀ l ≠ c.location imagePath, g.images l = h.images l) ∧
        (r = .ok () → g.images (c.location imagePath) = some (some target.fresh)) := by
  have herror : ∀ {g : Host Fs} (e : Thrown), Same h g →
      (∀ l ≠ c.location imagePath, g.images l = h.images l) →
      Same h g ∧ (∀ l ≠ c.location imagePath, g.images l = h.images l) ∧
        ((.error e : Except Thrown Unit) = .ok () →
          g.images (c.location imagePath) = some (some target.fresh)) :=
    fun e hsame hothers => ⟨hsame, hothers, fun he => by cases he⟩
  have hset : ∀ {file : Option (Option Fs)}, ∀ l ≠ c.location imagePath,
      Function.update h.images (c.location imagePath) file l = h.images l := fun l hl =>
    Function.update_of_ne hl _ _
  refine ends_bind.mpr (ends_call.mpr ⟨fun e _ => herror e ⟨rfl, rfl, rfl⟩ fun _ _ => rfl,
    fun _ => then_ok.mpr ?_⟩)
  refine ends_bind.mpr (ends_call.mpr ⟨fun e _ => herror e ⟨rfl, rfl, rfl⟩ fun _ _ => rfl,
    fun _ => then_ok.mpr ?_⟩)
  refine ends_bind.mpr (ends_call.mpr ⟨fun e _ => herror e ⟨rfl, rfl, rfl⟩ hset,
    fun _ => then_ok.mpr ?_⟩)
  refine ends_run.mpr ⟨fun failure _ => herror _ ⟨rfl, rfl, rfl⟩ hset, fun _ => ?_⟩
  refine ⟨⟨rfl, rfl, rfl⟩, fun l hl => ?_, fun _ => Function.update_self _ _ _⟩
  exact (Function.update_of_ne hl _ _).trans (hset l hl)

/-- How the images of a state end, and what is left of the host. -/
structure StateEnds (env : Environment) (location : List Chars) (h : Host Fs)
    (r : Except Thrown HostedRun) (g : Host Fs) : Prop where
  leftover : Leftover env h g
  others : ∀ l ≠ location, g.images l = h.images l
  same : ∀ run, r = .ok run → Same h g

/-- What a round of the loop makes of the findings. -/
def HostedRun.note (c : Campaign) (run : HostedRun) (state : CrashState) (index : ℕ)
    (recovery : RecoveryResult) : HostedRun where
  findings := (((c.reporting fun _ => recovery).violations index state).map
    (c.finding index state)).foldl Campaign.note run.findings
  statesTested := run.statesTested + 1

/-- `isEvidence`. -/
def HostedRun.isEvidence (c : Campaign) (run : HostedRun) (index : ℕ) : Bool :=
  run.findings.values.any (·.imagePath = c.imagePath index)

/-- What a round that returned made of the findings and of its image. -/
def RoundEnds (target : Target Fs) (c : Campaign) (run : HostedRun) (state : CrashState) (index : ℕ)
    (run' : HostedRun) (g : Host Fs) : Prop :=
  ∃ recovery fs, Recovered target state recovery fs ∧ run' = run.note c state index recovery ∧
    g.images (c.location (c.imagePath index)) =
      if run'.isEvidence c index then some (some fs) else none

/-- The end of a round: the image is removed unless it is evidence. -/
lemma evidence_ends (env : Environment) (run : HostedRun) {index : ℕ} {fs : Fs} (hsame : Same h g)
    (hothers : ∀ l ≠ c.location (c.imagePath index), g.images l = h.images l)
    (himage : g.images (c.location (c.imagePath index)) = some (some fs)) :
    Ends (do
        unless run.isEvidence c index do
          call env (.rm (c.imagePath index)) (·.setImage (c.location (c.imagePath index)) none)
        return run) g fun r g' =>
      StateEnds env (c.location (c.imagePath index)) h r g' ∧ ∀ run', r = .ok run' → run' = run ∧
        g'.images (c.location (c.imagePath index)) =
          if run.isEvidence c index then some (some fs) else none := by
  cases hevidence : run.isEvidence c index with
  | true =>
      rw [if_pos rfl]
      refine ends_pure.mpr ⟨⟨hsame.leftover, hothers, fun _ _ => hsame⟩, fun run' hrun' => ?_⟩
      cases hrun'
      exact ⟨rfl, himage⟩
  | false =>
      rw [if_neg (by decide)]
      refine ends_bind.mpr (ends_call.mpr ⟨fun e _ => ?_, fun _ => then_ok.mpr (ends_pure.mpr ?_)⟩)
      · have hticked : Same h g.tick := ⟨hsame.devices, hsame.mounts, hsame.dirs⟩
        exact ⟨⟨hticked.leftover, hothers, fun _ he => by cases he⟩, fun _ he => by cases he⟩
      · have hremoved : Same h (g.tick.setImage (c.location (c.imagePath index)) none) :=
          ⟨hsame.devices, hsame.mounts, hsame.dirs⟩
        refine ⟨⟨hremoved.leftover, fun l hl => ?_, fun _ _ => hremoved⟩, fun run' hrun' => ?_⟩
        · exact (Function.update_of_ne hl _ _).trans (hothers l hl)
        · cases hrun'
          exact ⟨rfl, Function.update_self _ _ _⟩

/-- **A round of the loop.** -/
lemma hostState_ends (run : HostedRun) (index : ℕ) :
    Ends (hostState env target mounted c run (state, index)) h fun r g =>
      StateEnds env (c.location (c.imagePath index)) h r g ∧
        ∀ run', r = .ok run' → RoundEnds target c run state index run' g := by
  have herror : ∀ {g : Host Fs} (e : Thrown), Leftover env h g →
      (∀ l ≠ c.location (c.imagePath index), g.images l = h.images l) →
      StateEnds env (c.location (c.imagePath index)) h (.error e) g ∧
        ∀ run', (.error e : Except Thrown HostedRun) = .ok run' →
          RoundEnds target c run state index run' g :=
    fun e hleft hothers => ⟨⟨hleft, hothers, fun _ he => by cases he⟩, fun _ he => by cases he⟩
  refine ends_bind.mpr (ends_bind.mpr (createImage_ends.imp fun r g₁ h₁ => ?_))
  obtain ⟨hsame₁, hothers₁, hfresh⟩ := h₁
  cases r with
  | error e => exact herror e hsame₁.leftover hothers₁
  | ok u =>
      refine then_ok.mpr ((withMount_ends env target.emptied c.cwd (c.imagePath index)
        (target.replay state) mounted.mountOptions g₁).imp fun r g₂ h₂ => ?_)
      have hothers₂ : ∀ l ≠ c.location (c.imagePath index), g₂.images l = h.images l :=
        fun l hl => (h₂.others l hl).trans (hothers₁ l hl)
      cases r with
      | error e => exact herror e (.of_same hsame₁ h₂.leftover) hothers₂
      | ok u =>
          obtain ⟨hsame₂, dir, fs, replayed, hfs, hreplay, hreplayed⟩ := h₂.returned u rfl
          obtain rfl : target.fresh = fs := by
            have hfs' := (hfresh rfl).symm.trans hfs
            exact Option.some.inj (Option.some.inj hfs')
          refine then_ok.mpr (ends_bind.mpr ((withMount_ends env target.emptied c.cwd
            (c.imagePath index) target.recover mounted.mountOptions g₂).imp fun r g₃ h₃ => ?_))
          have hsame : Same h g₂ := hsame₁.trans hsame₂
          have hothers₃ : ∀ l ≠ c.location (c.imagePath index), g₃.images l = h.images l :=
            fun l hl => (h₃.others l hl).trans (hothers₂ l hl)
          cases r with
          | error e => exact herror e (.of_same hsame h₃.leftover) hothers₃
          | ok recovery =>
              obtain ⟨hsame₃, dir', fs', fs, hfs', hrecover, hrecovered⟩ := h₃.returned recovery rfl
              obtain rfl : replayed = fs' :=
                Option.some.inj (Option.some.inj (hreplayed.symm.trans hfs'))
              have hend := evidence_ends env (run.note c state index recovery)
                (hsame.trans hsame₃) hothers₃ hrecovered
              refine then_ok.mpr (Ends.imp hend fun r g hg => ⟨hg.1, fun run' hr => ?_⟩)
              obtain ⟨rfl, himage⟩ := hg.2 run' hr
              exact ⟨recovery, fs, ⟨dir, dir', _, hreplay, hrecover⟩, rfl, himage⟩

/-! ### All states -/

namespace Campaign

@[simp] lemma imagePath_reporting (recovery : ℕ → RecoveryResult) :
    (c.reporting recovery).imagePath = c.imagePath := rfl

@[simp] lemma location_reporting (recovery : ℕ → RecoveryResult) :
    (c.reporting recovery).location = c.location := rfl

lemma testState_congr {recovery recovery' : ℕ → RecoveryResult} {index : ℕ}
    (h : recovery index = recovery' index) (run : CampaignRun) (state : CrashState) :
    (c.reporting recovery).testState run (state, index) =
      (c.reporting recovery').testState run (state, index) := by
  simp only [testState, violations, reporting, h]
  rfl

/-- A run depends on the recoveries of its states only. -/
lemma run_congr {recovery recovery' : ℕ → RecoveryResult}
    (h : ∀ i < states.length, recovery i = recovery' i) :
    (c.reporting recovery).run states = (c.reporting recovery').run states := by
  refine List.foldl_ext _ _ _ fun before entry hentry => ?_
  obtain ⟨-, hlt, -⟩ := List.mem_zipIdx (x := entry.1) (i := entry.2) hentry
  exact testState_congr (h _ (by simpa using hlt)) before entry.1

lemma run_append_singleton (state : CrashState) :
    c.run (states ++ [state]) = c.testState (c.run states) (state, states.length) := by
  rw [run, run, List.zipIdx_append, List.foldl_append, Nat.zero_add]
  rfl

/-- A state leaves the other images alone. -/
lemma mem_images_testState_iff {before : CampaignRun} {n : ℕ} {l : List Chars}
    (hl : l ≠ c.location (c.imagePath n)) :
    l ∈ (c.testState before (state, n)).images ↔ l ∈ before.images := by
  rw [testState]
  split <;> simp [hl]

/-- Its own is there if it is evidence. -/
lemma mem_images_testState {before : CampaignRun} {n : ℕ} :
    c.location (c.imagePath n) ∈ (c.testState before (state, n)).images ↔
      (c.testState before (state, n)).findings.values.any (·.imagePath = c.imagePath n) = true := by
  rw [testState]
  split <;> simp_all

end Campaign

/-- A campaign after some states, where their recoveries reported `recovery` and
left `contents`: its findings are those of `Campaign.run`, and so are its images. -/
structure After (target : Target Fs) (c : Campaign) (h : Host Fs) (states : List CrashState)
    (recovery : ℕ → RecoveryResult) (contents : ℕ → Fs) (run : HostedRun) (g : Host Fs) :
    Prop where
  same : Same h g
  recovered : ∀ i state, states[i]? = some state → Recovered target state (recovery i) (contents i)
  findings : run.findings = ((c.reporting recovery).run states).findings
  tested : run.statesTested = states.length
  images : ∀ i < states.length, g.images (c.location (c.imagePath i)) =
    if c.location (c.imagePath i) ∈ ((c.reporting recovery).run states).images then
      some (some (contents i))
    else none
  others : ∀ l, (∀ i < states.length, l ≠ c.location (c.imagePath i)) → g.images l = h.images l

/-- Before the first state. -/
lemma After.nil (recovery : ℕ → RecoveryResult) (contents : ℕ → Fs) :
    After target c h [] recovery contents ⟨.empty, 0⟩ h where
  same := ⟨rfl, rfl, rfl⟩
  recovered := fun i state hstate => by simp at hstate
  findings := rfl
  tested := rfl
  images := fun i hi => absurd hi (Nat.not_lt_zero i)
  others := fun _ _ => rfl

/-- **One more state.** -/
lemma After.step {recovery : ℕ → RecoveryResult} {contents : ℕ → Fs} {run run' : HostedRun}
    {g' : Host Fs} (hafter : After target c h states recovery contents run g)
    (hend : StateEnds env (c.location (c.imagePath states.length)) g (.ok run') g')
    (htested : RoundEnds target c run state states.length run' g') :
    ∃ recovery' contents', After target c h (states ++ [state]) recovery' contents' run' g' := by
  obtain ⟨r, fs, hrecovered, rfl, himage⟩ := htested
  have hlength : (states ++ [state]).length = states.length + 1 := List.length_append
  have hold : ∀ i < states.length, Function.update recovery states.length r i = recovery i :=
    fun i hi => Function.update_of_ne (Nat.ne_of_lt hi) _ _
  have hrun : (c.reporting (Function.update recovery states.length r)).run (states ++ [state]) =
      (c.reporting (Function.update recovery states.length r)).testState
        ((c.reporting recovery).run states) (state, states.length) := by
    rw [Campaign.run_append_singleton, Campaign.run_congr hold]
  have hfindings : (run.note c state states.length r).findings =
      ((c.reporting (Function.update recovery states.length r)).run
        (states ++ [state])).findings := by
    rw [hrun, HostedRun.note, Campaign.testState, hafter.findings]
    simp only [Campaign.violations, Campaign.reporting, Function.update_self]
    rfl
  refine ⟨_, Function.update contents states.length fs,
    (hafter.same.trans (hend.same _ rfl)), fun i state' hstate' => ?_, hfindings, ?_,
    fun i hi => ?_, fun l hl => ?_⟩
  · rcases Nat.lt_or_ge i states.length with hi | hi
    · rw [List.getElem?_append_left hi] at hstate'
      rw [hold i hi, Function.update_of_ne (Nat.ne_of_lt hi)]
      exact hafter.recovered i state' hstate'
    · obtain rfl : i = states.length := by
        have hlt := (List.getElem?_eq_some_iff.mp hstate').1
        omega
      obtain rfl : state = state' := by simpa using hstate'
      rwa [Function.update_self, Function.update_self]
  · rw [hlength, HostedRun.note, hafter.tested]
  · rcases Nat.lt_or_ge i states.length with hi' | hi'
    · have hne : c.location (c.imagePath i) ≠ c.location (c.imagePath states.length) := fun h =>
        Nat.ne_of_lt hi' (Campaign.location_imagePath_injective h)
      rw [hend.others _ hne, hafter.images i hi', Function.update_of_ne (Nat.ne_of_lt hi'), hrun]
      refine if_congr (Iff.symm ?_) rfl rfl
      exact Campaign.mem_images_testState_iff (c := c.reporting _) hne
    · obtain rfl : i = states.length := by omega
      rw [himage, Function.update_self, HostedRun.isEvidence, hfindings, hrun]
      refine if_congr (Iff.symm ?_) rfl rfl
      exact Campaign.mem_images_testState (c := c.reporting _)
  · rw [hend.others l (hl _ (by omega)), hafter.others l fun i hi => hl i (by omega)]

/-- How a campaign ends: after all its states, or with an error at one of them. -/
def CampaignEnds (env : Environment) (target : Target Fs) (c : Campaign) (h : Host Fs)
    (states : List CrashState) : Except Thrown HostedRun → Host Fs → Prop :=
  Then (fun run g => ∃ recovery contents, After target c h states recovery contents run g)
    fun _ g => Leftover env h g ∧ ∃ n < states.length, ∃ recovery contents run before,
      After target c h (states.take n) recovery contents run before ∧
        ∀ l ≠ c.location (c.imagePath n), g.images l = before.images l

/-- **A campaign on its host is `Campaign.run`.** If it returns, its findings and
the images that are left are those of the run on what each recovery reported of
the state it was given, and nothing else is left. If it throws, so are those of
the states before, and what is left is at most one device, one mount and one
mount point; no device or mount unless a command that cleans up failed. -/
theorem hostCampaign_refines (env : Environment) (target : Target Fs) (mounted : MountedAs)
    (c : Campaign) (states : List CrashState) (h : Host Fs) :
    Ends (hostCampaign env target mounted c states) h (CampaignEnds env target c h states) := by
  refine ends_foldlM (I := fun done run g => ∃ recovery contents,
    After target c h (done.map (·.1)) recovery contents run g) ?_ ?_ ?_
  · exact ⟨fun _ => .failed "", fun _ => target.fresh, .nil _ _⟩
  · rintro done ⟨state, index⟩ rest hsplit run g ⟨recovery, contents, hafter⟩
    -- the states done are those before this one, and its index is their number
    have hstates : states = done.map (·.1) ++ state :: rest.map (·.1) := by
      have hfst := congrArg (List.map (·.1)) hsplit
      simpa using hfst
    have hindex : index = (done.map (·.1)).length := by
      have hat := congrArg (·[done.length]?) hsplit
      simp at hat
      simp [hat]
    subst hindex
    refine (hostState_ends run _).imp fun r g' hr => ?_
    cases r with
    | ok run' =>
        have hdone : (done ++ [(state, (done.map (·.1)).length)]).map (·.1) =
            done.map (·.1) ++ [state] := List.map_append
        have hnext := hafter.step hr.1 (hr.2 run' rfl)
        rw [← hdone] at hnext
        exact hnext
    | error e =>
        have hleft : Leftover env h g' := .of_same hafter.same hr.1.leftover
        have hlt : (done.map (·.1)).length < states.length := by
          rw [hstates, List.length_append, List.length_cons]
          omega
        have hbefore : After target c h (states.take (done.map (·.1)).length) recovery contents
            run g := by
          have htake : states.take (done.map (·.1)).length = done.map (·.1) := by
            rw [hstates, List.take_left]
          rwa [htake]
        exact ⟨hleft, _, hlt, recovery, contents, run, g, hbefore, hr.1.others⟩
  · rintro run g ⟨recovery, contents, hafter⟩
    rw [List.zipIdx_map_fst] at hafter
    exact ⟨recovery, contents, hafter⟩

/-! ### What a campaign comes to -/

/-- What recovery reported, if testing the state did not throw. -/
def reported : Except Thrown RecoveryResult → RecoveryResult
  | .ok recovery => recovery
  | .error _ => .failed ""

namespace Campaign

/-- A round of the loop of `runCampaign`, where testing the state may throw. -/
def tryState (c : Campaign) (tested : ℕ → Except Thrown RecoveryResult) (run : CampaignRun)
    (entry : CrashState × ℕ) : Except Thrown CampaignRun := do
  let recovery ← tested entry.2
  return (c.reporting fun _ => recovery).testState run entry

/-- The loop of `runCampaign`, where testing a state may throw: the commands that make,
mount and remove its image, its replay and its recovery. -/
def tryRun (c : Campaign) (tested : ℕ → Except Thrown RecoveryResult) (states : List CrashState) :
    Except Thrown CampaignRun :=
  states.zipIdx.foldlM (c.tryState tested) ⟨.empty, 0, ∅⟩

variable {tested : ℕ → Except Thrown RecoveryResult} {recovery : ℕ → RecoveryResult}

/-- A round that does not throw. -/
lemma tryState_eq {index : ℕ} (h : tested index = .ok (recovery index)) (run : CampaignRun)
    (state : CrashState) : c.tryState tested run (state, index) =
      .ok ((c.reporting recovery).testState run (state, index)) := by
  have hcongr := @testState_congr c (fun _ => recovery index) recovery index rfl run state
  rw [← hcongr, tryState, h]
  rfl

/-- Some rounds that do not throw. -/
lemma tryState_foldlM {start : ℕ} (run : CampaignRun)
    (h : ∀ i, i < states.length → tested (start + i) = .ok (recovery (start + i))) :
    (states.zipIdx start).foldlM (c.tryState tested) run =
      .ok ((states.zipIdx start).foldl (c.reporting recovery).testState run) := by
  induction states generalizing start run with
  | nil => rfl
  | cons state states ih =>
      have hfirst : tested start = .ok (recovery start) := h 0 (by simp)
      rw [List.zipIdx_cons, List.foldlM_cons, List.foldl_cons, tryState_eq hfirst]
      refine ih _ fun i hi => ?_
      have hnext := h (i + 1) (by simpa using hi)
      rwa [show start + (i + 1) = start + 1 + i by omega] at hnext

/-- **A loop that does not throw** is that of `Campaign.run`. -/
lemma tryRun_eq (h : ∀ i < states.length, tested i = .ok (recovery i)) :
    c.tryRun tested states = .ok ((c.reporting recovery).run states) :=
  tryState_foldlM _ fun i hi => by
    rw [Nat.zero_add]
    exact h i hi

/-- **A loop throws** what its first state that throws does. -/
lemma tryRun_eq_error {n : ℕ} {e : Thrown} (hn : n < states.length)
    (hbefore : ∀ i < n, tested i = .ok (recovery i)) (herror : tested n = .error e) :
    c.tryRun tested states = .error e := by
  have hlength : (states.take n).length = n := List.length_take_of_le hn.le
  have hsplit : states = states.take n ++ states[n] :: states.drop (n + 1) := by
    rw [List.getElem_cons_drop, List.take_append_drop]
  have hfirst := @tryRun_eq c (states.take n) tested recovery fun i hi =>
    hbefore i (by omega)
  rw [tryRun] at hfirst
  rw [tryRun, hsplit, List.zipIdx_append, List.foldlM_append, hfirst, hlength, Nat.zero_add,
    List.zipIdx_cons]
  change List.foldlM (c.tryState tested) _ _ = _
  rw [List.foldlM_cons, tryState, herror]
  rfl

/-- **When a loop returns**, and what. -/
lemma tryRun_ok_iff {run : CampaignRun} : c.tryRun tested states = .ok run ↔
    (∀ i < states.length, ∃ recovery, tested i = .ok recovery) ∧
      run = (c.reporting fun i => reported (tested i)).run states := by
  by_cases hall : ∀ i < states.length, ∃ recovery, tested i = .ok recovery
  · have hreported : ∀ i < states.length, tested i = .ok (reported (tested i)) := by
      intro i hi
      obtain ⟨recovery, hrecovery⟩ := hall i hi
      rw [hrecovery, reported]
    rw [tryRun_eq hreported, Except.ok.injEq, and_iff_right hall, eq_comm]
  · -- the first state that throws
    have hexists : ∃ n, n < states.length ∧ ¬ ∃ recovery, tested n = .ok recovery := by
      simpa only [not_forall, exists_prop] using hall
    classical
    obtain ⟨hlt, hthrew⟩ := Nat.find_spec hexists
    have hbefore : ∀ i < Nat.find hexists, tested i = .ok (reported (tested i)) := by
      intro i hi
      have hmin := Nat.find_min hexists hi
      obtain ⟨recovery, hrecovery⟩ : ∃ recovery, tested i = .ok recovery := by
        by_contra hnone
        exact hmin ⟨hi.trans hlt, hnone⟩
      rw [hrecovery, reported]
    have herror : ∃ e, tested (Nat.find hexists) = .error e := by
      cases htested : tested (Nat.find hexists) with
      | error e => exact ⟨e, rfl⟩
      | ok recovery => exact absurd ⟨recovery, htested⟩ hthrew
    obtain ⟨e, he⟩ := herror
    rw [tryRun_eq_error hlt hbefore he]
    simp [hall]

end Campaign

/-- A campaign on its host did what the loop does for what testing its states came to:
the same findings, and their images are there. -/
def Tried (c : Campaign) (states : List CrashState) (tested : ℕ → Except Thrown RecoveryResult) :
    Except Thrown HostedRun → Host Fs → Prop :=
  Then
    (fun run g => ∃ run', c.tryRun tested states = .ok run' ∧ run.findings = run'.findings ∧
      run.statesTested = run'.statesTested ∧ ∀ l ∈ run'.images, (g.images l).isSome)
    fun e _ => c.tryRun tested states = .error e

/-- **What a campaign on its host comes to** is what testing each of its states did: a
recovery that reported something of what the replay of the state left, or an error. -/
theorem hostCampaign_tried (env : Environment) (target : Target Fs) (mounted : MountedAs)
    (c : Campaign) (states : List CrashState) (h : Host Fs) :
    Ends (hostCampaign env target mounted c states) h fun r g =>
      ∃ tested, (∀ i state recovery, states[i]? = some state → tested i = .ok recovery →
        ∃ fs, Recovered target state recovery fs) ∧ Tried c states tested r g := by
  refine (hostCampaign_refines env target mounted c states h).imp fun r g hends => ?_
  cases r with
  | ok run =>
      obtain ⟨recovery, contents, hafter⟩ := hends
      refine ⟨fun i => .ok (recovery i), fun i state r hstate hr => ?_, _,
        Campaign.tryRun_eq fun i _ => rfl, hafter.findings, ?_, fun l hl => ?_⟩
      · cases hr
        exact ⟨_, hafter.recovered i state hstate⟩
      · rw [hafter.tested, Campaign.statesTested_run]
      · obtain ⟨p, hp, rfl⟩ := ((Campaign.kept_run states).images_iff l).mp hl
        obtain ⟨i, hi, rfl⟩ := (Campaign.kept_run states).paths_lt p hp
        have himage := (hafter.images i hi).trans (if_pos hl)
        exact Option.isSome_of_eq_some himage
  | error e =>
      obtain ⟨-, n, hn, recovery, contents, run, before, hafter, -⟩ := hends
      have hbefore : ∀ i < n, (if i < n then .ok (recovery i) else .error e :
          Except Thrown RecoveryResult) = .ok (recovery i) := fun i hi => if_pos hi
      refine ⟨fun i => if i < n then .ok (recovery i) else .error e, fun i state r hstate hr => ?_,
        Campaign.tryRun_eq_error hn hbefore (if_neg (lt_irrefl n))⟩
      dsimp only at hr
      split at hr
      · next hi =>
          cases hr
          refine ⟨_, hafter.recovered i state ?_⟩
          rwa [List.getElem?_take_of_lt hi]
      · cases hr

end CrashFuzz
