import CrashFuzz.Campaign.Soundness
import CrashFuzz.Lib.Words

/-!
What `cf enumerate` says of a trace before a sweep (`core/src/index.ts`).

* `Cli.enumerate`: the crash points and the states of each model, and how many
  of them would be materialized.
* `length_sampleStates`: the size of a sample does not depend on its seed.
* `columns_line_iff`: a line can be told apart into its columns as long as the numbers
  are small enough.
* `enumerate_forecasts`: the numbers are those of the campaigns.
-/

namespace CrashFuzz

open PosixPath Words

/-- `MODELS`. -/
def MODELS : List FilesystemModel := [ext4Ordered, ext4Journal, xfs, btrfs]

namespace Cli

/-! ### The command -/

/-- `padEnd`, of a text without surrogates. -/
def padEnd (text : String) (width : ℕ) : String :=
  String.ofList (text.toList ++ List.replicate (width - text.length) ' ')

/-- `padStart`. -/
def padStart (text : String) (width : ℕ) : String :=
  String.ofList (List.replicate (width - text.length) ' ' ++ text.toList)

/-- What is counted for one model. -/
structure Row where
  model : FilesystemModel
  crashPoints : ℕ
  states : ℕ
  materialized : ℕ

/-- The line of a model. -/
def Row.line (row : Row) : String :=
  padEnd row.model.name 17 ++ padStart (toString row.crashPoints) 12 ++
    padStart (toString row.states) 9 ++ padStart (toString row.materialized) 15

/-- The exit status of a command, and what it prints to each stream. -/
structure Printed where
  status : ℕ
  out : List String
  err : List String

/-- The lines before those of the models. -/
def head (trace : Trace) (crashPoints : List ℕ) : List String :=
  [toString trace.events.length ++ " events, " ++ toString crashPoints.length ++
      " crash points selected\n",
    "model            crash points   states   materialized"]

/-- The counts of a trace under one model. -/
def measure (trace : Trace) (bounds : LoadedBounds) (crashPoints : List ℕ)
    (model : FilesystemModel) : Except Thrown Row := do
  let states ← enumerateCrashStates trace
    { model := model
      bounds := ⟨bounds.tornWrites, bounds.maxUnpersistedWindow⟩
      crashPoints := some crashPoints }
  let sampled := sampleStates states ⟨bounds.maxStatesPerCrashPoint, 1⟩
  return ⟨model, crashPoints.length, states.length, sampled.length⟩

/-- `enumerate`; the bounds and the text of the trace are read from files. -/
def enumerate (bounds : Except Thrown LoadedBounds) (read : String → Except Thrown String) :
    Option String → Except Thrown Printed
  | none => .ok ⟨2, [], ["usage: bun run cf enumerate <trace.jsonl>"]⟩
  | some tracePath => do
      let bounds ← bounds
      let text ← read tracePath
      let trace ← parseTrace readLine text
      let crashPoints := selectCrashPoints trace
        { nonFsyncSampleRate := bounds.nonFsyncSampleRate
          maxExhaustiveWorkloadOps := some bounds.maxExhaustiveWorkloadOps
          seed := 1 }
      let rows ← MODELS.mapM (measure trace bounds crashPoints)
      return ⟨0, head trace crashPoints ++ rows.map Row.line, []⟩

end Cli

/-! ### The size of a sample -/

/-- A list is as long as its groups together. -/
lemma length_eq_sum_groups {states : List CrashState} {ks : List ℕ} (hks : ks.Nodup)
    (hall : ∀ s ∈ states, s.crashPoint ∈ ks) :
    states.length = (ks.map fun k => (states.filter (·.crashPoint = k)).length).sum := by
  induction ks generalizing states with
  | nil =>
      have hnil : states = [] :=
        List.eq_nil_iff_forall_not_mem.mpr fun s hs => List.not_mem_nil (hall s hs)
      rw [hnil]
      rfl
  | cons k ks ih =>
      obtain ⟨hk, hks⟩ := List.nodup_cons.mp hks
      have hrest : ∀ s ∈ states.filter fun s => !decide (s.crashPoint = k), s.crashPoint ∈ ks := by
        intro s hs
        obtain ⟨hmem, hne⟩ := List.mem_filter.mp hs
        exact (List.mem_cons.mp (hall s hmem)).resolve_left (by simpa using hne)
      have hsame : (ks.map fun j => ((states.filter fun s => !decide (s.crashPoint = k)).filter
          (·.crashPoint = j)).length) =
            ks.map fun j => (states.filter (·.crashPoint = j)).length := by
        refine List.map_congr_left fun j hj => ?_
        rw [List.filter_filter]
        refine congrArg List.length (List.filter_congr fun s _ => ?_)
        rcases eq_or_ne s.crashPoint j with rfl | hne
        · have hne' : s.crashPoint ≠ k := fun heq => hk (heq ▸ hj)
          simp [hne']
        · simp [hne]
      rw [List.map_cons, List.sum_cons, ← hsame, ← ih hks hrest]
      exact List.length_eq_length_filter_add _

variable {trace : Trace} {model : FilesystemModel} {bounds : LoadedBounds} {text : String}
  {cwd imageDir : Chars} {recovery : ℕ → RecoveryResult}

/-- **The size of a sample** of an enumeration, whatever the seed. -/
lemma length_sampleStates {enumeration : Bounds} {ks : List ℕ} (hks : ks.Nodup)
    {sample : SampleOptions} (hcap : 2 ≤ sample.maxPerCrashPoint) :
    (sampleStates (ks.flatMap (CrashPoint.states trace.events model enumeration)) sample).length =
      (ks.map fun k => min ⌈sample.maxPerCrashPoint⌉₊
        (CrashPoint.states trace.events model enumeration k).length).sum := by
  have hmem : ∀ s ∈ sampleStates (ks.flatMap (CrashPoint.states trace.events model enumeration))
      sample, s.crashPoint ∈ ks := by
    intro s hs
    obtain ⟨k, hk, hmem⟩ := List.mem_flatMap.mp (mem_of_mem_sampleStates hs)
    rw [CrashPoint.crashPoint_of_mem hmem]
    exact hk
  rw [length_eq_sum_groups hks hmem]
  congr 1
  refine List.map_congr_left fun k hk => ?_
  rw [filter_sampleStates, filter_flatMap_states, List.count_eq_one_of_mem hks hk,
    List.replicate_one, List.flatMap_singleton]
  exact (cut_sampleGroup hcap).length_eq

namespace Cli

/-! ### The columns -/

/-- What stands in a column. -/
def visible (c : Char) : Bool := decide (c ≠ ' ')

/-- The texts of the columns of a line. -/
def columns (line : String) : List (List Char) := words visible line.toList

variable {w l : List Char} {n : ℕ}

lemma words_spaces : words visible (List.replicate n ' ' ++ l) = words visible l := by
  induction n with
  | zero => rfl
  | succ n ih =>
      rw [List.replicate_succ, List.cons_append, words_cons (by decide), ih]

/-- A word is told apart from what follows it after a space. -/
lemma words_word (hw : ∀ c ∈ w, visible c = true) (hne : w ≠ []) (hn : 0 < n) :
    words visible (w ++ (List.replicate n ' ' ++ l)) = w :: words visible l := by
  obtain ⟨m, rfl⟩ := Nat.exists_eq_succ_of_ne_zero hn.ne'
  rw [List.replicate_succ, List.cons_append, words_append_cons (by decide), words_spaces,
    words_of_letters hw hne, List.singleton_append]

/-- Three words in a row after some spaces each are told apart exactly if there is a space
between them. -/
lemma words_three_iff {w₁ w₂ w₃ : List Char} {n₂ n₃ : ℕ}
    (h₁ : ∀ c ∈ w₁, visible c = true) (h₂ : ∀ c ∈ w₂, visible c = true)
    (h₃ : ∀ c ∈ w₃, visible c = true) (hne₁ : w₁ ≠ []) (hne₂ : w₂ ≠ []) (hne₃ : w₃ ≠ []) :
    words visible (w₁ ++ (List.replicate n₂ ' ' ++ (w₂ ++ (List.replicate n₃ ' ' ++ w₃)))) =
      [w₁, w₂, w₃] ↔ 0 < n₂ ∧ 0 < n₃ := by
  have happend : ∀ {u v : List Char}, (∀ c ∈ u, visible c = true) → (∀ c ∈ v, visible c = true) →
      ∀ c ∈ u ++ v, visible c = true := fun hu hv c hc =>
    (List.mem_append.mp hc).elim (hu c) (hv c)
  have hnil : ∀ {u v : List Char}, u ≠ [] → u ++ v ≠ [] := fun hu h =>
    hu (List.append_eq_nil_iff.mp h).1
  rcases Nat.eq_zero_or_pos n₂ with rfl | hn₂
  · -- the first two are one word
    refine iff_of_false (fun h => ?_) fun h => lt_irrefl 0 h.1
    rw [List.replicate_zero, List.nil_append, ← List.append_assoc] at h
    rcases Nat.eq_zero_or_pos n₃ with rfl | hn₃
    · rw [List.replicate_zero, List.nil_append,
        words_of_letters (happend (happend h₁ h₂) h₃) (hnil (hnil hne₁))] at h
      exact absurd (congrArg List.length h) (by simp)
    · rw [words_word (happend h₁ h₂) (hnil hne₁) hn₃, words_of_letters h₃ hne₃] at h
      exact absurd (congrArg List.length h) (by simp)
  · rw [words_word h₁ hne₁ hn₂]
    rcases Nat.eq_zero_or_pos n₃ with rfl | hn₃
    · refine iff_of_false (fun h => ?_) fun h => lt_irrefl 0 h.2
      rw [List.replicate_zero, List.nil_append, words_of_letters (happend h₂ h₃) (hnil hne₂)] at h
      exact absurd (congrArg List.length h) (by simp)
    · rw [words_word h₂ hne₂ hn₃, words_of_letters h₃ hne₃]
      exact iff_of_true rfl ⟨hn₂, hn₃⟩

lemma toList_toString (n : ℕ) : (toString n).toList = Nat.toDigits 10 n := Nat.toList_repr

lemma visible_toString (n : ℕ) : ∀ c ∈ (toString n).toList, visible c = true := by
  intro c hc
  rw [toList_toString] at hc
  refine decide_eq_true fun hspace => ?_
  rw [hspace] at hc
  exact absurd (Decimal.isDigit_toDigits hc) (by decide)

lemma toString_ne_nil (n : ℕ) : (toString n).toList ≠ [] := by
  rw [toList_toString]
  exact Nat.toDigits_ne_nil

/-- A number leaves room in its column if it has fewer digits than the column is wide. -/
lemma room_iff {n width : ℕ} (hwidth : 1 < width) :
    0 < width - (toString n).length ↔ n < 10 ^ (width - 1) := by
  rw [← Nat.length_repr_le_iff (Nat.sub_pos_of_lt hwidth)]
  change 0 < width - n.repr.length ↔ _
  omega

/-- The names of the models are short. -/
lemma name_of_mem {model : FilesystemModel} (h : model ∈ MODELS) :
    (∀ c ∈ model.name.toList, visible c = true) ∧ model.name.toList ≠ [] ∧
      0 < 17 - model.name.length := by
  have hshort : model.name.toList.all visible = true ∧ model.name.toList ≠ [] ∧
      0 < 17 - model.name.length := by
    simp only [List.mem_cons, List.not_mem_nil, or_false, MODELS] at h
    rcases h with rfl | rfl | rfl | rfl <;> decide
  exact ⟨List.all_eq_true.mp hshort.1, hshort.2⟩

/-- The texts that a line is made of. -/
def Row.texts (row : Row) : List (List Char) :=
  [row.model.name.toList, (toString row.crashPoints).toList, (toString row.states).toList,
    (toString row.materialized).toList]

/-- **When a line can be read**: the last two columns have room for their numbers. -/
lemma columns_line_iff {row : Row} (h : row.model ∈ MODELS) :
    columns row.line = row.texts ↔ row.states < 10 ^ 8 ∧ row.materialized < 10 ^ 14 := by
  obtain ⟨hname, hne, hroom⟩ := name_of_mem h
  have hline : row.line.toList = row.model.name.toList ++
      (List.replicate (17 - row.model.name.length + (12 - (toString row.crashPoints).length)) ' ' ++
        ((toString row.crashPoints).toList ++
          (List.replicate (9 - (toString row.states).length) ' ' ++
            ((toString row.states).toList ++
              (List.replicate (15 - (toString row.materialized).length) ' ' ++
                (toString row.materialized).toList))))) := by
    simp only [Row.line, padEnd, padStart, String.toList_append, String.toList_ofList,
      List.append_assoc, ← List.replicate_append_replicate]
  rw [columns, hline, words_word hname hne (by omega), Row.texts, List.cons_inj_right,
    words_three_iff (visible_toString _) (visible_toString _) (visible_toString _)
      (toString_ne_nil _) (toString_ne_nil _) (toString_ne_nil _), room_iff (by decide),
    room_iff (by decide)]

/-! ### The forecast -/

/-- What `measure` counts. -/
def rowOf (trace : Trace) (bounds : LoadedBounds) (crashPoints : List ℕ)
    (model : FilesystemModel) : Row :=
  let states := crashPoints.flatMap (CrashPoint.states trace.events model bounds.enumeration)
  ⟨model, crashPoints.length, states.length,
    (sampleStates states ⟨bounds.maxStatesPerCrashPoint, 1⟩).length⟩

lemma measure_eq {crashPoints : List ℕ} (h : ∀ k ∈ crashPoints, k < trace.events.length) :
    measure trace bounds crashPoints model = .ok (rowOf trace bounds crashPoints model) := by
  have hok : enumerateCrashStates trace ⟨model, bounds.enumeration, some crashPoints⟩ =
      .ok (crashPoints.flatMap (CrashPoint.states trace.events model bounds.enumeration)) :=
    enumerateFrom_eq_ok.mpr ⟨h, rfl⟩
  rw [measure]
  change (do
    let states ← enumerateCrashStates trace ⟨model, bounds.enumeration, some crashPoints⟩
    let sampled := sampleStates states ⟨bounds.maxStatesPerCrashPoint, 1⟩
    return (⟨model, crashPoints.length, states.length, sampled.length⟩ : Row)) = _
  rw [hok]
  rfl

/-- The crash points that the command and a campaign select with a seed. -/
def pointsOf (trace : Trace) (bounds : LoadedBounds) (seed : ℚ) : List ℕ :=
  selectCrashPoints trace
    ⟨bounds.nonFsyncSampleRate, seed, some bounds.maxExhaustiveWorkloadOps⟩

lemma enumerate_eq {read : String → Except Thrown String} {tracePath : String}
    (hread : read tracePath = .ok text) (hparse : parseTrace readLine text = .ok trace) :
    enumerate (.ok bounds) read (some tracePath) =
      .ok ⟨0, head trace (pointsOf trace bounds 1) ++
        (MODELS.map (rowOf trace bounds (pointsOf trace bounds 1))).map Row.line, []⟩ := by
  have hmeasure : measure trace bounds (pointsOf trace bounds 1) =
      fun model => pure (rowOf trace bounds (pointsOf trace bounds 1) model) :=
    funext fun _ => measure_eq fun _ => lt_of_mem_selectCrashPoints
  rw [enumerate]
  simp only [hread, hparse, bind, Except.bind]
  change (MODELS.mapM (measure trace bounds (pointsOf trace bounds 1)) >>= _) = _
  rw [hmeasure, List.mapM_pure]
  rfl

/-- The numbers of a row are those of the campaigns under its model. -/
structure Forecasts (text : String) (trace : Trace) (bounds : LoadedBounds) (row : Row) : Prop where
  /-- They are those of a campaign with the seed of the command. -/
  seed : ∀ cwd imageDir recovery, ∃ result images,
    runCampaign text cwd ⟨imageDir, row.model, 1⟩ bounds recovery = .ok (result, images) ∧
      result.crashPointsTested = row.crashPoints ∧ result.statesTested = row.materialized
  /-- They are those of a campaign with any seed if no crash points are skipped. -/
  seeds : ¬ Sampled trace ⟨bounds.nonFsyncSampleRate, 1, some bounds.maxExhaustiveWorkloadOps⟩ →
    2 ≤ bounds.maxStatesPerCrashPoint → ∀ seed cwd imageDir recovery, ∃ result images,
      runCampaign text cwd ⟨imageDir, row.model, seed⟩ bounds recovery = .ok (result, images) ∧
        result.crashPointsTested = row.crashPoints ∧ result.statesTested = row.materialized
  readable : columns row.line = row.texts ↔ row.states < 10 ^ 8 ∧ row.materialized < 10 ^ 14

lemma forecasts_rowOf (hparse : parseTrace readLine text = .ok trace) (hmodel : model ∈ MODELS) :
    Forecasts text trace bounds (rowOf trace bounds (pointsOf trace bounds 1) model) where
  seed cwd imageDir recovery :=
    ⟨_, _, runCampaign_eq hparse (statesToTest_eq trace ⟨imageDir, model, 1⟩ bounds), rfl, rfl⟩
  seeds hall hcap seed cwd imageDir recovery := by
    have hall' : ¬ Sampled trace
        ⟨bounds.nonFsyncSampleRate, seed, some bounds.maxExhaustiveWorkloadOps⟩ :=
      fun h => hall ⟨h.long, h.persists⟩
    have hpoints : pointsOf trace bounds seed = pointsOf trace bounds 1 := by
      rw [pointsOf, pointsOf, selectCrashPoints_of_not_sampled hall',
        selectCrashPoints_of_not_sampled hall]
    have hnodup : (pointsOf trace bounds 1).Nodup := nodup_selectCrashPoints trace _
    refine ⟨_, _, runCampaign_eq hparse (statesToTest_eq trace ⟨imageDir, model, seed⟩ bounds),
      congrArg List.length hpoints, ?_⟩
    change (sampleStates ((pointsOf trace bounds seed).flatMap _) _).length =
      (sampleStates ((pointsOf trace bounds 1).flatMap _) _).length
    rw [hpoints, length_sampleStates hnodup hcap, length_sampleStates hnodup hcap]
  readable := columns_line_iff hmodel

/-- **The command forecasts the campaigns**: of every trace that is accepted it prints a line
for each model, with the numbers of crash points and states that a campaign under it tests.
Models of the same kind have the same numbers. -/
theorem enumerate_forecasts {read : String → Except Thrown String} {tracePath : String}
    (hread : read tracePath = .ok text) (hparse : parseTrace readLine text = .ok trace)
    (bounds : LoadedBounds) : ∃ rows : List Row,
      enumerate (.ok bounds) read (some tracePath) =
        .ok ⟨0, head trace (pointsOf trace bounds 1) ++ rows.map Row.line, []⟩ ∧
      rows.map (·.model) = MODELS ∧ (∀ row ∈ rows, Forecasts text trace bounds row) ∧
        ∀ row ∈ rows, ∀ row' ∈ rows, row.model.totalOrder = row'.model.totalOrder →
          row.states = row'.states ∧ row.materialized = row'.materialized := by
  refine ⟨_, enumerate_eq hread hparse, rfl, fun row hrow => ?_,
    fun row hrow row' hrow' hsame => ?_⟩
  · obtain ⟨model, hmodel, rfl⟩ := List.mem_map.mp hrow
    exact forecasts_rowOf hparse hmodel
  · obtain ⟨model, -, rfl⟩ := List.mem_map.mp hrow
    obtain ⟨model', -, rfl⟩ := List.mem_map.mp hrow'
    have hstates : CrashPoint.states trace.events model bounds.enumeration =
        CrashPoint.states trace.events model' bounds.enumeration := by
      funext k
      rw [CrashPoint.states, CrashPoint.states]
      change model.totalOrder = model'.totalOrder at hsame
      rw [hsame]
    exact ⟨congrArg (fun f => ((pointsOf trace bounds 1).flatMap f).length) hstates,
      congrArg (fun f => (sampleStates ((pointsOf trace bounds 1).flatMap f) _).length) hstates⟩

open Shim Json

/-- The campaigns on a put and a write after it test as many states as the command says. -/
theorem putLines_forecast : ∃ rows : List Row,
    enumerate (.ok ⟨1 / 20, 8, 3, 24, true⟩)
        (fun _ => .ok (textOf (headerLine opener :: putLines "/d/a"))) (some "run.jsonl") =
      .ok ⟨0, head (putTrace "/d/a") (pointsOf (putTrace "/d/a") ⟨1 / 20, 8, 3, 24, true⟩ 1) ++
        rows.map Row.line, []⟩ ∧
      ∀ row ∈ rows, ∃ result images,
        runCampaign (textOf (headerLine opener :: putLines "/d/a")) "/".toList
            ⟨"/images".toList, row.model, 1⟩ ⟨1 / 20, 8, 3, 24, true⟩
            (fun _ => .opened true (fun _ => none) none) = .ok (result, images) ∧
          result.crashPointsTested = row.crashPoints ∧
            result.statesTested = row.materialized := by
  have hplain : Plain "/d/a".toList := by decide
  obtain ⟨rows, hok, -, hall, -⟩ := @enumerate_forecasts _ _
    (fun _ => .ok (textOf (headerLine opener :: putLines "/d/a"))) "run.jsonl" rfl
    (parse_putLines hplain) ⟨1 / 20, 8, 3, 24, true⟩
  exact ⟨rows, hok, fun row hrow => (hall row hrow).seed _ _ _⟩

end Cli

end CrashFuzz
