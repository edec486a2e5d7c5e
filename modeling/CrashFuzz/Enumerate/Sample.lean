import CrashFuzz.Enumerate.Space
import CrashFuzz.Lib.Binary64
import CrashFuzz.Lib.OrderedMap

/-!
Crash point selection (`core/src/enumerate/crash-points.ts`) and the sampling
of states (`core/src/enumerate/sample.ts`).

* `unitHash`: the hash both files rank by.
* `selectCrashPoints`, `sampleStates`: what a campaign tests of a trace.
* `mem_of_mem_sampleStates`, `lt_of_mem_selectCrashPoints`: both only choose.
* `mem_sampleStates`: the first state of a crash point and the last one are in
  every sample.
* `CrashPoint.states_widen`: a wider window emits every state of a narrower
  one, and with it `sampled_emitted`.
-/

namespace CrashFuzz

open Binary64 Subsets

/-- `unitHash`: splitmix32, mapped onto `[0, 1)`. -/
def unitHash (seed : Option ℚ) (index : ℕ) : ℚ :=
  let x := toInt32 (do
    let step ← mul index 0x9e3779b9
    add (← seed) step)
  let x := (x ^^^ (x >>> 16)) * 0x21f0aaad#32
  let x := (x ^^^ (x >>> 15)) * 0x735a2d97#32
  let x := x ^^^ (x >>> 15)
  x.toNat / 0x100000000

/-! ### Crash points -/

/-- `SelectionOptions`. -/
structure SelectionOptions where
  /-- Fraction of crash points not adjacent to a persistence call to sample. -/
  nonFsyncSampleRate : ℚ
  /-- Fixes the sample. -/
  seed : ℚ
  /-- Workloads no longer than this are enumerated exhaustively. -/
  maxExhaustiveWorkloadOps : Option ℚ := none

/-- Position `i` holds a persistence call. -/
def persistenceAt (events : List TraceEvent) (i : ℕ) : Bool :=
  events[i]?.any (·.call ∈ persistence)

/-- `selectCrashPoints`: all of them for a short trace and for one without
persistence calls, else those next to a persistence call and a sample. -/
def selectCrashPoints (trace : Trace) (options : SelectionOptions) : List ℕ :=
  let points := List.range trace.events.length
  if (trace.events.length : ℚ) ≤ options.maxExhaustiveWorkloadOps.getD 0 then points
  else if !trace.events.any (·.call ∈ persistence) then points
  else points.filter fun index =>
    let isPersistence := persistenceAt trace.events index
    let followsPersistence := 0 < index && persistenceAt trace.events (index - 1)
    isPersistence || followsPersistence ||
      unitHash (some options.seed) index < options.nonFsyncSampleRate

/-- Only crash points of the trace are selected. -/
lemma lt_of_mem_selectCrashPoints {trace : Trace} {options : SelectionOptions} {k : ℕ}
    (h : k ∈ selectCrashPoints trace options) : k < trace.events.length := by
  rw [selectCrashPoints] at h
  split at h
  · exact List.mem_range.mp h
  · split at h
    · exact List.mem_range.mp h
    · exact List.mem_range.mp (List.mem_of_mem_filter h)

/-- No crash point is selected twice. -/
lemma nodup_selectCrashPoints (trace : Trace) (options : SelectionOptions) :
    (selectCrashPoints trace options).Nodup := by
  rw [selectCrashPoints]
  split
  · exact List.nodup_range
  · split
    · exact List.nodup_range
    · exact List.nodup_range.filter _

/-- A trace without persistence calls is tested at every event. -/
lemma selectCrashPoints_eq_range {trace : Trace} (h : ∀ e ∈ trace.events, e.call ∉ persistence)
    (options : SelectionOptions) :
    selectCrashPoints trace options = List.range trace.events.length := by
  have hnone : trace.events.any (·.call ∈ persistence) = false := by
    rw [List.any_eq_false]
    exact fun e he => by simpa using h e he
  rw [selectCrashPoints, hnone]
  split
  · rfl
  · rw [if_pos (by decide)]

/-! ### States -/

/-- `SampleOptions`. -/
structure SampleOptions where
  /-- States materialized per crash point. -/
  maxPerCrashPoint : ℚ
  /-- Fixes the sample. -/
  seed : ℚ

/-- The states of each crash point, in the order in which they come. -/
def stateGroups (states : List CrashState) : OrderedMap ℕ (List CrashState) :=
  states.foldl (fun groups state =>
    match groups.get? state.crashPoint with
    | none => groups.set state.crashPoint [state]
    | some group => groups.set state.crashPoint (group ++ [state])) OrderedMap.empty

/-- The positions a group is sampled at: the first and the last one, then those
of the smallest hashes until there are enough. -/
def keptPositions (options : SampleOptions) (crashPoint length : ℕ) : List ℕ :=
  let seed := add options.seed crashPoint
  let ranked := (List.range length).insertionSort fun i j => unitHash seed i ≤ unitHash seed j
  ranked.foldl (fun keep index =>
    if options.maxPerCrashPoint ≤ (keep.length : ℚ) then keep
    else if index ∈ keep then keep
    else keep ++ [index]) [0, length - 1].dedup

/-- One group, sampled down to the cap in the order of enumeration. -/
def sampleGroup (options : SampleOptions) (crashPoint : ℕ) (group : List CrashState) :
    List CrashState :=
  if (group.length : ℚ) ≤ options.maxPerCrashPoint then group
  else ((keptPositions options crashPoint group.length).insertionSort (· ≤ ·)).filterMap
    (group[·]?)

/-- `sampleStates`. -/
def sampleStates (states : List CrashState) (options : SampleOptions) : List CrashState :=
  ((stateGroups states).entries.insertionSort (·.1 ≤ ·.1)).flatMap fun entry =>
    sampleGroup options entry.1 entry.2

lemma mem_of_mem_sampleGroup {options : SampleOptions} {k : ℕ} {group : List CrashState}
    {s : CrashState} (h : s ∈ sampleGroup options k group) : s ∈ group := by
  rw [sampleGroup] at h
  split at h
  · exact h
  · obtain ⟨i, -, hi⟩ := List.mem_filterMap.mp h
    exact List.mem_of_getElem? hi

/-- A group holds states of the list. -/
lemma mem_of_mem_stateGroups {states group : List CrashState} {k : ℕ} {s : CrashState}
    (hgroup : (stateGroups states).get? k = some group) (hs : s ∈ group) : s ∈ states := by
  rw [stateGroups] at hgroup
  induction states using List.reverseRecOn generalizing k group s with
  | nil => simp at hgroup
  | append_singleton states state ih =>
      rw [List.foldl_append, List.foldl_cons, List.foldl_nil] at hgroup
      generalize states.foldl _ _ = groups at hgroup ih
      -- the groups before, with `state` added to its own
      have hset : ∀ old, (∀ a ∈ old, a ∈ states) →
          (groups.set state.crashPoint (old ++ [state])).get? k = some group →
          s ∈ states ++ [state] := by
        intro old hold hget
        rw [OrderedMap.get?_set] at hget
        split at hget
        · cases hget
          exact List.mem_append.mpr ((List.mem_append.mp hs).imp_left (hold s))
        · exact List.mem_append_left _ (ih hget hs)
      split at hgroup
      · exact hset [] (by simp) hgroup
      · rename_i old hold
        exact hset old (fun a ha => ih hold ha) hgroup

/-- Sampling only chooses. -/
lemma mem_of_mem_sampleStates {states : List CrashState} {options : SampleOptions}
    {s : CrashState} (h : s ∈ sampleStates states options) : s ∈ states := by
  obtain ⟨⟨k, group⟩, hentry, hs⟩ := List.mem_flatMap.mp h
  rw [List.mem_insertionSort, OrderedMap.mem_entries_iff] at hentry
  exact mem_of_mem_stateGroups hentry (mem_of_mem_sampleGroup hs)

/-- The group of a crash point holds its states in order. -/
lemma get?_stateGroups {states : List CrashState} {k : ℕ} : (stateGroups states).get? k =
    if states.filter (·.crashPoint = k) = [] then none
    else some (states.filter (·.crashPoint = k)) := by
  induction states using List.reverseRecOn with
  | nil => rfl
  | append_singleton states state ih =>
      rw [stateGroups] at ih
      rw [stateGroups, List.foldl_append, List.foldl_cons, List.foldl_nil, List.filter_append]
      by_cases hk : state.crashPoint = k
      · subst hk
        rw [ih]
        by_cases hnone : states.filter (·.crashPoint = state.crashPoint) = []
        · simp [hnone]
        · simp [hnone]
      · have hsame : ∀ group : List CrashState, ((states.foldl (fun groups state =>
            match groups.get? state.crashPoint with
            | none => groups.set state.crashPoint [state]
            | some group => groups.set state.crashPoint (group ++ [state]))
              OrderedMap.empty).set state.crashPoint group).get? k = _ :=
          fun group => (OrderedMap.get?_set_of_ne (Ne.symm hk)).trans ih
        have hfilter : [state].filter (·.crashPoint = k) = [] := by simp [hk]
        rw [hfilter, List.append_nil]
        split <;> exact hsame _

/-- What is kept at first stays. -/
lemma mem_keptPositions {options : SampleOptions} {k length i : ℕ} (h : i = 0 ∨ i = length - 1) :
    i ∈ keptPositions options k length := by
  have hfold : ∀ (ranked keep : List ℕ), i ∈ keep → i ∈ ranked.foldl (fun keep index =>
      if options.maxPerCrashPoint ≤ (keep.length : ℚ) then keep
      else if index ∈ keep then keep
      else keep ++ [index]) keep := by
    intro ranked
    induction ranked with
    | nil => exact fun _ hi => hi
    | cons index ranked ih =>
        refine fun keep hi => ih _ ?_
        dsimp only
        split_ifs
        · exact hi
        · exact hi
        · exact List.mem_append_left _ hi
  exact hfold _ _ (by simpa using h)

/-- The first state of a group and the last one are in every sample. -/
lemma mem_sampleGroup {options : SampleOptions} {k : ℕ} {group : List CrashState} {s : CrashState}
    (h : group.head? = some s ∨ group.getLast? = some s) : s ∈ sampleGroup options k group := by
  rw [sampleGroup]
  split
  · exact h.elim List.mem_of_mem_head? List.mem_of_mem_getLast?
  · have hposition : ∃ i, (i = 0 ∨ i = group.length - 1) ∧ group[i]? = some s := by
      rcases h with h | h
      · exact ⟨0, .inl rfl, List.head?_eq_getElem? ▸ h⟩
      · exact ⟨group.length - 1, .inr rfl, List.getLast?_eq_getElem? ▸ h⟩
    obtain ⟨i, hi, hs⟩ := hposition
    exact List.mem_filterMap.mpr ⟨i, List.mem_insertionSort _ |>.mpr (mem_keptPositions hi), hs⟩

/-- **The boundaries of the space are always sampled.** -/
theorem mem_sampleStates {states : List CrashState} {options : SampleOptions} {k : ℕ}
    {s : CrashState} (h : (states.filter (·.crashPoint = k)).head? = some s ∨
      (states.filter (·.crashPoint = k)).getLast? = some s) : s ∈ sampleStates states options := by
  have hne : states.filter (·.crashPoint = k) ≠ [] := by
    intro hnil
    simp [hnil] at h
  refine List.mem_flatMap.mpr ⟨(k, states.filter (·.crashPoint = k)), ?_, mem_sampleGroup h⟩
  rw [List.mem_insertionSort, OrderedMap.mem_entries_iff, get?_stateGroups, if_neg hne]

/-! ### Wider windows -/

namespace CrashPoint

variable {events : List TraceEvent} {model : FilesystemModel} {k i W W' : ℕ} {torn : Bool}
  {s : CrashState}

/-- A wider window keeps fewer operations in every state. -/
lemma alwaysPresent_mono (hWW : W ≤ W') (h : i ∈ alwaysPresent events W' k) :
    i ∈ alwaysPresent events W k := by
  rw [mem_alwaysPresent] at h ⊢
  refine h.imp_right fun h => ?_
  obtain ⟨hfree, hcount⟩ := mem_older.mp h
  exact mem_older.mpr ⟨hfree, by omega⟩

lemma window_mono (hW : 1 ≤ W) (hWW : W ≤ W') (h : i ∈ window events W k) :
    i ∈ window events W' k := by
  have hfree := window_sublist.subset h
  refine (mem_older_or_window hfree).resolve_left fun hold => ?_
  obtain ⟨-, hcount⟩ := mem_older.mp hold
  exact notMem_window_of_older (W := W) (by omega) (mem_older.mpr ⟨hfree, by omega⟩) h

/-- A selection of a narrow window is one of a wider window. -/
lemma exists_persistedOf_widen (hW : 1 ≤ W) (hWW : W ≤ W') (hW' : W' ≤ 30) (mask : ℕ) :
    ∃ mask' < maskCount (window events W' k).length,
      persistedOf events W' k mask' = persistedOf events W k mask := by
  rw [maskCount_window (by omega) hW']
  refine exists_persistedOf (by omega) hW' (pairwise_persistedOf hW) (fun i hi => ?_)
    fun i hi => ?_
  · exact mem_persistedOf.mpr (Or.inl (alwaysPresent_mono hWW hi))
  · rw [issued_eq_issued W' W]
    exact mem_issued_of_mem_persistedOf hi

/-- **A wider window emits every state of a narrower one.** -/
theorem states_widen (hW : 1 ≤ W) (hWW : W ≤ W') (hW' : W' ≤ 30)
    (hs : s ∈ states events model ⟨torn, W⟩ k) : s ∈ states events model ⟨true, W'⟩ k := by
  rw [states] at hs ⊢
  split at hs
  · rename_i htotal
    rw [if_pos htotal]
    obtain ⟨n, hn, rfl, hall⟩ := mem_prefixStates.mp hs
    rw [issued_eq_issued W W'] at hn hall ⊢
    exact mem_prefixStates.mpr ⟨n, hn, rfl, fun a ha => hall a (alwaysPresent_mono hWW ha)⟩
  · rename_i htotal
    rw [if_neg htotal]
    obtain ⟨mask, -, hdisk, hs⟩ := mem_maskStates.mp hs
    obtain ⟨mask', hmask', heq⟩ := exists_persistedOf_widen hW hWW hW' mask
    rw [← heq] at hdisk hs
    refine mem_maskStates.mpr ⟨mask', hmask', hdisk, hs.imp_right fun htorn => ⟨rfl, ?_⟩⟩
    obtain ⟨op, hop, hrest⟩ := mem_tornStates.mp htorn.2
    exact mem_tornStates.mpr ⟨op, window_mono hW hWW hop, hrest⟩

end CrashPoint

/-- **Bounds only narrow the space**: whatever is tested under a window, a
choice of crash points and a cap is emitted at every crash point of the trace
under any wider window with torn writes. -/
theorem sampled_emitted (trace : Trace) (model : FilesystemModel) (torn : Bool) {W W' : ℕ}
    (hW : 1 ≤ W) (hWW : W ≤ W') (hW' : W' ≤ 30) (selection : SelectionOptions)
    (sample : SampleOptions) :
    ∃ states all,
      enumerateCrashStates trace ⟨model, ⟨torn, W⟩, some (selectCrashPoints trace selection)⟩ =
        .ok states ∧
      enumerateCrashStates trace ⟨model, ⟨true, W'⟩, none⟩ = .ok all ∧
      ∀ s ∈ sampleStates states sample, s ∈ all := by
  refine ⟨_, _, enumerateFrom_eq_ok.mpr ⟨fun k => lt_of_mem_selectCrashPoints, rfl⟩,
    enumerateFrom_eq_ok.mpr ⟨fun k => List.mem_range.mp, rfl⟩, fun s hs => ?_⟩
  obtain ⟨k, hk, hsk⟩ := List.mem_flatMap.mp (mem_of_mem_sampleStates hs)
  exact List.mem_flatMap.mpr ⟨k, List.mem_range.mpr (lt_of_mem_selectCrashPoints hk),
    CrashPoint.states_widen hW hWW hW' hsk⟩

theorem sampled_emitted_resize : ∃ states all,
    enumerateCrashStates resizeTrace
        ⟨xfs, ⟨true, 8⟩, some (selectCrashPoints resizeTrace ⟨1 / 20, 1, some 3⟩)⟩ = .ok states ∧
      enumerateCrashStates resizeTrace ⟨xfs, ⟨true, 30⟩, none⟩ = .ok all ∧
      ∀ s ∈ sampleStates states ⟨24, 1⟩, s ∈ all :=
  @sampled_emitted resizeTrace xfs true 8 30 (by decide) (by decide) (by decide)
    ⟨1 / 20, 1, some 3⟩ ⟨24, 1⟩

end CrashFuzz
