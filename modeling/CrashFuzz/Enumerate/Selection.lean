import CrashFuzz.Enumerate.Sample

/-!
What a campaign selects of a trace, and what it samples of a crash point.

* `unitHash_nonneg`, `unitHash_lt_one`: the hash lies in `[0, 1)`.
* `mem_selectCrashPoints`: which crash points are selected.
* `selection_spec`: all of those next to a persistence call, and of the others a
  choice that depends on nothing but the seed, the rate and the position.
* `keepStep`, `keptPositions_spec`: the loop that fills a sample up to the cap.
* `filter_sampleStates`: the sample of one crash point is that of its group.
* `sampling_spec`: an exact, order-preserving, local cut that keeps both extremes.
-/

namespace CrashFuzz

open Binary64 Subsets

/-! ### Crash points -/

lemma unitHash_nonneg (seed : Option ℚ) (index : ℕ) : 0 ≤ unitHash seed index := by
  rw [unitHash]
  positivity

lemma unitHash_lt_one (seed : Option ℚ) (index : ℕ) : unitHash seed index < 1 := by
  rw [unitHash, div_lt_one (by norm_num)]
  exact_mod_cast BitVec.isLt _

/-- Position `i` is or directly follows a persistence call. -/
def NextToPersistence (events : List TraceEvent) (i : ℕ) : Prop :=
  ∃ j, (j = i ∨ j + 1 = i) ∧ ∃ e ∈ events[j]?, e.call ∈ persistence

/-- A trace that is neither short nor without persistence calls. -/
structure Sampled (trace : Trace) (options : SelectionOptions) : Prop where
  long : options.maxExhaustiveWorkloadOps.getD 0 < trace.events.length
  persists : ∃ e ∈ trace.events, e.call ∈ persistence

variable {trace : Trace} {options : SelectionOptions} {i : ℕ}

lemma persistenceAt_iff {events : List TraceEvent} :
    persistenceAt events i = true ↔ ∃ e ∈ events[i]?, e.call ∈ persistence := by
  rw [persistenceAt]
  cases events[i]? <;> simp

lemma nextToPersistence_iff {events : List TraceEvent} : NextToPersistence events i ↔
    (persistenceAt events i || (0 < i && persistenceAt events (i - 1))) = true := by
  rw [Bool.or_eq_true, Bool.and_eq_true, persistenceAt_iff, persistenceAt_iff, decide_eq_true_eq]
  constructor
  · rintro ⟨j, rfl | rfl, hj⟩
    · exact .inl hj
    · exact .inr ⟨Nat.succ_pos j, hj⟩
  · rintro (h | ⟨hpos, h⟩)
    · exact ⟨i, .inl rfl, h⟩
    · exact ⟨i - 1, .inr (by omega), h⟩

/-- **Which crash points are selected** of a trace that is sampled. -/
lemma mem_selectCrashPoints (h : Sampled trace options) :
    i ∈ selectCrashPoints trace options ↔ i < trace.events.length ∧
      (NextToPersistence trace.events i ∨
        unitHash (some options.seed) i < options.nonFsyncSampleRate) := by
  have hany : trace.events.any (·.call ∈ persistence) = true := by
    simpa using h.persists
  rw [selectCrashPoints, if_neg (not_le.mpr h.long), hany, if_neg (by simp), List.mem_filter,
    List.mem_range, nextToPersistence_iff, Bool.or_eq_true (_ || _), decide_eq_true_eq]

lemma pairwise_selectCrashPoints (trace : Trace) (options : SelectionOptions) :
    (selectCrashPoints trace options).Pairwise (· < ·) := by
  rw [selectCrashPoints]
  split
  · exact List.pairwise_lt_range
  · split
    · exact List.pairwise_lt_range
    · exact List.pairwise_lt_range.filter _

/-- A trace that is not sampled is tested at every event. -/
lemma selectCrashPoints_of_not_sampled (h : ¬ Sampled trace options) :
    selectCrashPoints trace options = List.range trace.events.length := by
  rw [selectCrashPoints]
  split_ifs with hshort hnone
  · rfl
  · rfl
  · refine absurd ⟨not_le.mp hshort, ?_⟩ h
    simpa using hnone

/-- The sample draws position `i`. -/
def Drawn (seed rate : ℚ) (i : ℕ) : Prop := unitHash (some seed) i < rate

/-- What is selected of a sampled trace. -/
structure SelectionSpec (trace : Trace) (options : SelectionOptions) : Prop where
  ascending : (selectCrashPoints trace options).Pairwise (· < ·)
  within : ∀ i ∈ selectCrashPoints trace options, i < trace.events.length
  complete : ∀ i < trace.events.length, NextToPersistence trace.events i →
    i ∈ selectCrashPoints trace options
  /-- Elsewhere the seed, the rate and the position decide. -/
  elsewhere : ∀ i < trace.events.length, ¬ NextToPersistence trace.events i →
    (i ∈ selectCrashPoints trace options ↔ Drawn options.seed options.nonFsyncSampleRate i)
  /-- What other events of the trace are makes no difference. -/
  local_ : ∀ trace' options', Sampled trace' options' → options'.seed = options.seed →
    options'.nonFsyncSampleRate = options.nonFsyncSampleRate →
    ∀ i < trace.events.length, i < trace'.events.length →
      (∀ j, j = i ∨ j + 1 = i → persistenceAt trace'.events j = persistenceAt trace.events j) →
      (i ∈ selectCrashPoints trace' options' ↔ i ∈ selectCrashPoints trace options)
  mono : ∀ rate, options.nonFsyncSampleRate ≤ rate →
    selectCrashPoints trace options ⊆
      selectCrashPoints trace { options with nonFsyncSampleRate := rate }
  full : 1 ≤ options.nonFsyncSampleRate →
    selectCrashPoints trace options = List.range trace.events.length
  least : options.nonFsyncSampleRate ≤ 0 →
    ∀ i, i ∈ selectCrashPoints trace options ↔
      i < trace.events.length ∧ NextToPersistence trace.events i

lemma NextToPersistence.congr {events events' : List TraceEvent}
    (h : ∀ j, j = i ∨ j + 1 = i → persistenceAt events' j = persistenceAt events j) :
    NextToPersistence events' i ↔ NextToPersistence events i := by
  refine exists_congr fun j => and_congr_right fun hj => ?_
  rw [← persistenceAt_iff, ← persistenceAt_iff, h j hj]

/-- **The selection** of a sampled trace is complete next to persistence calls,
local and monotone in the rate; other traces are tested at every event. -/
theorem selection_spec (trace : Trace) (options : SelectionOptions) :
    (Sampled trace options → SelectionSpec trace options) ∧
      (¬ Sampled trace options →
        selectCrashPoints trace options = List.range trace.events.length) := by
  refine ⟨fun h => ?_, selectCrashPoints_of_not_sampled⟩
  refine
    { ascending := pairwise_selectCrashPoints trace options
      within := fun i => lt_of_mem_selectCrashPoints
      complete := fun i hi hnext => (mem_selectCrashPoints h).mpr ⟨hi, .inl hnext⟩
      elsewhere := fun i hi hnext => ?_
      local_ := fun trace' options' h' hseed hrate i hi hi' hsame => ?_
      mono := fun rate hrate i hi => ?_
      full := fun hrate => ?_
      least := fun hrate i => ?_ }
  · rw [mem_selectCrashPoints h, and_iff_right hi, or_iff_right hnext, Drawn]
  · rw [mem_selectCrashPoints h, mem_selectCrashPoints h', and_iff_right hi, and_iff_right hi',
      NextToPersistence.congr hsame, hseed, hrate]
  · have h' : Sampled trace { options with nonFsyncSampleRate := rate } := ⟨h.long, h.persists⟩
    rw [mem_selectCrashPoints h] at hi
    rw [mem_selectCrashPoints h']
    exact ⟨hi.1, hi.2.imp_right fun hdrawn => hdrawn.trans_le hrate⟩
  · refine eq_of_mem_iff (pairwise_selectCrashPoints trace options) List.pairwise_lt_range
      fun i => ?_
    rw [mem_selectCrashPoints h, List.mem_range, and_iff_left_iff_imp]
    exact fun _ => .inr ((unitHash_lt_one _ i).trans_le hrate)
  · rw [mem_selectCrashPoints h, or_iff_left]
    exact not_lt.mpr (hrate.trans (unitHash_nonneg _ i))

/-! ### Samples -/

section Samples

variable {sample : SampleOptions} {states group : List CrashState} {k length : ℕ}

/-- One round of the loop over the ranked positions. -/
def keepStep (cap : ℚ) (keep : List ℕ) (index : ℕ) : List ℕ :=
  if cap ≤ (keep.length : ℚ) then keep else if index ∈ keep then keep else keep ++ [index]

/-- The positions of a group in the order of their hashes. -/
def rankedPositions (sample : SampleOptions) (k length : ℕ) : List ℕ :=
  (List.range length).insertionSort fun i j =>
    unitHash (add sample.seed k) i ≤ unitHash (add sample.seed k) j

lemma keptPositions_eq : keptPositions sample k length =
    (rankedPositions sample k length).foldl (keepStep sample.maxPerCrashPoint)
      [0, length - 1].dedup := rfl

lemma mem_rankedPositions {i : ℕ} : i ∈ rankedPositions sample k length ↔ i < length := by
  rw [rankedPositions, List.mem_insertionSort, List.mem_range]

/-- What the loop keeps: what it started with and some of the ranked positions,
at most up to the cap, and all of them if the cap is not reached. -/
structure Filling (cap : ℚ) (start ranked keep : List ℕ) : Prop where
  nodup : keep.Nodup
  start_subset : start ⊆ keep
  subset : ∀ i ∈ keep, i ∈ start ∨ i ∈ ranked
  length_le : keep.length ≤ max start.length ⌈cap⌉₊
  filled : cap ≤ keep.length ∨ ranked ⊆ keep

lemma Filling.step {cap : ℚ} {start ranked keep : List ℕ} (h : Filling cap start ranked keep)
    (index : ℕ) : Filling cap start (ranked ++ [index]) (keepStep cap keep index) := by
  have hsubset : ∀ i ∈ keep, i ∈ start ∨ i ∈ ranked ++ [index] := fun i hi =>
    (h.subset i hi).imp_right (List.mem_append_left _)
  rw [keepStep]
  split_ifs with hfull hmem
  · exact ⟨h.nodup, h.start_subset, hsubset, h.length_le, .inl hfull⟩
  · refine ⟨h.nodup, h.start_subset, hsubset, h.length_le, .inr ?_⟩
    rw [List.append_subset, List.cons_subset]
    exact ⟨h.filled.resolve_left hfull, hmem, List.nil_subset _⟩
  · have hlt : keep.length < ⌈cap⌉₊ := Nat.lt_ceil.mpr (not_le.mp hfull)
    refine ⟨?_, fun i hi => List.mem_append_left _ (h.start_subset hi), fun i hi => ?_, ?_,
      .inr fun i hi => ?_⟩
    · rw [List.nodup_append_comm]
      exact List.nodup_cons.mpr ⟨hmem, h.nodup⟩
    · rcases List.mem_append.mp hi with hi | hi
      · exact hsubset i hi
      · exact .inr (List.mem_append_right _ hi)
    · rw [List.length_append, List.length_singleton]
      omega
    · rcases List.mem_append.mp hi with hi | hi
      · exact List.mem_append_left _ (h.filled.resolve_left hfull hi)
      · exact List.mem_append_right _ hi

lemma Filling.loop {cap : ℚ} {start : List ℕ} (hstart : start.Nodup) (ranked : List ℕ) :
    Filling cap start ranked (ranked.foldl (keepStep cap) start) := by
  induction ranked using List.reverseRecOn with
  | nil => exact ⟨hstart, List.Subset.refl _, fun i hi => .inl hi, le_max_left _ _,
      .inr (List.nil_subset _)⟩
  | append_singleton ranked index ih =>
      rw [List.foldl_append, List.foldl_cons, List.foldl_nil]
      exact ih.step index

/-- **The positions of a sample**: as many as the cap asks for, the first and the
last one among them. -/
lemma keptPositions_spec (hcap : 2 ≤ sample.maxPerCrashPoint)
    (hlength : sample.maxPerCrashPoint < length) :
    (keptPositions sample k length).Nodup ∧
      (∀ i ∈ keptPositions sample k length, i < length) ∧
      (keptPositions sample k length).length = ⌈sample.maxPerCrashPoint⌉₊ := by
  have htwo : 2 < length := by exact_mod_cast hcap.trans_lt hlength
  have hstart : [0, length - 1].dedup = [0, length - 1] :=
    List.dedup_eq_self.mpr (by simp; omega)
  have hceil : 2 ≤ ⌈sample.maxPerCrashPoint⌉₊ :=
    Nat.cast_le.mp (hcap.trans (Nat.le_ceil sample.maxPerCrashPoint))
  have hkeeps : Filling sample.maxPerCrashPoint [0, length - 1]
      (rankedPositions sample k length) (keptPositions sample k length) := by
    rw [keptPositions_eq, hstart]
    exact Filling.loop (by simp; omega) _
  have hlt : ∀ i ∈ keptPositions sample k length, i < length := by
    intro i hi
    rcases hkeeps.subset i hi with hi | hi
    · simp at hi
      omega
    · exact mem_rankedPositions.mp hi
  have hle := hkeeps.length_le
  have hge : sample.maxPerCrashPoint ≤ (keptPositions sample k length).length := by
    refine hkeeps.filled.elim id fun hall => hlength.le.trans ?_
    have hrange : List.range length ⊆ keptPositions sample k length := fun i hi =>
      hall (mem_rankedPositions.mpr (List.mem_range.mp hi))
    have hcount := (List.nodup_range.subperm hrange).length_le
    rw [List.length_range] at hcount
    exact_mod_cast hcount
  refine ⟨hkeeps.nodup, hlt, le_antisymm ?_ (Nat.ceil_le.mpr hge)⟩
  simp only [List.length_cons, List.length_nil] at hle
  omega

/-- The first of some ascending positions is the least one. -/
lemma head?_of_ascending {ps : List ℕ} (hasc : ps.Pairwise (· < ·)) (hzero : 0 ∈ ps) :
    ps.head? = some 0 := by
  cases ps with
  | nil => cases hzero
  | cons p ps =>
      rcases List.mem_cons.mp hzero with rfl | hlater
      · rfl
      · exact absurd (List.rel_of_pairwise_cons hasc hlater) (Nat.not_lt_zero p)

/-- The last of them is the greatest one. -/
lemma getLast?_of_ascending {ps : List ℕ} {n : ℕ} (hasc : ps.Pairwise (· < ·))
    (hle : ∀ p ∈ ps, p ≤ n) (hmem : n ∈ ps) : ps.getLast? = some n := by
  induction ps using List.reverseRecOn with
  | nil => cases hmem
  | append_singleton ps p =>
      rw [List.getLast?_concat, Option.some.injEq]
      have hp : p ≤ n := hle p (List.mem_append_right _ (List.mem_singleton_self p))
      rcases List.mem_append.mp hmem with hbefore | hlast
      · have hlt := (List.pairwise_append.mp hasc).2.2 n hbefore p (List.mem_singleton_self p)
        omega
      · exact (List.mem_singleton.mp hlast).symm

/-- An exact cut of a group: some of its states in order, the first and the last
one among them, and as many as the cap allows. A cap that is no whole number
counts as the next one. -/
structure Cut (cap : ℚ) (group cut : List CrashState) : Prop where
  sublist : cut.Sublist group
  length_eq : cut.length = min ⌈cap⌉₊ group.length
  first : cut.head? = group.head?
  last : cut.getLast? = group.getLast?

/-- **One group** is cut down to the cap. -/
lemma cut_sampleGroup (hcap : 2 ≤ sample.maxPerCrashPoint) :
    Cut sample.maxPerCrashPoint group (sampleGroup sample k group) := by
  rw [sampleGroup]
  split
  · next hshort =>
      have hle : group.length ≤ ⌈sample.maxPerCrashPoint⌉₊ :=
        Nat.cast_le.mp (hshort.trans (Nat.le_ceil _))
      exact ⟨List.Sublist.refl _, (min_eq_right hle).symm, rfl, rfl⟩
  · next hlong =>
      rw [not_le] at hlong
      obtain ⟨hnodup, hlt, hlength⟩ := keptPositions_spec (k := k) hcap hlong
      have hpos : 0 < group.length := by exact_mod_cast (by linarith : (0 : ℚ) < group.length)
      have hkept : ∀ i, i = 0 ∨ i = group.length - 1 →
          i ∈ (keptPositions sample k group.length).insertionSort (· ≤ ·) := fun i hi =>
        (List.mem_insertionSort _).mpr (mem_keptPositions hi)
      have hasc : ((keptPositions sample k group.length).insertionSort (· ≤ ·)).Pairwise (· < ·) :=
        pairwise_lt_insertionSort hnodup
      have hsorted : ((keptPositions sample k group.length).insertionSort (· ≤ ·)).length =
          ⌈sample.maxPerCrashPoint⌉₊ := by rw [List.length_insertionSort, hlength]
      replace hlt : ∀ p ∈ (keptPositions sample k group.length).insertionSort (· ≤ ·),
          p < group.length := fun p hp => hlt p ((List.mem_insertionSort _).mp hp)
      replace hsorted : ((keptPositions sample k group.length).insertionSort (· ≤ ·)).length =
          min ⌈sample.maxPerCrashPoint⌉₊ group.length := by
        rw [hsorted, min_eq_left (Nat.ceil_le.mpr hlong.le)]
      have hhead := head?_of_ascending hasc (hkept 0 (.inl rfl))
      have hlast := getLast?_of_ascending hasc (fun p hp => Nat.le_sub_one_of_lt (hlt p hp))
        (hkept _ (.inr rfl))
      refine ⟨filterMap_getElem?_sublist hasc hlt, ?_, ?_, ?_⟩
      · rw [length_filterMap_getElem? hlt, hsorted]
      · rw [head?_filterMap_getElem? hlt, hhead, List.head?_eq_getElem?]
        rfl
      · rw [getLast?_filterMap_getElem? hlt, hlast, List.getLast?_eq_getElem?]
        rfl

lemma sampleGroup_nil : sampleGroup sample k [] = [] := by
  rw [sampleGroup]
  split <;> simp

/-- The states of a group are those of one crash point. -/
lemma crashPoint_of_mem_entries {entry : ℕ × List CrashState}
    (h : entry ∈ (stateGroups states).entries) :
    entry.2 = states.filter (·.crashPoint = entry.1) := by
  have hget := OrderedMap.mem_entries_iff.mp h
  rw [get?_stateGroups] at hget
  split at hget
  · cases hget
  · exact (Option.some.inj hget).symm

lemma crashPoint_of_mem_sampleGroup {entry : ℕ × List CrashState} {s : CrashState}
    (h : entry ∈ (stateGroups states).entries) (hs : s ∈ sampleGroup sample entry.1 entry.2) :
    s.crashPoint = entry.1 := by
  have hmem := mem_of_mem_sampleGroup hs
  rw [crashPoint_of_mem_entries h] at hmem
  exact of_decide_eq_true (List.mem_filter.mp hmem).2

/-- **The sample of one crash point** is that of its own states. -/
lemma filter_sampleStates : (sampleStates states sample).filter (·.crashPoint = k) =
    sampleGroup sample k (states.filter (·.crashPoint = k)) := by
  have hfilter : ∀ entries : List (ℕ × List CrashState),
      (∀ entry ∈ entries, entry ∈ (stateGroups states).entries) →
      (entries.map Prod.fst).Nodup →
      (entries.flatMap fun entry => sampleGroup sample entry.1 entry.2).filter
          (·.crashPoint = k) =
        if k ∈ entries.map Prod.fst then sampleGroup sample k (states.filter (·.crashPoint = k))
        else [] := by
    intro entries hentries hnodup
    induction entries with
    | nil => rfl
    | cons entry entries ih =>
        rw [List.map_cons, List.nodup_cons] at hnodup
        rw [List.flatMap_cons, List.filter_append,
          ih (fun e he => hentries e (List.mem_cons_of_mem _ he)) hnodup.2]
        have hstates : ∀ s ∈ sampleGroup sample entry.1 entry.2, s.crashPoint = entry.1 :=
          fun s => crashPoint_of_mem_sampleGroup (hentries entry List.mem_cons_self)
        by_cases hk : entry.1 = k
        · subst hk
          have hall : (sampleGroup sample entry.1 entry.2).filter (·.crashPoint = entry.1) =
              sampleGroup sample entry.1 entry.2 :=
            List.filter_eq_self.mpr fun s hs => by simpa using hstates s hs
          rw [hall, if_neg hnodup.1, List.append_nil, List.map_cons, if_pos List.mem_cons_self,
            crashPoint_of_mem_entries (hentries entry List.mem_cons_self)]
        · have hnone : (sampleGroup sample entry.1 entry.2).filter (·.crashPoint = k) = [] :=
            List.filter_eq_nil_iff.mpr fun s hs => by simpa [hstates s hs] using hk
          rw [hnone, List.nil_append, List.map_cons]
          simp only [List.mem_cons, Ne.symm hk, false_or]
  have hperm := List.perm_insertionSort (fun a b : ℕ × List CrashState => a.1 ≤ b.1)
    (stateGroups states).entries
  rw [sampleStates, hfilter _ (fun entry => hperm.mem_iff.mp)
    ((hperm.map Prod.fst).nodup_iff.mpr (stateGroups states).nodup)]
  split
  · rfl
  · next hmissing =>
      rw [(hperm.map Prod.fst).mem_iff] at hmissing
      have hnone := OrderedMap.get?_eq_none_iff.mpr hmissing
      rw [get?_stateGroups] at hnone
      split at hnone
      · next hempty => rw [hempty, sampleGroup_nil]
      · cases hnone

/-- The crash points of a sample ascend. -/
lemma pairwise_sampleStates :
    ((sampleStates states sample).map (·.crashPoint)).Pairwise (· ≤ ·) := by
  have htotal : Std.Total fun a b : ℕ × List CrashState => a.1 ≤ b.1 := ⟨fun a b => le_total _ _⟩
  have htrans : IsTrans (ℕ × List CrashState) fun a b => a.1 ≤ b.1 := ⟨fun _ _ _ => le_trans⟩
  have hsorted := List.pairwise_insertionSort (fun a b : ℕ × List CrashState => a.1 ≤ b.1)
    (stateGroups states).entries
  have hstates : ∀ entry ∈ (stateGroups states).entries.insertionSort (·.1 ≤ ·.1),
      ∀ s ∈ sampleGroup sample entry.1 entry.2, s.crashPoint = entry.1 := fun entry hentry s =>
    crashPoint_of_mem_sampleGroup ((List.mem_insertionSort _).mp hentry)
  rw [List.pairwise_map, sampleStates, List.pairwise_flatMap]
  refine ⟨fun entry hentry => List.pairwise_of_forall_mem_list fun s hs s' hs' => ?_, ?_⟩
  · rw [hstates entry hentry s hs, hstates entry hentry s' hs']
  · refine hsorted.imp_of_mem fun {entry entry'} h h' hle s hs s' hs' => ?_
    rw [hstates entry h s hs, hstates entry' h' s' hs']
    exact hle

end Samples

/-! ### The sample of an enumeration -/

/-- No unpinned operation of the window is on disk, all others are. -/
def LeastState (events : List TraceEvent) (W k : ℕ) (s : CrashState) : Prop :=
  s.crashPoint = k ∧ s.partials = [] ∧ ∀ i, i ∈ s.persisted ↔
    i ∈ CrashPoint.issued events W k ∧ i ∉ CrashPoint.window events W k

/-- Every issued operation is on disk. -/
def GreatestState (events : List TraceEvent) (W k : ℕ) (s : CrashState) : Prop :=
  s.crashPoint = k ∧ s.partials = [] ∧ ∀ i, i ∈ s.persisted ↔ i ∈ CrashPoint.issued events W k

section Extremes

variable {events : List TraceEvent} {enumeration : EnumerateOptions} {states : List CrashState}
  {k W : ℕ}

lemma leastState_alwaysPresent (hW : 1 ≤ W) :
    LeastState events W k ⟨k, CrashPoint.alwaysPresent events W k, []⟩ := by
  refine ⟨rfl, rfl, fun i => ⟨fun hi => ?_, fun ⟨hissued, hwindow⟩ => ?_⟩⟩
  · exact ⟨CrashPoint.alwaysPresent_subset_issued hi,
      CrashPoint.notMem_window_of_alwaysPresent hW hi⟩
  · rcases CrashPoint.mem_issued.mp hissued with hpinned | hfree
    · exact CrashPoint.mem_alwaysPresent.mpr (.inl hpinned)
    · have hold := (CrashPoint.mem_older_or_window hfree).resolve_right hwindow
      exact CrashPoint.mem_alwaysPresent.mpr (.inr hold)

variable {s : CrashState}

/-- The group of a crash point repeats its states. -/
lemma exists_group_eq (hok : enumerateCrashStates trace enumeration = .ok states)
    (hk : k ∈ enumeration.crashPoints.getD (List.range trace.events.length)) :
    ∃ n, states.filter (·.crashPoint = k) = (List.replicate (n + 1) k).flatMap
      (CrashPoint.states trace.events enumeration.model enumeration.bounds) := by
  obtain ⟨-, rfl⟩ := enumerateFrom_eq_ok.mp hok
  obtain ⟨n, hn⟩ := Nat.exists_eq_succ_of_ne_zero (List.count_pos_iff.mpr hk).ne'
  exact ⟨n, by rw [filter_flatMap_states, hn]⟩

/-- The group starts with the first state of the crash point, -/
lemma head?_group (hok : enumerateCrashStates trace enumeration = .ok states)
    (hk : k ∈ enumeration.crashPoints.getD (List.range trace.events.length))
    (hhead : (CrashPoint.states trace.events enumeration.model enumeration.bounds k).head? =
      some s) : (states.filter (·.crashPoint = k)).head? = some s := by
  obtain ⟨n, hgroup⟩ := exists_group_eq hok hk
  rw [hgroup, List.replicate_succ, List.flatMap_cons, List.head?_append, hhead, Option.some_or]

/-- and ends with its last one. -/
lemma getLast?_group (hok : enumerateCrashStates trace enumeration = .ok states)
    (hk : k ∈ enumeration.crashPoints.getD (List.range trace.events.length))
    (hlast : (CrashPoint.states trace.events enumeration.model enumeration.bounds k).getLast? =
      some s) : (states.filter (·.crashPoint = k)).getLast? = some s := by
  obtain ⟨n, hgroup⟩ := exists_group_eq hok hk
  rw [hgroup, List.replicate_succ', List.flatMap_append, List.flatMap_singleton,
    List.getLast?_append, hlast, Option.some_or]

end Extremes

/-- **Sampling** is an exact, order-preserving, local cut that keeps both
extremes of each crash point, which for an enumeration under a reordering model
are the states with least and most on disk. -/
theorem sampling_spec (states : List CrashState) (sample : SampleOptions)
    (hcap : 2 ≤ sample.maxPerCrashPoint) :
    ((sampleStates states sample).map (·.crashPoint)).Pairwise (· ≤ ·) ∧
    (∀ k, Cut sample.maxPerCrashPoint (states.filter (·.crashPoint = k))
      ((sampleStates states sample).filter (·.crashPoint = k))) ∧
    (∀ others k, others.filter (·.crashPoint = k) = states.filter (·.crashPoint = k) →
      (sampleStates others sample).filter (·.crashPoint = k) =
        (sampleStates states sample).filter (·.crashPoint = k)) ∧
    ∀ (trace : Trace) (enumeration : EnumerateOptions) (W : ℕ),
      enumeration.model.totalOrder = false → enumeration.bounds.maxUnpersistedWindow = W →
      1 ≤ W → W ≤ 30 → enumerateCrashStates trace enumeration = .ok states →
      ∀ k ∈ enumeration.crashPoints.getD (List.range trace.events.length),
        (∃ s ∈ sampleStates states sample, LeastState trace.events W k s) ∧
          ∃ s ∈ sampleStates states sample, GreatestState trace.events W k s := by
  refine ⟨pairwise_sampleStates, fun k => ?_, fun others k hsame => ?_,
    fun trace enumeration W hmodel hbounds hW hW' hok k hk => ?_⟩
  · rw [filter_sampleStates]
    exact cut_sampleGroup hcap
  · rw [filter_sampleStates, filter_sampleStates, hsame]
  · have hhead := head?_group hok hk (head_states hmodel hbounds hW hW')
    have hlast := getLast?_group hok hk (getLast_states hmodel hbounds hW hW')
    exact ⟨⟨_, mem_sampleStates (.inl hhead), leastState_alwaysPresent hW⟩,
      ⟨_, mem_sampleStates (.inr hlast), rfl, rfl, fun _ => Iff.rfl⟩⟩

/-- A sample of two states of the resized file. -/
theorem sampling_resize : ∃ states,
    enumerateCrashStates resizeTrace (lastPoint xfs) = .ok states ∧
      Cut 2 (states.filter (·.crashPoint = 2))
        ((sampleStates states ⟨2, 1⟩).filter (·.crashPoint = 2)) ∧
      (∃ s ∈ sampleStates states ⟨2, 1⟩, LeastState resizeTrace.events 8 2 s) ∧
        ∃ s ∈ sampleStates states ⟨2, 1⟩, GreatestState resizeTrace.events 8 2 s := by
  have hok : ∃ states, enumerateCrashStates resizeTrace (lastPoint xfs) = .ok states :=
    ⟨_, enumerateFrom_eq_ok.mpr ⟨by decide, rfl⟩⟩
  obtain ⟨states, hok⟩ := hok
  have hspec := sampling_spec states ⟨2, 1⟩ le_rfl
  exact ⟨states, hok, hspec.2.1 2,
    hspec.2.2.2 resizeTrace (lastPoint xfs) 8 rfl rfl (by decide) (by decide) hok 2 (by decide)⟩

end CrashFuzz
