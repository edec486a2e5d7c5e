import CrashFuzz.Enumerate.Floor

/-!
The state space of one crash point, for traces whose mutating calls all
succeeded and window bounds from `1` to `30`.

* `Legal`: what a set of operations must satisfy to be on disk after a crash,
  in terms of the trace alone.
* `mem_untorn_iff`: the masks reach exactly the selections between the least
  one and the issued operations that the filter admits.
* `reorderingSpace`: a reordering model emits each legal set once, from the
  least one to the greatest.
* `prefixSpace`: a total-order model emits the prefixes among them, each of
  which every reordering model emits as well.
-/

namespace CrashFuzz

open Subsets

variable {events : List TraceEvent} {model : FilesystemModel} {bounds : Bounds} {k W : ℕ}

/-! ### Legal sets of operations -/

/-- The positions up to `k` of mutating events. -/
def issuedMutations (events : List TraceEvent) (k : ℕ) : List ℕ :=
  (List.range (k + 1)).filter fun i => ∃ e ∈ events[i]?, e.call ∈ mutating

/-- Those that a successful persistence call on the same path follows by `k`. -/
def floorMutations (events : List TraceEvent) (k : ℕ) : List ℕ :=
  (issuedMutations events k).filter fun i => Pinned events k i

/-- The other ones. -/
def freeMutations (events : List TraceEvent) (k : ℕ) : List ℕ :=
  (issuedMutations events k).filter fun i => ¬ Pinned events k i

/-- All of the free mutations but the last `W`. -/
def olderMutations (events : List TraceEvent) (W k : ℕ) : List ℕ :=
  (freeMutations events k).take ((freeMutations events k).length - W)

/-- Position `j` holds a mutating event recorded before `t` on the path of `t`. -/
def EarlierMutation (events : List TraceEvent) (t j : ℕ) : Prop :=
  j < t ∧ ∃ e ∈ events[t]?, ∃ c ∈ events[j]?, c.path = e.path ∧ c.call ∈ mutating

/-- A set of operations, listed in ascending order, that a crash at `k` may
leave on disk. -/
structure Legal (events : List TraceEvent) (W k : ℕ) (persisted : List ℕ) : Prop where
  ascending : persisted.Pairwise (· < ·)
  floor : ∀ i ∈ floorMutations events k, i ∈ persisted
  older : ∀ i ∈ olderMutations events W k, i ∈ persisted
  issued : ∀ i ∈ persisted, i ∈ issuedMutations events k
  /-- No size change of a file is kept whose earlier operations are all lost. -/
  resized : ∀ t ∈ persisted, ResizesAt events t → (∃ j, EarlierMutation events t j) →
    ∃ j ∈ persisted, EarlierMutation events t j

/-- Every mutating call of the trace succeeded. -/
def AllSucceeded (events : List TraceEvent) : Prop :=
  ∀ e ∈ events, e.call ∈ mutating → 0 ≤ e.returnValue

namespace AllSucceeded

variable (hall : AllSucceeded events)

include hall

lemma applied_iff {i : ℕ} : Applied events i ↔ ∃ e ∈ events[i]?, e.call ∈ mutating := by
  refine exists_congr fun e => and_congr_right fun he => and_iff_left_of_imp fun hcall => ?_
  exact hall e (List.mem_of_getElem? he) hcall

lemma mem_issued_iff {V : ℤ} {i : ℕ} :
    i ∈ CrashPoint.issued events V k ↔ i ∈ issuedMutations events k := by
  rw [CrashPoint.mem_issued, CrashPoint.mem_free, hall.applied_iff, issuedMutations,
    List.mem_filter, List.mem_range, decide_eq_true_eq, Nat.lt_succ_iff]
  constructor
  · rintro (h | h)
    · obtain ⟨m, hm, hmut, -⟩ := id h
      exact ⟨h.lt.le, m, hm, hmut⟩
    · exact ⟨h.1, h.2.1⟩
  · rintro ⟨hik, hi⟩
    by_cases hp : Pinned events k i
    · exact Or.inl hp
    · exact Or.inr ⟨hik, hi, hp⟩

lemma issued_eq {V : ℤ} : CrashPoint.issued events V k = issuedMutations events k :=
  eq_of_mem_iff CrashPoint.pairwise_issued (List.pairwise_lt_range.filter _)
    fun _ => hall.mem_issued_iff

lemma free_eq : CrashPoint.free events k = freeMutations events k := by
  refine eq_of_mem_iff CrashPoint.pairwise_free
    ((List.pairwise_lt_range.filter _).filter _) fun i => ?_
  rw [CrashPoint.mem_free, hall.applied_iff, freeMutations, issuedMutations, List.mem_filter,
    List.mem_filter, List.mem_range, Nat.lt_succ_iff, decide_eq_true_eq, decide_eq_true_eq,
    and_assoc]

lemma older_eq : CrashPoint.older events W k = olderMutations events W k := by
  rw [CrashPoint.older, sliceTo, hall.free_eq, olderMutations, sliceIndex, if_neg (by omega)]
  congr 1
  omega

/-- The least selection consists of the floor and the older mutations. -/
lemma mem_alwaysPresent_iff {i : ℕ} : i ∈ CrashPoint.alwaysPresent events W k ↔
    i ∈ floorMutations events k ∨ i ∈ olderMutations events W k := by
  rw [CrashPoint.mem_alwaysPresent, hall.older_eq, floorMutations, List.mem_filter,
    decide_eq_true_eq]
  refine or_congr_left (iff_and_self.mpr fun h => ?_)
  exact (hall.mem_issued_iff (V := W)).mp (CrashPoint.mem_issued.mpr (Or.inl h))

lemma samePathBefore_iff {t j : ℕ} : SamePathBefore events t j ↔ EarlierMutation events t j := by
  refine and_congr_right fun _ => exists_congr fun e => and_congr_right fun _ =>
    exists_congr fun c => and_congr_right fun hc => ?_
  exact ⟨fun h => ⟨h.1, h.2.1⟩, fun h => ⟨h.1, h.2, hall c (List.mem_of_getElem? hc) h.2⟩⟩

end AllSucceeded

/-! ### The selections the masks reach -/

namespace CrashPoint

variable {persisted : List ℕ} {mask : ℕ}

/-- The issued operations do not depend on the window. -/
lemma issued_eq_issued (V V' : ℤ) : issued events V k = issued events V' k :=
  eq_of_mem_iff pairwise_issued pairwise_issued fun _ => by rw [mem_issued, mem_issued]

lemma length_window_le (hW : 1 ≤ W) : (window events W k).length ≤ W := by
  rw [length_window, windowSize, if_pos (by omega)]
  omega

/-- A window bound of at most `30` keeps the loop limit a power of two. -/
lemma maskCount_window (hW : 1 ≤ W) (hW' : W ≤ 30) :
    maskCount (window events W k).length = 2 ^ (window events W k).length :=
  maskCount_eq ((length_window_le hW).trans hW')

lemma mem_persistedOf_iff {V : ℤ} (hlen : (window events V k).length ≤ 30) {i : ℕ} :
    i ∈ persistedOf events V k mask ↔
      i ∈ alwaysPresent events V k ∨ i ∈ pick mask.testBit (window events V k) := by
  rw [mem_persistedOf, pick_congr (q := mask.testBit)]
  exact fun j hj => bitAnd32_eq (by omega)

lemma notMem_window_of_alwaysPresent (hW : 1 ≤ W) {i : ℕ}
    (hi : i ∈ alwaysPresent events W k) : i ∉ window events W k := by
  rcases mem_alwaysPresent.mp hi with h | h
  · exact fun hw => (mem_free.mp (window_sublist.subset hw)).2.2 h
  · exact notMem_window_of_older (by omega) h

/-- Each selection is listed in ascending order. -/
lemma pairwise_persistedOf (hW : 1 ≤ W) : (persistedOf events W k mask).Pairwise (· < ·) := by
  have hnodup : ∀ {xs : List ℕ}, xs.Pairwise (· < ·) → xs.Nodup := List.Pairwise.imp ne_of_lt
  refine pairwise_lt_insertionSort (List.nodup_append'.mpr ⟨hnodup pairwise_alwaysPresent,
    hnodup (pairwise_window.sublist (pick_sublist _ _)), fun i hi hpick => ?_⟩)
  exact notMem_window_of_alwaysPresent hW hi ((pick_sublist _ _).subset hpick)

/-- Different masks select different sets. -/
lemma persistedOf_inj (hW : 1 ≤ W) (hW' : W ≤ 30) {mask' : ℕ}
    (h : mask < 2 ^ (window events W k).length) (h' : mask' < 2 ^ (window events W k).length)
    (heq : persistedOf events W k mask = persistedOf events W k mask') : mask = mask' := by
  have hpick : ∀ {m m' : ℕ}, persistedOf events W k m = persistedOf events W k m' →
      ∀ i ∈ pick m.testBit (window events W k), i ∈ pick m'.testBit (window events W k) := by
    intro m m' hmm i hi
    have hlen : (window events W k).length ≤ 30 := (length_window_le hW).trans hW'
    have hmem := (mem_persistedOf_iff hlen).mpr (Or.inr hi)
    rw [hmm, mem_persistedOf_iff hlen] at hmem
    refine hmem.resolve_left fun ha => ?_
    exact notMem_window_of_alwaysPresent hW ha ((pick_sublist _ _).subset hi)
  exact mask_inj (pairwise_window.imp ne_of_lt) h h' fun i => ⟨hpick heq i, hpick heq.symm i⟩

/-- A set between the least selection and the issued operations has a mask. -/
lemma exists_mask_of_between {V : ℤ} {P : ℕ → Prop} (hlen : (window events V k).length ≤ 30)
    (hleast : ∀ i ∈ alwaysPresent events V k, P i) (hissued : ∀ i, P i → i ∈ issued events V k) :
    ∃ mask < 2 ^ (window events V k).length, ∀ i, i ∈ persistedOf events V k mask ↔ P i := by
  obtain ⟨mask, hmask, hpick⟩ := exists_mask (pairwise_window.imp ne_of_lt) P
  refine ⟨mask, hmask, fun i => ?_⟩
  rw [mem_persistedOf_iff hlen, hpick]
  constructor
  · rintro (h | ⟨-, h⟩)
    · exact hleast i h
    · exact h
  · intro hi
    rcases mem_issued.mp (hissued i hi) with hp | hf
    · exact Or.inl (mem_alwaysPresent.mpr (Or.inl hp))
    · exact (mem_older_or_window hf).imp (fun h => mem_alwaysPresent.mpr (Or.inr h))
        fun h => ⟨h, hi⟩

/-- A legal set between the least selection and the issued operations is a
state of a reordering model. -/
lemma exists_state_of_between {P : ℕ → Prop} (hmodel : model.totalOrder = false)
    (hlen : (window events bounds.maxUnpersistedWindow k).length ≤ 30)
    (hleast : ∀ i ∈ alwaysPresent events bounds.maxUnpersistedWindow k, P i)
    (hissued : ∀ i, P i → i ∈ issued events bounds.maxUnpersistedWindow k)
    (hlegal : ∀ t, P t → ResizesAt events t → (∃ j, SamePathBefore events t j) →
      ∃ j, P j ∧ SamePathBefore events t j) :
    ∃ persisted, ⟨k, persisted, []⟩ ∈ states events model bounds k ∧
      ∀ i, i ∈ persisted ↔ P i := by
  obtain ⟨mask, hmask, hmem⟩ := exists_mask_of_between hlen hleast hissued
  refine ⟨_, ?_, hmem⟩
  rw [states, hmodel, if_neg (by simp), mem_maskStates, maskCount_eq hlen]
  refine ⟨mask, hmask, existsOnDisk_iff.mpr fun t ht hresize hbefore => ?_, Or.inl rfl⟩
  obtain ⟨j, hj, hjt⟩ := hlegal t ((hmem t).mp ht) hresize hbefore
  exact ⟨j, (hmem j).mpr hj, hjt⟩

/-- A selection between the least one and the issued operations has a mask. -/
lemma exists_persistedOf (hW : 1 ≤ W) (hW' : W ≤ 30) (hasc : persisted.Pairwise (· < ·))
    (hleast : ∀ i ∈ alwaysPresent events W k, i ∈ persisted)
    (hissued : ∀ i ∈ persisted, i ∈ issued events W k) :
    ∃ mask < 2 ^ (window events W k).length, persistedOf events W k mask = persisted := by
  obtain ⟨mask, hmask, hmem⟩ :=
    exists_mask_of_between ((length_window_le hW).trans hW') hleast hissued
  exact ⟨mask, hmask, eq_of_mem_iff (pairwise_persistedOf hW) hasc hmem⟩

/-- The last mask selects every issued operation. -/
lemma persistedOf_last (hW : 1 ≤ W) (hW' : W ≤ 30) :
    persistedOf events W k (2 ^ (window events W k).length - 1) = issued events W k := by
  refine eq_of_mem_iff (pairwise_persistedOf hW) pairwise_issued fun i => ?_
  rw [mem_persistedOf_iff ((length_window_le hW).trans hW'), pick_full, issued, mem_sortedSet,
    List.mem_append]

/-- The untorn states of a crash point, mask by mask. -/
lemma filter_untorn (hmodel : model.totalOrder = false) (hbounds : bounds.maxUnpersistedWindow = W)
    (hW : 1 ≤ W) (hW' : W ≤ 30) :
    ((states events model bounds k).filter (·.partials = [])).map (·.persisted) =
      ((List.range (2 ^ (window events W k).length)).map (persistedOf events W k)).filter
        (existsOnDisk events) := by
  rw [states, hmodel, if_neg (by simp), maskStates, hbounds, maskCount_window hW hW']
  generalize List.range _ = masks
  induction masks with
  | nil => rfl
  | cons mask masks ih =>
      have htorn : (tornStates events (window events W k) k (persistedOf events W k mask)).filter
          (·.partials = []) = [] := by
        rw [List.filter_eq_nil_iff]
        intro s hs
        obtain ⟨op, -, -, event, -, bytes, -, rfl⟩ := mem_tornStates.mp hs
        simp
      rw [List.flatMap_cons, List.filter_append, List.map_append, ih, List.map_cons]
      cases hdisk : existsOnDisk events (persistedOf events W k mask) with
      | false => simp [hdisk]
      | true => cases bounds.tornWrites <;> simp [hdisk, htorn]

end CrashPoint

/-! ### Reordering models -/

/-- A selection the filter admits, between the least one and the issued
operations, is a legal set, and conversely. -/
lemma AllSucceeded.legal_iff (hall : AllSucceeded events) {persisted : List ℕ} :
    Legal events W k persisted ↔ persisted.Pairwise (· < ·) ∧
      (∀ i ∈ CrashPoint.alwaysPresent events W k, i ∈ persisted) ∧
      (∀ i ∈ persisted, i ∈ CrashPoint.issued events W k) ∧
      existsOnDisk events persisted = true := by
  simp only [existsOnDisk_iff, hall.samePathBefore_iff, hall.mem_alwaysPresent_iff,
    hall.mem_issued_iff]
  constructor
  · rintro ⟨hasc, hfloor, holder, hissued, hresized⟩
    exact ⟨hasc, fun i hi => hi.elim (hfloor i) (holder i), hissued, hresized⟩
  · rintro ⟨hasc, hleast, hissued, hresized⟩
    exact ⟨hasc, fun i hi => hleast i (Or.inl hi), fun i hi => hleast i (Or.inr hi), hissued,
      hresized⟩

/-- The `persisted` lists of the states that tear no write. -/
def untorn (states : List CrashState) : List (List ℕ) :=
  (states.filter (·.partials = [])).map (·.persisted)

lemma mem_untorn_of_mem {states : List CrashState} {persisted : List ℕ}
    (h : ⟨k, persisted, []⟩ ∈ states) : persisted ∈ untorn states :=
  List.mem_map.mpr ⟨_, List.mem_filter.mpr ⟨h, by simp⟩, rfl⟩

/-- The untorn states of a crash point are the legal sets, each once. -/
lemma mem_untorn_iff (hall : AllSucceeded events) (hmodel : model.totalOrder = false)
    (hbounds : bounds.maxUnpersistedWindow = W) (hW : 1 ≤ W) (hW' : W ≤ 30)
    {persisted : List ℕ} :
    persisted ∈ untorn (CrashPoint.states events model bounds k) ↔
      Legal events W k persisted := by
  rw [untorn, CrashPoint.filter_untorn hmodel hbounds hW hW', List.mem_filter, List.mem_map,
    hall.legal_iff]
  constructor
  · rintro ⟨⟨mask, -, rfl⟩, hdisk⟩
    exact ⟨CrashPoint.pairwise_persistedOf hW,
      fun i hi => CrashPoint.mem_persistedOf.mpr (Or.inl hi),
      fun i hi => CrashPoint.mem_issued_of_mem_persistedOf hi, hdisk⟩
  · rintro ⟨hasc, hleast, hissued, hdisk⟩
    obtain ⟨mask, hmask, rfl⟩ := CrashPoint.exists_persistedOf hW hW' hasc hleast hissued
    exact ⟨⟨mask, List.mem_range.mpr hmask, rfl⟩, hdisk⟩

lemma nodup_untorn (hmodel : model.totalOrder = false)
    (hbounds : bounds.maxUnpersistedWindow = W) (hW : 1 ≤ W) (hW' : W ≤ 30) :
    (untorn (CrashPoint.states events model bounds k)).Nodup := by
  rw [untorn, CrashPoint.filter_untorn hmodel hbounds hW hW']
  refine List.Nodup.filter _ (List.Nodup.map_on (fun m hm m' hm' => ?_) List.nodup_range)
  exact CrashPoint.persistedOf_inj hW hW' (List.mem_range.mp hm) (List.mem_range.mp hm')

/-- The state space of a reordering model at one crash point. -/
structure ReorderingSpace (events : List TraceEvent) (W k : ℕ) (states : List CrashState) :
    Prop where
  distinct : (untorn states).Nodup
  legal : ∀ persisted, persisted ∈ untorn states ↔ Legal events W k persisted
  first : ∃ least, states.head? = some ⟨k, least, []⟩ ∧ Legal events W k least ∧
    ∀ persisted, Legal events W k persisted → ∀ i ∈ least, i ∈ persisted
  last : states.getLast? = some ⟨k, issuedMutations events k, []⟩ ∧
    Legal events W k (issuedMutations events k)

/-- The first state of a crash point keeps only what is always present. -/
lemma head_states (hmodel : model.totalOrder = false)
    (hbounds : bounds.maxUnpersistedWindow = W) (hW : 1 ≤ W) (hW' : W ≤ 30) :
    (CrashPoint.states events model bounds k).head? =
      some ⟨k, CrashPoint.alwaysPresent events W k, []⟩ := by
  have hpos := Nat.two_pow_pos (CrashPoint.window events W k).length
  have hdisk : existsOnDisk events (CrashPoint.alwaysPresent events W k) = true :=
    existsOnDisk_of_closed fun t ht j hj => CrashPoint.alwaysPresent_closed ht hj
  rw [CrashPoint.states, hmodel, if_neg (by simp), CrashPoint.maskStates, hbounds,
    CrashPoint.maskCount_window hW hW', List.range_eq_range', ← Nat.succ_pred hpos.ne',
    List.range'_succ, List.flatMap_cons, CrashPoint.persistedOf_zero]
  simp [hdisk]

/-- The last one keeps every issued operation, and tears none. -/
lemma getLast_states (hmodel : model.totalOrder = false)
    (hbounds : bounds.maxUnpersistedWindow = W) (hW : 1 ≤ W) (hW' : W ≤ 30) :
    (CrashPoint.states events model bounds k).getLast? =
      some ⟨k, CrashPoint.issued events W k, []⟩ := by
  have hpos := Nat.two_pow_pos (CrashPoint.window events W k).length
  have hdisk : existsOnDisk events (CrashPoint.issued events W k) = true :=
    existsOnDisk_of_closed fun t ht j hj => by
      rw [← List.take_length (l := CrashPoint.issued events W k)] at ht ⊢
      exact CrashPoint.take_issued_closed ht hj
  have htorn : CrashPoint.tornStates events (CrashPoint.window events W k) k
      (CrashPoint.issued events W k) = [] := by
    rw [CrashPoint.tornStates, List.flatMap_eq_nil_iff]
    intro op hop
    rw [if_pos (CrashPoint.mem_issued.mpr (Or.inr (CrashPoint.window_sublist.subset hop)))]
  rw [CrashPoint.states, hmodel, if_neg (by simp), CrashPoint.maskStates, hbounds,
    CrashPoint.maskCount_window hW hW', ← Nat.succ_pred hpos.ne', List.range_succ,
    List.flatMap_append, List.flatMap_singleton, Nat.pred_eq_sub_one,
    CrashPoint.persistedOf_last hW hW']
  simp [hdisk, htorn]

variable {trace : Trace} {options : EnumerateOptions}

/-- **The crash states of a reordering model**: at each crash point, every
legal set occurs once among the untorn states, the least one first and all
issued mutations last. -/
theorem reorderingSpace (hall : AllSucceeded trace.events)
    (hmodel : options.model.totalOrder = false)
    (hbounds : options.bounds.maxUnpersistedWindow = W) (hW : 1 ≤ W) (hW' : W ≤ 30)
    (hks : ∀ j ∈ options.crashPoints.getD (List.range trace.events.length),
      j < trace.events.length)
    (hk : (options.crashPoints.getD (List.range trace.events.length)).count k = 1) :
    ∃ out, enumerateCrashStates trace options = .ok out ∧
      ReorderingSpace trace.events W k (out.filter (·.crashPoint = k)) := by
  obtain ⟨out, hok, hout⟩ := exists_enumerateCrashStates hks hk
  have hlegal : ∀ persisted, persisted ∈ untorn (CrashPoint.states trace.events options.model
      options.bounds k) ↔ Legal trace.events W k persisted :=
    fun _ => mem_untorn_iff hall hmodel hbounds hW hW'
  have hhead : (CrashPoint.states trace.events options.model options.bounds k).head? =
      some ⟨k, CrashPoint.alwaysPresent trace.events W k, []⟩ := head_states hmodel hbounds hW hW'
  have hlast : (CrashPoint.states trace.events options.model options.bounds k).getLast? =
      some ⟨k, CrashPoint.issued trace.events W k, []⟩ := getLast_states hmodel hbounds hW hW'
  rw [hall.issued_eq] at hlast
  refine ⟨out, hok, ?_⟩
  rw [hout]
  refine ⟨nodup_untorn hmodel hbounds hW hW', hlegal, ⟨_, hhead, ?_, ?_⟩, hlast, ?_⟩
  · exact (hlegal _).mp (mem_untorn_of_mem (List.mem_of_head? hhead))
  · exact fun persisted h => (hall.legal_iff.mp h).2.1
  · exact (hlegal _).mp (mem_untorn_of_mem (List.mem_of_getLast? hlast))

/-- Two writes around a size change. -/
def resizeTrace : Trace where
  header := ⟨1, 1⟩
  events := [callAt 0 .write "/db/a", callAt 1 .ftruncate "/db/a", callAt 2 .write "/db/b"]
  markers := []

/-- Options that enumerate one crash point, after the second write. -/
def lastPoint (model : FilesystemModel) : EnumerateOptions := ⟨model, ⟨true, 8⟩, some [2]⟩

theorem reorderingSpace_resize : ∃ out,
    enumerateCrashStates resizeTrace (lastPoint xfs) = .ok out ∧
      ReorderingSpace resizeTrace.events 8 2 (out.filter (·.crashPoint = 2)) := by
  have hall : AllSucceeded resizeTrace.events := by simp [AllSucceeded, resizeTrace, callAt]
  exact reorderingSpace hall rfl rfl (by decide) (by decide) (by decide) (by decide)

/-! ### Total-order models -/

/-- The state space of a total-order model at one crash point. -/
structure PrefixSpace (events : List TraceEvent) (W k : ℕ) (states : List CrashState) : Prop where
  distinct : states.Nodup
  prefixes : ∀ s, s ∈ states ↔ ∃ persisted, s = ⟨k, persisted, []⟩ ∧
    persisted <+: issuedMutations events k ∧ (∀ i ∈ floorMutations events k, i ∈ persisted) ∧
      ∀ i ∈ olderMutations events W k, i ∈ persisted

lemma nodup_prefixStates {V : ℤ} : (CrashPoint.prefixStates events V k).Nodup := by
  have hmap : CrashPoint.prefixStates events V k =
      ((List.range ((CrashPoint.issued events V k).length + 1)).filter fun n =>
        (CrashPoint.alwaysPresent events V k).all
          (· ∈ (CrashPoint.issued events V k).take n)).map
        fun n => ⟨k, (CrashPoint.issued events V k).take n, []⟩ := by
    rw [CrashPoint.prefixStates]
    generalize List.range _ = ns
    induction ns with
    | nil => rfl
    | cons n ns ih =>
        rw [List.flatMap_cons, ih, List.filter_cons]
        by_cases h : (CrashPoint.alwaysPresent events V k).all
            (· ∈ (CrashPoint.issued events V k).take n) = true
        · rw [if_pos h, if_pos h, List.map_cons, List.singleton_append]
        · rw [if_neg h, if_neg h, List.nil_append]
  rw [hmap]
  refine List.Nodup.map_on (fun n hn n' hn' heq => ?_) (List.nodup_range.filter _)
  have hlen := congrArg List.length (congrArg CrashState.persisted heq)
  have hle := List.mem_range.mp (List.mem_filter.mp hn).1
  have hle' := List.mem_range.mp (List.mem_filter.mp hn').1
  simp only [List.length_take] at hlen
  omega

/-- A prefix of the issued mutations above the least selection is legal: the
filter the prefix branch leaves out would admit it. -/
lemma AllSucceeded.legal_of_prefix (hall : AllSucceeded events) {persisted : List ℕ}
    (hpre : persisted <+: issuedMutations events k)
    (hfloor : ∀ i ∈ floorMutations events k, i ∈ persisted)
    (holder : ∀ i ∈ olderMutations events W k, i ∈ persisted) : Legal events W k persisted := by
  have hissued := hall.issued_eq (k := k) (V := W)
  rw [← hissued] at hpre
  refine hall.legal_iff.mpr ⟨CrashPoint.pairwise_issued.sublist hpre.sublist, ?_,
    fun i hi => hpre.subset hi, existsOnDisk_of_closed fun t ht j hj => ?_⟩
  · exact fun i hi => (hall.mem_alwaysPresent_iff.mp hi).elim (hfloor i) (holder i)
  · rw [List.prefix_iff_eq_take.mp hpre] at ht ⊢
    exact CrashPoint.take_issued_closed ht hj

/-- **The crash states of a total-order model**: the program-order prefixes
above the least selection, each once, each a state of every reordering model
with the same bounds. -/
theorem prefixSpace (hall : AllSucceeded trace.events) (hmodel : options.model.totalOrder = true)
    (hbounds : options.bounds.maxUnpersistedWindow = W) (hW : 1 ≤ W) (hW' : W ≤ 30)
    (hks : ∀ j ∈ options.crashPoints.getD (List.range trace.events.length),
      j < trace.events.length)
    (hk : (options.crashPoints.getD (List.range trace.events.length)).count k = 1) :
    ∃ out, enumerateCrashStates trace options = .ok out ∧
      PrefixSpace trace.events W k (out.filter (·.crashPoint = k)) ∧
      ∀ model, model.totalOrder = false → ∀ s ∈ out.filter (·.crashPoint = k),
        EmittedAt trace model options.bounds k s := by
  obtain ⟨out, hok, hout⟩ := exists_enumerateCrashStates hks hk
  have hlt : k < trace.events.length :=
    hks k (List.count_pos_iff.mp (by omega))
  have hmem : ∀ s, s ∈ CrashPoint.states trace.events options.model options.bounds k ↔
      ∃ persisted, s = ⟨k, persisted, []⟩ ∧ persisted <+: issuedMutations trace.events k ∧
        (∀ i ∈ floorMutations trace.events k, i ∈ persisted) ∧
        ∀ i ∈ olderMutations trace.events W k, i ∈ persisted := by
    intro s
    rw [CrashPoint.states, if_pos hmodel, CrashPoint.mem_prefixStates, hbounds, hall.issued_eq]
    simp only [hall.mem_alwaysPresent_iff, or_imp, forall_and]
    constructor
    · rintro ⟨n, -, rfl, hleast⟩
      exact ⟨_, rfl, List.take_prefix _ _, hleast⟩
    · rintro ⟨persisted, rfl, hpre, hleast⟩
      have htake := List.prefix_iff_eq_take.mp hpre
      exact ⟨persisted.length, hpre.length_le, by rw [← htake], by rwa [← htake]⟩
  refine ⟨out, hok, ?_⟩
  rw [hout]
  refine ⟨⟨?_, hmem⟩, fun other hother s hs => ?_⟩
  · rw [CrashPoint.states, if_pos hmodel]
    exact nodup_prefixStates
  · obtain ⟨persisted, rfl, hpre, hfloor, holder⟩ := (hmem s).mp hs
    have hlegal := hall.legal_of_prefix hpre hfloor holder
    obtain ⟨s', hs', rfl⟩ := List.mem_map.mp
      ((mem_untorn_iff hall hother hbounds hW hW').mpr hlegal)
    obtain ⟨hs', htorn⟩ := List.mem_filter.mp hs'
    have hcrash := CrashPoint.crashPoint_of_mem hs'
    have hstate : s' = ⟨k, s'.persisted, []⟩ := by
      obtain ⟨c, p, t⟩ := s'
      simp_all
    exact emittedAt_iff.mpr ⟨hlt, hstate ▸ hs'⟩

theorem prefixSpace_resize : ∃ out,
    enumerateCrashStates resizeTrace (lastPoint ext4Journal) = .ok out ∧
      PrefixSpace resizeTrace.events 8 2 (out.filter (·.crashPoint = 2)) ∧
      ∀ model, model.totalOrder = false → ∀ s ∈ out.filter (·.crashPoint = 2),
        EmittedAt resizeTrace model (lastPoint ext4Journal).bounds 2 s := by
  have hall : AllSucceeded resizeTrace.events := by simp [AllSucceeded, resizeTrace, callAt]
  exact prefixSpace hall rfl rfl (by decide) (by decide) (by decide) (by decide)

end CrashFuzz
