import CrashFuzz.Enumerate.Space

/-!
The arithmetic of the window, for every bound that is a natural number.

* `ExactWindow`: the window is the last operations that are free, as many as the
  bound says, no selection has an operation twice, and the masks visit each
  subset of the window once.
* `exactWindow_iff`: a bound of zero breaks it once something is free, since
  `slice(-0)` is the whole list, and so does a window of more than 30 operations
  under a reordering model, since `1 << n` is a signed 32-bit number.
-/

namespace CrashFuzz

open Subsets

variable {events : List TraceEvent} {model : FilesystemModel} {bounds : Bounds} {k W : ℕ}

namespace CrashPoint

/-- The window a bound of `W` means. -/
def lastFree (events : List TraceEvent) (W k : ℕ) : List ℕ :=
  (free events k).drop ((free events k).length - min W (free events k).length)

/-- What is older than it. -/
def beforeLast (events : List TraceEvent) (W k : ℕ) : List ℕ :=
  (free events k).take ((free events k).length - min W (free events k).length)

lemma older_eq_beforeLast : older events W k = beforeLast events W k := by
  rw [older, sliceTo, beforeLast, sliceIndex, if_neg (by omega)]
  congr 1
  omega

/-- A negated bound of zero counts from the start of the list. -/
lemma window_eq_lastFree_iff :
    window events W k = lastFree events W k ↔ 1 ≤ W ∨ free events k = [] := by
  rw [window, sliceFrom, lastFree, sliceIndex]
  rcases Nat.eq_zero_or_pos W with rfl | hW
  · simp only [Nat.cast_zero, neg_zero, lt_self_iff_false, if_false, Int.toNat_zero, Nat.zero_min,
      Nat.sub_zero, List.drop_zero, List.drop_length, Nat.le_zero, Nat.one_ne_zero, false_or]
  · rw [if_pos (by omega)]
    refine iff_of_true ?_ (.inl hW)
    congr 1
    omega

lemma length_lastFree : (lastFree events W k).length = min W (free events k).length := by
  rw [lastFree, List.length_drop]
  omega

/-- No operation is selected twice when none of the window is always present. -/
lemma nodup_persistedOf {mask : ℕ}
    (hdisj : ∀ i ∈ alwaysPresent events W k, i ∉ window events W k) :
    (persistedOf events W k mask).Nodup := by
  refine (List.perm_insertionSort _ _).nodup_iff.mpr (List.nodup_append'.mpr ⟨?_, ?_, ?_⟩)
  · exact pairwise_alwaysPresent.imp ne_of_lt
  · exact (pairwise_window.sublist (pick_sublist _ _)).imp ne_of_lt
  · exact fun i hi hpick => hdisj i hi ((pick_sublist _ _).subset hpick)

lemma nodup_persisted (hbounds : bounds.maxUnpersistedWindow = W)
    (hone : 1 ≤ W ∨ free events k = []) {s : CrashState} (hs : s ∈ states events model bounds k) :
    s.persisted.Nodup := by
  rw [states] at hs
  split at hs
  · obtain ⟨n, -, rfl, -⟩ := mem_prefixStates.mp hs
    exact (pairwise_issued.sublist (List.take_sublist _ _)).imp ne_of_lt
  · have hdisj : ∀ i ∈ alwaysPresent events W k, i ∉ window events W k := by
      intro i hi hw
      rcases hone with hW | hnil
      · exact notMem_window_of_alwaysPresent hW hi hw
      · exact absurd (hnil ▸ window_sublist.subset hw) List.not_mem_nil
    obtain ⟨mask, -, -, rfl | ⟨-, htorn⟩⟩ := mem_maskStates.mp hs
    · rw [hbounds]
      exact nodup_persistedOf hdisj
    · obtain ⟨op, -, -, event, -, bytes, -, rfl⟩ := mem_tornStates.mp htorn
      rw [hbounds]
      exact nodup_persistedOf hdisj

end CrashPoint

/-- What the window arithmetic is for. -/
structure ExactWindow (events : List TraceEvent) (model : FilesystemModel) (bounds : Bounds)
    (W k : ℕ) : Prop where
  window : CrashPoint.window events W k = CrashPoint.lastFree events W k
  older : CrashPoint.older events W k = CrashPoint.beforeLast events W k
  nodup : ∀ s ∈ CrashPoint.states events model bounds k, s.persisted.Nodup
  /-- The loop over masks visits every subset once. -/
  masks : model.totalOrder = false →
    (picked (CrashPoint.window events W k)).Perm (CrashPoint.window events W k).sublists

/-- **When the window arithmetic is exact.** -/
theorem exactWindow_iff (hbounds : bounds.maxUnpersistedWindow = W) :
    ExactWindow events model bounds W k ↔
      (1 ≤ W ∨ CrashPoint.free events k = []) ∧
        (model.totalOrder = false → min W (CrashPoint.free events k).length ≤ 30) := by
  have hlength : 1 ≤ W ∨ CrashPoint.free events k = [] →
      (CrashPoint.window events W k).length = min W (CrashPoint.free events k).length := by
    intro h
    rw [CrashPoint.window_eq_lastFree_iff.mpr h, CrashPoint.length_lastFree]
  constructor
  · intro h
    have hone := CrashPoint.window_eq_lastFree_iff.mp h.window
    refine ⟨hone, fun hmodel => ?_⟩
    rw [← hlength hone]
    exact (picked_perm_iff CrashPoint.pairwise_window).mp (h.masks hmodel)
  · rintro ⟨hone, hle⟩
    refine ⟨CrashPoint.window_eq_lastFree_iff.mpr hone, CrashPoint.older_eq_beforeLast, ?_, ?_⟩
    · exact fun s hs => CrashPoint.nodup_persisted hbounds hone hs
    · intro hmodel
      rw [picked_perm_iff CrashPoint.pairwise_window, hlength hone]
      exact hle hmodel

/-- A trace of so many writes. -/
def writesTrace (n : ℕ) : List TraceEvent := List.replicate n (callAt 0 .write "/db/a")

theorem exactWindow_write : ExactWindow (writesTrace 3) xfs ⟨true, 2⟩ 2 2 :=
  (exactWindow_iff rfl).mpr ⟨.inl (by decide), fun _ => by decide⟩

/-- With a bound of zero every write is both older than the window and in it, and
selected twice. -/
theorem zero_window_repeats :
    CrashPoint.window (writesTrace 1) 0 0 = [0] ∧ CrashPoint.older (writesTrace 1) 0 0 = [0] ∧
      ⟨0, [0, 0], []⟩ ∈ CrashPoint.states (writesTrace 1) xfs ⟨true, 0⟩ 0 ∧
        ¬ ExactWindow (writesTrace 1) xfs ⟨true, 0⟩ 0 0 := by
  refine ⟨by decide, by decide, by decide, fun h => ?_⟩
  have hnodup := h.nodup ⟨0, [0, 0], []⟩ (by decide)
  exact absurd hnodup (by decide)

end CrashFuzz
