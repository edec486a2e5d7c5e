import CrashFuzz.Enumerate.States
import CrashFuzz.Lib.PosixPath

/-!
The durability floor: which operations every state of a crash point contains.

* `existsOnDisk_of_closed`: the legality filter admits every selection that is
  closed under earlier operations on the same path; the least selection
  (`alwaysPresent_closed`) and every prefix of the issued operations
  (`take_issued_closed`) are.
* `alwaysPresent_subset`, `persisted_subset_issued`: every state lies between
  the least selection and the issued operations.
* `persisted_forall_iff`: an issued operation is in every state exactly when it
  is `Unavoidable`, which is stated in terms of the trace alone.
-/

namespace CrashFuzz

open Subsets

variable {events : List TraceEvent} {k i : ℕ} {W : ℤ}

/-! ### The legality filter -/

/-- Position `j` holds an earlier successful mutation recorded on the path of
position `t`. -/
def SamePathBefore (events : List TraceEvent) (t j : ℕ) : Prop :=
  j < t ∧ ∃ e ∈ events[t]?, ∃ c ∈ events[j]?,
    c.path = e.path ∧ c.call ∈ mutating ∧ 0 ≤ c.returnValue

/-- Position `t` holds a size change. -/
def ResizesAt (events : List TraceEvent) (t : ℕ) : Prop :=
  ∃ e ∈ events[t]?, e.call ∈ needsExistingFile

lemma SamePathBefore.applied {t j : ℕ} (h : SamePathBefore events t j) : Applied events j := by
  obtain ⟨-, -, -, c, hc, -, hmut, hret⟩ := h
  exact ⟨c, hc, hmut, hret⟩

/-- The filter in terms of the trace. -/
lemma existsOnDisk_iff {persisted : List ℕ} : existsOnDisk events persisted = true ↔
    ∀ t ∈ persisted, ResizesAt events t → (∃ j, SamePathBefore events t j) →
      ∃ j ∈ persisted, SamePathBefore events t j := by
  rw [existsOnDisk, List.all_eq_true]
  refine forall₂_congr fun t _ => ?_
  cases hev : events[t]? with
  | none => simp [ResizesAt, hev]
  | some e =>
      by_cases hcall : e.call ∈ needsExistingFile
      · have hbefore : ∀ j, SamePathBefore events t j ↔
            j ∈ (List.range t).filter fun j => ∃ candidate ∈ events[j]?,
              candidate.path = e.path ∧ candidate.call ∈ mutating ∧
                ¬ candidate.returnValue < 0 := by
          intro j
          simp [SamePathBefore, hev]
        simp only [hcall, not_true_eq_false, if_false, hbefore, ResizesAt, hev, Option.mem_def,
          Option.some.injEq, exists_eq_left', true_implies]
        generalize (List.range t).filter _ = candidates
        cases candidates with
        | nil => simp
        | cons c cs =>
            have hcs : (∃ x ∈ cs, x ∈ persisted) ↔ ∃ x ∈ persisted, x ∈ cs :=
              exists_congr fun _ => and_comm
            simp [and_or_left, exists_or, hcs]
      · simp [hcall, ResizesAt, hev]

/-- A selection closed under earlier operations on the same path is legal. -/
lemma existsOnDisk_of_closed {persisted : List ℕ}
    (h : ∀ t ∈ persisted, ∀ j, SamePathBefore events t j → j ∈ persisted) :
    existsOnDisk events persisted = true :=
  existsOnDisk_iff.mpr fun t ht _ ⟨j, hj⟩ => ⟨j, h t ht j hj, hj⟩

/-- What precedes a pinned operation on its path is pinned. -/
lemma Pinned.of_samePathBefore {t j : ℕ} (h : Pinned events k t)
    (hj : SamePathBefore events t j) : Pinned events k j := by
  obtain ⟨m, hm, -, f, htf, hfk, p, hp, hpers, hret, hpath⟩ := h
  obtain ⟨hjt, e, he, c, hc, hce, hmut, -⟩ := hj
  obtain rfl : m = e := Option.mem_unique hm he
  exact ⟨c, hc, hmut, f, hjt.trans htf, hfk, p, hp, hpers, hret, hce.trans hpath⟩

namespace CrashPoint

lemma le_of_mem_issued (h : i ∈ issued events W k) : i ≤ k := by
  rcases mem_issued.mp h with h | h
  · exact h.lt.le
  · exact (mem_free.mp h).1

lemma mem_issued_of_applied (hi : i ≤ k) (h : Applied events i) : i ∈ issued events W k := by
  by_cases hp : Pinned events k i
  · exact mem_issued.mpr (Or.inl hp)
  · exact mem_issued.mpr (Or.inr (mem_free.mpr ⟨hi, h, hp⟩))

/-- Being older than the window is inherited by earlier unpinned operations. -/
lemma older_of_lt {j : ℕ} (h : i ∈ older events W k) (hj : j ∈ free events k) (hji : j < i) :
    j ∈ older events W k := by
  obtain ⟨-, hcount⟩ := mem_older.mp h
  have hsub : ((free events k).filter (i < ·)).Sublist ((free events k).filter (j < ·)) := by
    have hfilter : (free events k).filter (i < ·) =
        ((free events k).filter (j < ·)).filter (i < ·) := by
      rw [List.filter_filter]
      refine List.filter_congr fun a _ => ?_
      by_cases ha : i < a
      · simp [ha, hji.trans ha]
      · simp [ha]
    rw [hfilter]
    exact List.filter_sublist
  have hlen := hsub.length_le
  exact mem_older.mpr ⟨hj, by omega⟩

/-- The least selection is closed. -/
lemma alwaysPresent_closed {t j : ℕ} (ht : t ∈ alwaysPresent events W k)
    (hj : SamePathBefore events t j) : j ∈ alwaysPresent events W k := by
  rcases mem_alwaysPresent.mp ht with h | h
  · exact mem_alwaysPresent.mpr (Or.inl (h.of_samePathBefore hj))
  · by_cases hp : Pinned events k j
    · exact mem_alwaysPresent.mpr (Or.inl hp)
    · have htk := (mem_free.mp (mem_older.mp h).1).1
      have hjfree := mem_free.mpr ⟨hj.1.le.trans htk, hj.applied, hp⟩
      exact mem_alwaysPresent.mpr (Or.inr (older_of_lt h hjfree hj.1))

/-- Every prefix of the issued operations is closed. -/
lemma take_issued_closed {n t j : ℕ} (ht : t ∈ (issued events W k).take n)
    (hj : SamePathBefore events t j) : j ∈ (issued events W k).take n := by
  have htk := le_of_mem_issued ((List.take_sublist _ _).subset ht)
  have hjissued := mem_issued_of_applied (W := W) (hj.1.le.trans htk) hj.applied
  exact mem_take_of_lt pairwise_issued hjissued ht hj.1

/-! ### What every state contains -/

variable {model : FilesystemModel} {bounds : Bounds} {s : CrashState}

/-- Pinned and older operations are in every state. -/
lemma alwaysPresent_subset (hs : s ∈ states events model bounds k)
    (hi : i ∈ alwaysPresent events bounds.maxUnpersistedWindow k) : i ∈ s.persisted := by
  rw [states] at hs
  split at hs
  · obtain ⟨n, -, rfl, hall⟩ := mem_prefixStates.mp hs
    exact hall i hi
  · have hmask : ∀ mask, i ∈ persistedOf events bounds.maxUnpersistedWindow k mask :=
      fun mask => mem_persistedOf.mpr (Or.inl hi)
    obtain ⟨mask, -, -, rfl | ⟨-, htorn⟩⟩ := mem_maskStates.mp hs
    · exact hmask mask
    · obtain ⟨op, -, -, event, -, bytes, -, rfl⟩ := mem_tornStates.mp htorn
      exact hmask mask

lemma mem_issued_of_mem_persistedOf {mask : ℕ} (hi : i ∈ persistedOf events W k mask) :
    i ∈ issued events W k := by
  rcases mem_persistedOf.mp hi with h | h
  · exact alwaysPresent_subset_issued h
  · exact mem_issued.mpr (Or.inr (window_sublist.subset ((pick_sublist _ _).subset h)))

/-- No state holds an operation that was not issued. -/
lemma persisted_subset_issued (hs : s ∈ states events model bounds k) (hi : i ∈ s.persisted) :
    i ∈ issued events bounds.maxUnpersistedWindow k := by
  rw [states] at hs
  split at hs
  · obtain ⟨n, -, rfl, -⟩ := mem_prefixStates.mp hs
    exact (List.take_sublist _ _).subset hi
  · obtain ⟨mask, -, -, rfl | ⟨-, htorn⟩⟩ := mem_maskStates.mp hs
    · exact mem_issued_of_mem_persistedOf hi
    · obtain ⟨op, -, -, event, -, bytes, -, rfl⟩ := mem_tornStates.mp htorn
      exact mem_issued_of_mem_persistedOf hi

/-- A torn operation belongs to the window and is not persisted. -/
lemma torn_window (hs : s ∈ states events model bounds k) {t : TornOp} (ht : t ∈ s.partials) :
    t.op ∈ window events bounds.maxUnpersistedWindow k ∧ t.op ∉ s.persisted := by
  rw [states] at hs
  split at hs
  · obtain ⟨n, -, rfl, -⟩ := mem_prefixStates.mp hs
    simp at ht
  · obtain ⟨mask, -, -, rfl | ⟨-, htorn⟩⟩ := mem_maskStates.mp hs
    · simp at ht
    · obtain ⟨op, hop, hnot, event, -, bytes, -, rfl⟩ := mem_tornStates.mp htorn
      obtain rfl : t = ⟨op, bytes⟩ := by simpa using ht
      exact ⟨hop, hnot⟩

/-- Mask `0` keeps only what is always present. -/
lemma persistedOf_zero : persistedOf events W k 0 = alwaysPresent events W k := by
  have hpick : pick (bitAnd32 0) (window events W k) = [] := by
    rw [pick_congr (q := Nat.testBit 0), pick_zero]
    intro i _
    simp [bitAnd32]
  rw [persistedOf, hpick, List.append_nil]
  exact (pairwise_alwaysPresent.imp fun h => h.le).insertionSort_eq

/-- The least selection is a state, as soon as any mask is visited. -/
lemma least_mem_states (hmodel : model.totalOrder = false)
    (hmasks : (window events bounds.maxUnpersistedWindow k).length % 32 ≠ 31) :
    ⟨k, alwaysPresent events bounds.maxUnpersistedWindow k, []⟩ ∈
      states events model bounds k := by
  rw [states, hmodel, if_neg (by simp)]
  refine mem_maskStates.mpr ⟨0, (maskCount_pos_iff _).mpr hmasks, ?_, Or.inl ?_⟩
  · rw [persistedOf_zero]
    exact existsOnDisk_of_closed fun t ht j hj => alwaysPresent_closed ht hj
  · rw [persistedOf_zero]

/-- When the shift of the loop limit reaches the sign bit there is no state. -/
lemma states_eq_nil (hmodel : model.totalOrder = false)
    (hmasks : (window events bounds.maxUnpersistedWindow k).length % 32 = 31) :
    states events model bounds k = [] := by
  have hzero : maskCount (window events bounds.maxUnpersistedWindow k).length = 0 := by
    by_contra hne
    exact (maskCount_pos_iff _).mp (Nat.pos_of_ne_zero hne) hmasks
  simp [states, hmodel, maskStates, hzero]

/-- All issued operations together are a state of a total-order model. -/
lemma issued_mem_states (hmodel : model.totalOrder = true) :
    ⟨k, issued events bounds.maxUnpersistedWindow k, []⟩ ∈ states events model bounds k := by
  rw [states, if_pos hmodel]
  refine mem_prefixStates.mpr ⟨_, le_rfl, by rw [List.take_length], ?_⟩
  intro a ha
  rw [List.take_length]
  exact alwaysPresent_subset_issued ha

end CrashPoint

/-! ### Unavoidable operations -/

instance (events : List TraceEvent) (k i : ℕ) : Decidable (Pinned events k i) :=
  decidable_of_iff _ mem_pinnedBy

/-- The number of unpinned successful mutations issued up to `k`. -/
def unpinnedCount (events : List TraceEvent) (k : ℕ) : ℕ :=
  ((List.range (k + 1)).filter fun j => Applied events j ∧ ¬ Pinned events k j).length

/-- The number of those issued after `i`. -/
def laterUnpinned (events : List TraceEvent) (k i : ℕ) : ℕ :=
  ((List.range (k + 1)).filter fun j => i < j ∧ Applied events j ∧ ¬ Pinned events k j).length

/-- The size of the window a bound `W` leaves out of `n` unpinned operations. -/
def windowSize (W : ℤ) (n : ℕ) : ℕ := if 0 < W then min W.toNat n else n - (-W).toNat

/-- Operation `i` is pinned, or at least `W` unpinned ones follow it. -/
def AlwaysKept (events : List TraceEvent) (W : ℤ) (k i : ℕ) : Prop :=
  Pinned events k i ∨ (i ≤ k ∧ Applied events i ∧ W ≤ laterUnpinned events k i)

/-- Nothing the enumerator emits at `k` can lack operation `i`: it is always
kept, or the model is totally ordered and a later operation is always kept, or
the model reorders and the window has a size at which the 32-bit loop limit
`1 << size` is negative, so that nothing is emitted at all. -/
def Unavoidable (model : FilesystemModel) (events : List TraceEvent) (W : ℤ) (k i : ℕ) : Prop :=
  AlwaysKept events W k i ∨
    (model.totalOrder = true ∧ ∃ a, i < a ∧ AlwaysKept events W k a) ∨
    (model.totalOrder = false ∧ windowSize W (unpinnedCount events k) % 32 = 31)

namespace CrashPoint

lemma free_eq : free events k =
    (List.range (k + 1)).filter fun j => Applied events j ∧ ¬ Pinned events k j := by
  rw [free]
  refine List.filter_congr fun j _ => ?_
  rw [decide_eq_decide, mem_pinnedBy]
  simp [Applied]

lemma length_free : (free events k).length = unpinnedCount events k := by
  rw [free_eq, unpinnedCount]

lemma length_later : ((free events k).filter (i < ·)).length = laterUnpinned events k i := by
  rw [free_eq, laterUnpinned, List.filter_filter]
  congr 1
  refine List.filter_congr fun j _ => ?_
  simp

lemma length_window : (window events W k).length = windowSize W (unpinnedCount events k) := by
  rw [window, sliceFrom, List.length_drop, length_free, sliceIndex, windowSize]
  split <;> split <;> omega

lemma mem_alwaysPresent_iff : i ∈ alwaysPresent events W k ↔ AlwaysKept events W k i := by
  rw [mem_alwaysPresent, AlwaysKept, mem_older, length_later, mem_free]
  by_cases hp : Pinned events k i
  · simp [hp]
  · simp [hp, and_assoc]

end CrashPoint

/-- **What every state contains**: an issued operation is in each state of a
crash point exactly when it is unavoidable. -/
theorem persisted_forall_iff {model : FilesystemModel} {bounds : Bounds}
    (hi : i ∈ CrashPoint.issued events bounds.maxUnpersistedWindow k) :
    (∀ s ∈ CrashPoint.states events model bounds k, i ∈ s.persisted) ↔
      Unavoidable model events bounds.maxUnpersistedWindow k i := by
  rw [Unavoidable, ← CrashPoint.mem_alwaysPresent_iff, ← CrashPoint.length_window]
  cases hmodel : model.totalOrder with
  | false =>
      simp only [Bool.false_eq_true, false_and, true_and, false_or]
      constructor
      · intro h
        by_cases hmasks :
            (CrashPoint.window events bounds.maxUnpersistedWindow k).length % 32 = 31
        · exact Or.inr hmasks
        · exact Or.inl (h _ (CrashPoint.least_mem_states hmodel hmasks))
      · rintro (h | h) s hs
        · exact CrashPoint.alwaysPresent_subset hs h
        · rw [CrashPoint.states_eq_nil hmodel h] at hs
          simp at hs
  | true =>
      simp only [Bool.true_eq_false, true_and, false_and, or_false]
      constructor
      · intro h
        by_contra hno
        push Not at hno
        -- the prefix that stops right before `i`
        set pre := (CrashPoint.issued events bounds.maxUnpersistedWindow k).takeWhile (· < i)
          with hpre
        have htake := List.prefix_iff_eq_take.mp (List.takeWhile_prefix (· < i)
          (l := CrashPoint.issued events bounds.maxUnpersistedWindow k))
        have hmem : (⟨k, pre, []⟩ : CrashState) ∈ CrashPoint.states events model bounds k := by
          rw [CrashPoint.states, if_pos hmodel]
          refine CrashPoint.mem_prefixStates.mpr ⟨pre.length, ?_, by rw [← htake], ?_⟩
          · exact (List.takeWhile_sublist _).length_le
          · intro a ha
            rw [← htake, mem_takeWhile_lt CrashPoint.pairwise_issued]
            refine ⟨CrashPoint.alwaysPresent_subset_issued ha, ?_⟩
            rcases Nat.lt_trichotomy a i with hlt | rfl | hgt
            · exact hlt
            · exact absurd ha hno.1
            · exact absurd (CrashPoint.mem_alwaysPresent_iff.mp ha) (hno.2 a hgt)
        have := ((mem_takeWhile_lt CrashPoint.pairwise_issued).mp (h _ hmem)).2
        exact lt_irrefl _ this
      · rintro (h | ⟨a, hia, ha⟩) s hs
        · exact CrashPoint.alwaysPresent_subset hs h
        · have has := CrashPoint.alwaysPresent_subset hs (CrashPoint.mem_alwaysPresent_iff.mpr ha)
          rw [CrashPoint.states, if_pos hmodel] at hs
          obtain ⟨n, -, rfl, -⟩ := CrashPoint.mem_prefixStates.mp hs
          exact mem_take_of_lt CrashPoint.pairwise_issued hi has hia

end CrashFuzz
