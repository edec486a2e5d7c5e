import CrashFuzz.Enumerate.Issued

/-!
The states of a crash point come from the events up to it.

* `AgreeTo`: two logs have the same events up to a position.
* `AgreeTo.pinned_iff`, `AgreeTo.applied_iff`: what the enumerator reads of one.
* `states_congr`: they have the same states there, and `replaySelection_congr`:
  a state is replayed by the same calls.
* `emittedAt_upTo`, `replaySelection_upTo`: so a crash point of a run is the
  last one of the run that stopped there.
-/

namespace CrashFuzz

open Subsets

/-- Two logs have the same events up to position `k`. -/
def AgreeTo (k : ℕ) (events events' : List TraceEvent) : Prop := ∀ i ≤ k, events[i]? = events'[i]?

lemma agreeTo_take (k : ℕ) (events : List TraceEvent) : AgreeTo k (events.take (k + 1)) events :=
  fun i hi => List.getElem?_take_of_lt (by omega)

namespace AgreeTo

variable {events events' : List TraceEvent} {k i : ℕ}

lemma applied_iff (h : AgreeTo k events events') (hi : i ≤ k) :
    Applied events i ↔ Applied events' i := by
  rw [Applied, Applied, h i hi]

/-- What pins an operation at `k` was issued by then. -/
lemma pinned_iff (h : AgreeTo k events events') : Pinned events k i ↔ Pinned events' k i := by
  have hhere : ∀ {e e' : List TraceEvent}, AgreeTo k e e' → Pinned e k i → Pinned e' k i := by
    rintro e e' h ⟨m, hm, hmut, f, hif, hfk, he⟩
    rw [h i (by omega)] at hm
    rw [h f hfk] at he
    exact ⟨m, hm, hmut, f, hif, hfk, he⟩
  exact ⟨hhere h, hhere fun i hi => (h i hi).symm⟩

lemma samePathBefore_iff (h : AgreeTo k events events') {t j : ℕ} (ht : t ≤ k) :
    SamePathBefore events t j ↔ SamePathBefore events' t j := by
  rw [SamePathBefore, SamePathBefore, h t ht]
  refine and_congr_right fun hj => ?_
  rw [h j (hj.le.trans ht)]

/-- The legality filter reads what precedes the operations it is asked about. -/
lemma existsOnDisk_eq (h : AgreeTo k events events') {persisted : List ℕ}
    (hle : ∀ t ∈ persisted, t ≤ k) :
    existsOnDisk events persisted = existsOnDisk events' persisted := by
  rw [Bool.eq_iff_iff, existsOnDisk_iff, existsOnDisk_iff]
  refine forall₂_congr fun t ht => ?_
  rw [ResizesAt, ResizesAt, h t (hle t ht)]
  simp only [h.samePathBefore_iff (hle t ht)]

end AgreeTo

namespace CrashPoint

variable {events events' : List TraceEvent} {model : FilesystemModel} {bounds : Bounds} {k : ℕ}
  {W : ℤ}

lemma free_congr (h : AgreeTo k events events') : free events k = free events' k := by
  rw [free_eq, free_eq]
  refine List.filter_congr fun j hj => ?_
  rw [decide_eq_decide, h.applied_iff (Nat.lt_succ_iff.mp (List.mem_range.mp hj)), h.pinned_iff]

lemma window_congr (h : AgreeTo k events events') : window events W k = window events' W k := by
  rw [window, window, free_congr h]

lemma alwaysPresent_congr (h : AgreeTo k events events') :
    alwaysPresent events W k = alwaysPresent events' W k := by
  refine sortedSet_eq_iff.mpr fun a => ?_
  rw [List.mem_append, List.mem_append, mem_pinnedBy, mem_pinnedBy, h.pinned_iff, older, older,
    free_congr h]

/-- The torn variants of operations up to the crash point. -/
lemma tornStates_congr (h : AgreeTo k events events') {ws persisted : List ℕ}
    (hle : ∀ i ∈ ws, i ≤ k) : tornStates events ws k persisted =
      tornStates events' ws k persisted := by
  rw [tornStates, tornStates, List.flatMap_def, List.flatMap_def]
  congr 1
  refine List.map_congr_left fun i hi => ?_
  rw [h i (hle i hi)]

/-- **The states of a crash point** only depend on the events up to it. -/
lemma states_congr (h : AgreeTo k events events') :
    states events model bounds k = states events' model bounds k := by
  have hpersisted : ∀ mask, persistedOf events bounds.maxUnpersistedWindow k mask =
      persistedOf events' bounds.maxUnpersistedWindow k mask := fun mask => by
    rw [persistedOf, persistedOf, alwaysPresent_congr h, window_congr h]
  have hpre : prefixStates events bounds.maxUnpersistedWindow k =
      prefixStates events' bounds.maxUnpersistedWindow k := by
    rw [prefixStates, prefixStates, issued, issued, alwaysPresent_congr h, window_congr h]
  have hmask : maskStates events bounds k = maskStates events' bounds k := by
    simp only [maskStates, ← window_congr h, ← hpersisted]
    refine List.flatMap_congr fun mask _ => ?_
    have hissued : ∀ i ∈ persistedOf events bounds.maxUnpersistedWindow k mask, i ≤ k :=
      fun i hi => le_of_mem_issued (mem_issued_of_mem_persistedOf hi)
    rw [← h.existsOnDisk_eq hissued, ← tornStates_congr h]
    exact fun i hi => (mem_free.mp (window_sublist.subset hi)).1
  rw [states, states, hpre, hmask]

variable {s : CrashState} {i : ℕ}

/-- A state selects operations up to its crash point. -/
lemma le_of_selects (hs : s ∈ states events model bounds k) (hi : s.selection.Selects i) :
    i ≤ k := by
  rcases hi with hi | ⟨t, ht, rfl⟩
  · exact le_of_mem_issued (persisted_subset_issued hs hi)
  · exact (mem_free.mp (window_sublist.subset (torn_window hs ht).1)).1

end CrashPoint

variable {trace : Trace} {model : FilesystemModel} {bounds : Bounds} {k : ℕ} {s : CrashState}

lemma events_upTo (trace : Trace) (k : ℕ) : (trace.upTo k).events = trace.events.take (k + 1) := rfl

/-- **What is emitted** at a crash point is emitted of the run that stopped there. -/
lemma emittedAt_upTo : EmittedAt (trace.upTo k) model bounds k s ↔
    EmittedAt trace model bounds k s := by
  rw [emittedAt_iff, emittedAt_iff, events_upTo, List.length_take, lt_min_iff,
    CrashPoint.states_congr (agreeTo_take k trace.events)]
  exact and_congr_left fun _ => ⟨fun h => h.2, fun h => ⟨Nat.lt_succ_self k, h⟩⟩

/-- A position of the run that stopped makes the same calls. -/
lemma callsAt_upTo {selection : Selection} {options : ReplayOptions} {i : ℕ} (hi : i ≤ k) :
    selection.callsAt options (trace.upTo k) i = selection.callsAt options trace i := by
  rw [Selection.callsAt, Selection.callsAt, events_upTo, agreeTo_take k trace.events i hi]

/-- **A state is replayed** by the same calls. -/
lemma replaySelection_upTo (hs : s ∈ CrashPoint.states trace.events model bounds k)
    (hk : k < trace.events.length) (options : ReplayOptions) :
    replaySelection options (trace.upTo k) s.selection =
      replaySelection options trace s.selection := by
  have hlength : (trace.upTo k).events.length = k + 1 := by
    rw [events_upTo, List.length_take, min_eq_left hk]
  obtain ⟨later, hlater⟩ := Nat.exists_eq_add_of_le (Nat.succ_le_of_lt hk)
  -- the positions after the crash point make no calls
  have hnone : ((List.range later).map (k + 1 + ·)).flatMap
      (s.selection.callsAt options trace) = [] := by
    rw [List.flatMap_eq_nil_iff]
    intro i hi
    obtain ⟨j, -, rfl⟩ := List.mem_map.mp hi
    exact callsAt_of_not_selects fun h => absurd (CrashPoint.le_of_selects hs h) (by omega)
  rw [replaySelection_eq, replaySelection_eq, hlength, hlater,
    @List.range_add (k + 1) later, List.flatMap_append, hnone, List.append_nil]
  congr 1
  refine List.flatMap_congr fun i hi => ?_
  exact callsAt_upTo (Nat.lt_succ_iff.mp (List.mem_range.mp hi))

end CrashFuzz
