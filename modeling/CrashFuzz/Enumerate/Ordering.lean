import CrashFuzz.Enumerate.Durability
import CrashFuzz.Enumerate.Space

/-!
The ordering flags of the filesystem models, against what the enumerator does.

* `separated_iff`: a reordering model has a state that keeps one
  operation and drops another one exactly when the other one is not always
  kept. `honors_iff` draws the conclusion for a flag that is not read.
* `ordersAppends_iff`: when data is kept with the rename of its file;
  `rename_without_data` is a state of a model that orders the two.
* `ordersDirectories_iff`: when directory operations keep their order;
  `later_directory_first` is a state of a model that never reorders them.
-/

namespace CrashFuzz

variable {trace : Trace} {model : FilesystemModel} {bounds : Bounds} {k i j : ℕ}

/-! ### Keeping one operation without another -/

/-- Every state emitted at `k` that keeps `j` keeps `i`, and not as a prefix of
its payload. -/
def KeptWith (trace : Trace) (model : FilesystemModel) (bounds : Bounds) (k j i : ℕ) : Prop :=
  ∀ s, EmittedAt trace model bounds k s → j ∈ s.persisted →
    i ∈ s.persisted ∧ ∀ t ∈ s.partials, t.op ≠ i

/-- Some state emitted at `k` keeps `j` and drops `i`. -/
def Separated (trace : Trace) (model : FilesystemModel) (bounds : Bounds) (k j i : ℕ) : Prop :=
  ∃ s, EmittedAt trace model bounds k s ∧ j ∈ s.persisted ∧ i ∉ s.persisted

/-- A torn operation counts as dropped. -/
lemma keptWith_iff : KeptWith trace model bounds k j i ↔ ¬ Separated trace model bounds k j i := by
  rw [Separated]
  push Not
  refine forall₃_congr fun s hs _ => and_iff_left_of_imp fun hi t ht heq => ?_
  exact (CrashPoint.torn_window (emittedAt_iff.mp hs).2 ht).2 (heq ▸ hi)

/-- Program order keeps what was issued earlier. -/
lemma keptWith_of_totalOrder (hmodel : model.totalOrder = true) (hij : i < j)
    (hi : Applied trace.events i) : KeptWith trace model bounds k j i := by
  refine keptWith_iff.mpr ?_
  rintro ⟨s, hs, hj, hnot⟩
  have hmem := (emittedAt_iff.mp hs).2
  have hjk := CrashPoint.le_of_mem_issued (CrashPoint.persisted_subset_issued hmem hj)
  rw [CrashPoint.states, if_pos hmodel] at hmem
  obtain ⟨n, -, rfl, -⟩ := CrashPoint.mem_prefixStates.mp hmem
  refine hnot (Subsets.mem_take_of_lt CrashPoint.pairwise_issued ?_ hj hij)
  exact CrashPoint.mem_issued_of_applied (hij.le.trans hjk) hi

/-- So does what every state keeps. -/
lemma keptWith_of_alwaysKept
    (h : AlwaysKept trace.events bounds.maxUnpersistedWindow k i) :
    KeptWith trace model bounds k j i := by
  refine keptWith_iff.mpr ?_
  rintro ⟨s, hs, -, hnot⟩
  exact hnot (CrashPoint.alwaysPresent_subset (emittedAt_iff.mp hs).2
    (CrashPoint.mem_alwaysPresent_iff.mpr h))

/-- **What a reordering model separates**: an operation that is no size change
is kept without another one exactly when the other one is not always kept. -/
theorem separated_iff (hmodel : model.totalOrder = false)
    (hwindow : windowSize bounds.maxUnpersistedWindow (unpinnedCount trace.events k) ≤ 30)
    (hk : k < trace.events.length) (hjk : j ≤ k) (hij : i ≠ j) (hj : Applied trace.events j)
    (hresize : ¬ ResizesAt trace.events j) :
    Separated trace model bounds k j i ↔
      ¬ AlwaysKept trace.events bounds.maxUnpersistedWindow k i := by
  constructor
  · rintro hsep h
    exact keptWith_iff.mp (keptWith_of_alwaysKept h) hsep
  · intro h
    rw [← CrashPoint.mem_alwaysPresent_iff] at h
    -- the least selection and `j`
    have hissued : ∀ m, m ∈ CrashPoint.alwaysPresent trace.events bounds.maxUnpersistedWindow k ∨
        m = j → m ∈ CrashPoint.issued trace.events bounds.maxUnpersistedWindow k := by
      rintro m (hm | rfl)
      · exact CrashPoint.alwaysPresent_subset_issued hm
      · exact CrashPoint.mem_issued_of_applied hjk hj
    obtain ⟨persisted, hs, hmem⟩ := CrashPoint.exists_state_of_between hmodel
      (by rwa [CrashPoint.length_window]) (fun m hm => Or.inl hm) hissued
      fun t ht hres hbefore => by
        rcases ht with ht | rfl
        · obtain ⟨c, hc⟩ := hbefore
          exact ⟨c, Or.inl (CrashPoint.alwaysPresent_closed ht hc), hc⟩
        · exact absurd hres hresize
    refine ⟨_, emittedAt_iff.mpr ⟨hk, hs⟩, (hmem j).mpr (Or.inr rfl), fun hi => ?_⟩
    exact ((hmem i).mp hi).elim h hij

/-! ### An ordering flag -/

/-- Positions of operations of which the first one was issued before the other
one, which is no size change. -/
def Issues (events : List TraceEvent) (before : ℕ → ℕ → Prop) : Prop :=
  ∀ i j, before i j → i < j ∧ Applied events i ∧ Applied events j ∧ ¬ ResizesAt events j

/-- A flag that orders certain operations is honored at `k`: where it is set,
the later one is kept with the earlier one; where it is not, a reordering model
keeps the later one without an earlier one that nothing else keeps. -/
structure Honors (before : ℕ → ℕ → Prop) (flag : Bool) (trace : Trace) (model : FilesystemModel)
    (bounds : Bounds) (k : ℕ) : Prop where
  ordered : flag = true → ∀ i j, before i j → KeptWith trace model bounds k j i
  free : flag = false → model.totalOrder = false → ∀ i j, before i j → j ≤ k →
    ¬ AlwaysKept trace.events bounds.maxUnpersistedWindow k i → Separated trace model bounds k j i

/-- Program order keeps the earlier ones, or each is kept by a floor. -/
def KeptAnyway (before : ℕ → ℕ → Prop) (trace : Trace) (model : FilesystemModel)
    (bounds : Bounds) (k : ℕ) : Prop :=
  model.totalOrder = true ∨ ∀ i j, before i j → j ≤ k →
    AlwaysKept trace.events bounds.maxUnpersistedWindow k i

lemma KeptAnyway.keptWith {before : ℕ → ℕ → Prop} (h : KeptAnyway before trace model bounds k)
    (hissues : Issues trace.events before) (hij : before i j) :
    KeptWith trace model bounds k j i := by
  obtain ⟨hlt, hi, -, -⟩ := hissues i j hij
  rcases h with htotal | hkept
  · exact keptWith_of_totalOrder htotal hlt hi
  · by_cases hjk : j ≤ k
    · exact keptWith_of_alwaysKept (hkept i j hij hjk)
    · intro s hs hj
      have hissued := CrashPoint.persisted_subset_issued (emittedAt_iff.mp hs).2 hj
      exact absurd (CrashPoint.le_of_mem_issued hissued) hjk

/-- Where a flag is honored that the enumerator does not read. -/
lemma honors_iff {before : ℕ → ℕ → Prop} {flag : Bool} (hissues : Issues trace.events before)
    (hk : k < trace.events.length) (hbounds : model.totalOrder = true ∨
      windowSize bounds.maxUnpersistedWindow (unpinnedCount trace.events k) ≤ 30) :
    Honors before flag trace model bounds k ↔
      (flag = true → KeptAnyway before trace model bounds k) := by
  have hseparated : model.totalOrder = false → ∀ i j, before i j → j ≤ k →
      ¬ AlwaysKept trace.events bounds.maxUnpersistedWindow k i →
        Separated trace model bounds k j i := by
    intro hmodel i j hij hjk hnot
    obtain ⟨hlt, -, hj, hresize⟩ := hissues i j hij
    have hwindow := hbounds.resolve_left (by simp [hmodel])
    exact (separated_iff hmodel hwindow hk hjk hlt.ne hj hresize).mpr hnot
  constructor
  · intro h hflag
    cases hmodel : model.totalOrder with
    | true => exact Or.inl hmodel
    | false =>
        refine Or.inr fun i j hij hjk => ?_
        by_contra hnot
        exact keptWith_iff.mp (h.ordered hflag i j hij) (hseparated hmodel i j hij hjk hnot)
  · intro h
    exact ⟨fun hflag i j hij => (h hflag).keptWith hissues hij, fun _ => hseparated⟩

/-! ### Appends and renames -/

/-- Operation `j` renames a file that `i` wrote to, and the name was neither
unlinked nor renamed away between them. -/
def AppendedBefore (events : List TraceEvent) (i j : ℕ) : Prop :=
  i < j ∧ ∃ r ∈ events[j]?, r.call = .rename ∧ 0 ≤ r.returnValue ∧
    ∃ w ∈ events[i]?, w.call ∈ [.write, .pwrite, .writev] ∧ 0 ≤ w.returnValue ∧
      w.path = r.path ∧ ∀ m, i < m → m < j → ∀ e ∈ events[m]?, 0 ≤ e.returnValue →
        e.path = r.path → e.call ≠ .unlink ∧ e.call ≠ .rename

/-- The flag `orderedAppendRename` is honored at `k`. -/
def OrdersAppends (trace : Trace) (model : FilesystemModel) (bounds : Bounds) (k : ℕ) : Prop :=
  Honors (AppendedBefore trace.events) model.orderedAppendRename trace model bounds k

lemma issues_appendedBefore (events : List TraceEvent) : Issues events (AppendedBefore events) := by
  rintro i j ⟨hlt, r, hr, hrename, hret, w, hw, hcall, hret', -⟩
  refine ⟨hlt, ⟨w, hw, ?_, hret'⟩, ⟨r, hr, by simp [hrename, mutating], hret⟩, ?_⟩
  · simp only [List.mem_cons, List.not_mem_nil, or_false] at hcall
    rcases hcall with h | h | h <;> simp [h, mutating]
  · rintro ⟨r', hr', hresize⟩
    obtain rfl : r' = r := Option.mem_unique hr' hr
    simp [hrename, needsExistingFile] at hresize

/-- A file is written and renamed. -/
def unsyncedTrace : Trace where
  header := ⟨1, 1⟩
  events := [callAt 0 .write "/db/f.tmp", { callAt 1 .rename "/db/f.tmp" with path2 := "/db/f" }]
  markers := []

/-- Calls that change directory entries. -/
def directoryCalls : List CallName := [.mkdir, .unlink, .link, .rename]

/-- Operations `i` and `j` are successful directory operations in this order,
and one changes an entry of a directory of which the other one does not. -/
def DirectoriesBefore (events : List TraceEvent) (i j : ℕ) : Prop :=
  i < j ∧ ∃ e ∈ events[i]?, e.call ∈ directoryCalls ∧ 0 ≤ e.returnValue ∧
    ∃ e' ∈ events[j]?, e'.call ∈ directoryCalls ∧ 0 ≤ e'.returnValue ∧
      ∃ dir, ¬ (ChangesEntryOf dir e ↔ ChangesEntryOf dir e')

/-- The flag `reordersDirectoryOps` is honored at `k`. -/
def OrdersDirectories (trace : Trace) (model : FilesystemModel) (bounds : Bounds) (k : ℕ) : Prop :=
  Honors (DirectoriesBefore trace.events) (!model.reordersDirectoryOps) trace model bounds k

lemma issues_directoriesBefore (events : List TraceEvent) :
    Issues events (DirectoriesBefore events) := by
  have hmutating : ∀ call ∈ directoryCalls, call ∈ mutating ∧ call ∉ needsExistingFile := by
    decide
  rintro i j ⟨hlt, e, he, hcall, hret, e', he', hcall', hret', -⟩
  refine ⟨hlt, ⟨e, he, (hmutating _ hcall).1, hret⟩, ⟨e', he', (hmutating _ hcall').1, hret'⟩, ?_⟩
  rintro ⟨c, hc, hresize⟩
  obtain rfl : c = e' := Option.mem_unique hc he'
  exact (hmutating _ hcall').2 hresize

/-- Two directories get a new entry each. -/
def entriesTrace : Trace where
  header := ⟨1, 1⟩
  events := [callAt 0 .mkdir "/db/a/x", callAt 1 .mkdir "/db/b/y"]
  markers := []

end CrashFuzz
