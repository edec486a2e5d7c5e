import CrashFuzz.Enumerate.Ordering
import CrashFuzz.Enumerate.Tearing

/-!
Size changes and the operations that made their files.

* `CreatedBy`: an operation that brought the file of a size change into
  existence, by its data, a rename or a link, after the name was last removed.
* `CreationKept`: a state with the size change has one of them, in full or torn.
* `Exposed`: a size change that the filter admits without any of them, since the
  filter takes earlier operations by their first operand, whatever they do.
  `creationKept_iff` says that nothing else breaks it.
-/

namespace CrashFuzz

open Subsets

variable {trace : Trace} {events : List TraceEvent} {model : FilesystemModel} {bounds : Bounds}
  {k t : ℕ} {W : ℤ}

/-- The call puts a file at the path. -/
def Creates (event : TraceEvent) (path : String) : Prop :=
  (IsWrite event ∧ event.path = path) ∨
    ((event.call = .rename ∨ event.call = .link) ∧ event.path2 = path)

/-- The call takes the file at the path away. -/
def TakesAway (event : TraceEvent) (path : String) : Prop :=
  (event.call = .unlink ∧ event.path = path) ∨
    (event.call = .rename ∧ event.path = path ∧ event.path2 ≠ path)

instance (event : TraceEvent) (path : String) : Decidable (Creates event path) :=
  inferInstanceAs (Decidable (_ ∨ _))

instance (event : TraceEvent) (path : String) : Decidable (TakesAway event path) :=
  inferInstanceAs (Decidable (_ ∨ _))

/-- Position `j` brought the file that position `t` names into existence, and
nothing removed it in between. -/
def CreatedBy (events : List TraceEvent) (t j : ℕ) : Prop :=
  ∃ e ∈ events[t]?, j < t ∧ (∃ c ∈ events[j]?, 0 ≤ c.returnValue ∧ Creates c e.path) ∧
    ∀ r < t, j < r → ∀ c ∈ events[r]?, 0 ≤ c.returnValue → ¬ TakesAway c e.path

/-- A size change is not in a state without all of what created its file. -/
def CreationKept (trace : Trace) (model : FilesystemModel) (bounds : Bounds) (k : ℕ) : Prop :=
  ∀ s, EmittedAt trace model bounds k s → ∀ t ∈ s.persisted, ResizesAt trace.events t →
    (∃ j, CreatedBy trace.events t j) →
      ∃ j, CreatedBy trace.events t j ∧ (j ∈ s.persisted ∨ ∃ p ∈ s.partials, p.op = j)

/-- Position `j` holds an operation that the filter takes for what `t` needs. -/
def Supports (events : List TraceEvent) (t j : ℕ) : Prop :=
  SamePathBefore events t j ∧ ¬ CreatedBy events t j ∧
    (ResizesAt events j → ∀ i, ¬ SamePathBefore events j i)

/-- A size change whose file was created in the trace, by operations none of
which is always kept, and for which the filter asks nothing, or something
else. -/
structure Exposed (events : List TraceEvent) (W : ℤ) (k t : ℕ) : Prop where
  issued : t ≤ k ∧ (Applied events t ∨ Pinned events k t)
  resizes : ResizesAt events t
  created : ∃ j, CreatedBy events t j
  loose : ∀ j, CreatedBy events t j → ¬ AlwaysKept events W k j
  admitted : (∀ j, ¬ SamePathBefore events t j) ∨ ∃ j, Supports events t j

lemma CreatedBy.applied {j : ℕ} (h : CreatedBy events t j) : j < t ∧ Applied events j := by
  obtain ⟨e, -, hlt, ⟨c, hc, hret, hcreates⟩, -⟩ := h
  refine ⟨hlt, c, hc, ?_, hret⟩
  rcases hcreates with ⟨h | h | h, -⟩ | ⟨h | h, -⟩ <;> rw [h] <;> decide

/-- What creates a file is no size change. -/
lemma CreatedBy.not_resizes {j : ℕ} (h : CreatedBy events t j) : ¬ ResizesAt events j := by
  obtain ⟨e, -, -, ⟨c, hc, -, hcreates⟩, -⟩ := h
  rintro ⟨c', hc', hcall⟩
  obtain rfl := Option.mem_unique hc hc'
  rcases hcreates with ⟨h | h | h, -⟩ | ⟨h | h, -⟩ <;> rw [h] at hcall <;> revert hcall <;> decide

lemma SamePathBefore.trans {i j : ℕ} (h : SamePathBefore events t j)
    (h' : SamePathBefore events j i) : SamePathBefore events t i := by
  obtain ⟨hlt, e, he, c, hc, hpath, -⟩ := h
  obtain ⟨hlt', c', hc', d, hd, hpath', hmut, hret⟩ := h'
  obtain rfl := Option.mem_unique hc hc'
  exact ⟨hlt'.trans hlt, e, he, d, hd, hpath'.trans hpath, hmut, hret⟩

lemma mem_issued_iff_issued :
    t ∈ CrashPoint.issued events W k ↔ t ≤ k ∧ (Applied events t ∨ Pinned events k t) := by
  rw [CrashPoint.mem_issued, CrashPoint.mem_free]
  constructor
  · rintro (h | h)
    · exact ⟨h.lt.le, .inr h⟩
    · exact ⟨h.1, .inl h.2.1⟩
  · rintro ⟨hle, h | h⟩
    · by_cases hp : Pinned events k t
      · exact .inl hp
      · exact .inr ⟨hle, h, hp⟩
    · exact .inl h

/-- What the filter admits without a creating operation is exposed. -/
lemma exposed_of_admitted {persisted : List ℕ} (hdisk : existsOnDisk events persisted = true)
    (hissued : t ∈ CrashPoint.issued events W k) (ht : t ∈ persisted)
    (hresizes : ResizesAt events t)
    (hcreated : ∃ j, CreatedBy events t j) (hlost : ∀ j, CreatedBy events t j → j ∉ persisted)
    (hleast : ∀ i ∈ CrashPoint.alwaysPresent events W k, i ∈ persisted) : Exposed events W k t where
  issued := mem_issued_iff_issued.mp hissued
  resizes := hresizes
  created := hcreated
  loose j hj hkept := hlost j hj (hleast j (CrashPoint.mem_alwaysPresent_iff.mpr hkept))
  admitted := by
    by_cases hbefore : ∃ j, SamePathBefore events t j
    · -- the first operation on the path that was kept
      have hex : ∃ j, j ∈ persisted ∧ SamePathBefore events t j :=
        existsOnDisk_iff.mp hdisk t ht hresizes hbefore
      classical
      obtain ⟨hmem, hjt⟩ := Nat.find_spec hex
      refine .inr ⟨Nat.find hex, hjt, fun hj => hlost _ hj hmem, fun hres i hi => ?_⟩
      obtain ⟨i', hi', hij⟩ := existsOnDisk_iff.mp hdisk _ hmem hres ⟨i, hi⟩
      exact Nat.find_min hex hij.1 ⟨hi', hjt.trans hij⟩
    · exact .inl (not_exists.mp hbefore)

/-- An exposed size change is in a state without what created its file. -/
lemma Exposed.not_creationKept (h : Exposed trace.events bounds.maxUnpersistedWindow k t)
    (hmodel : model.totalOrder = false)
    (hwindow : windowSize bounds.maxUnpersistedWindow (unpinnedCount trace.events k) ≤ 30)
    (hk : k < trace.events.length) : ¬ CreationKept trace model bounds k := by
  -- the least selection, the size change, and what the filter takes for what it needs
  obtain ⟨support, hsupport, hnone⟩ : ∃ support : ℕ → Prop,
      (∀ j, support j → Supports trace.events t j) ∧
        ((∃ j, SamePathBefore trace.events t j) → ∃ j, support j) := by
    refine ⟨Supports trace.events t, fun j hj => hj, fun ⟨j, hj⟩ => ?_⟩
    exact h.admitted.resolve_left fun hno => hno j hj
  have hissued : ∀ i, (i ∈ CrashPoint.alwaysPresent trace.events bounds.maxUnpersistedWindow k ∨
      i = t ∨ support i) →
      i ∈ CrashPoint.issued trace.events bounds.maxUnpersistedWindow k := by
    rintro i (hi | rfl | hi)
    · exact CrashPoint.alwaysPresent_subset_issued hi
    · exact mem_issued_iff_issued.mpr h.issued
    · have hbefore := (hsupport i hi).1
      exact CrashPoint.mem_issued_of_applied (hbefore.1.le.trans h.issued.1) hbefore.applied
  have hlegal : ∀ i, (i ∈ CrashPoint.alwaysPresent trace.events bounds.maxUnpersistedWindow k ∨
      i = t ∨ support i) → ResizesAt trace.events i → (∃ j, SamePathBefore trace.events i j) →
      ∃ j, (j ∈ CrashPoint.alwaysPresent trace.events bounds.maxUnpersistedWindow k ∨
        j = t ∨ support j) ∧ SamePathBefore trace.events i j := by
    rintro i (hi | rfl | hi) hres ⟨j, hj⟩
    · exact ⟨j, .inl (CrashPoint.alwaysPresent_closed hi hj), hj⟩
    · obtain ⟨j', hj'⟩ := hnone ⟨j, hj⟩
      exact ⟨j', .inr (.inr hj'), (hsupport j' hj').1⟩
    · exact absurd hj ((hsupport i hi).2.2 hres j)
  obtain ⟨persisted, hs, hmem⟩ := CrashPoint.exists_state_of_between hmodel
    (by rwa [CrashPoint.length_window]) (fun i hi => .inl hi) hissued hlegal
  intro hkept
  obtain ⟨j, hj, hjs⟩ := hkept _ (emittedAt_iff.mpr ⟨hk, hs⟩) t ((hmem t).mpr (.inr (.inl rfl)))
    h.resizes h.created
  rcases hjs with hjs | ⟨p, hp, -⟩
  · rcases (hmem j).mp hjs with hleast | rfl | hsup
    · exact h.loose j hj (CrashPoint.mem_alwaysPresent_iff.mp hleast)
    · exact hj.not_resizes h.resizes
    · exact (hsupport j hsup).2.1 hj
  · exact absurd hp List.not_mem_nil

/-- **When size changes keep what created their files.** -/
theorem creationKept_iff (trace : Trace) (model : FilesystemModel) (bounds : Bounds)
    (hk : k < trace.events.length) :
    ((model.totalOrder = true ∨ ∀ t, ¬ Exposed trace.events bounds.maxUnpersistedWindow k t) →
        CreationKept trace model bounds k) ∧
      (windowSize bounds.maxUnpersistedWindow (unpinnedCount trace.events k) ≤ 30 →
        CreationKept trace model bounds k →
          model.totalOrder = true ∨
            ∀ t, ¬ Exposed trace.events bounds.maxUnpersistedWindow k t) := by
  constructor
  · rintro hguard s hs t ht hresizes hcreated
    by_contra hno
    have hlost : ∀ j, CreatedBy trace.events t j → j ∉ s.persisted :=
      fun j hj hmem => hno ⟨j, hj, .inl hmem⟩
    have hstate := (emittedAt_iff.mp hs).2
    have hissued := CrashPoint.persisted_subset_issued hstate ht
    rcases hguard with htotal | hexposed
    · obtain ⟨j, hj⟩ := hcreated
      exact hlost j hj (keptWith_of_totalOrder htotal hj.applied.1 hj.applied.2 s hs ht).1
    · cases hmodel : model.totalOrder with
      | true =>
          obtain ⟨j, hj⟩ := hcreated
          exact hlost j hj (keptWith_of_totalOrder hmodel hj.applied.1 hj.applied.2 s hs ht).1
      | false =>
          have hdisk := CrashPoint.existsOnDisk_of_mem hmodel hstate
          exact hexposed t (exposed_of_admitted hdisk hissued ht hresizes hcreated hlost
            fun i hi => CrashPoint.alwaysPresent_subset hstate hi)
  · intro hwindow hkept
    by_contra hno
    push Not at hno
    obtain ⟨htotal, t, ht⟩ := hno
    exact ht.not_creationKept (by simpa using htotal) hwindow hk hkept

/-- A file is written, renamed and cut. -/
def movedTrace : Trace where
  header := ⟨1, 1⟩
  events := [callAt 0 .write "/db/a.tmp", { callAt 1 .rename "/db/a.tmp" with path2 := "/db/a" },
    callAt 2 .truncate "/db/a"]
  markers := []

/-- A file is written and cut. -/
theorem creationKept_resized : CreationKept resizedTrace xfs ⟨true, 8⟩ 1 := by
  refine (creationKept_iff resizedTrace xfs ⟨true, 8⟩ (by decide)).1 (.inr fun t h => ?_)
  obtain ⟨j, hj⟩ := h.created
  have hlt := hj.applied.1
  have hle := h.issued.1
  obtain rfl : t = 1 := by omega
  obtain rfl : j = 0 := by omega
  rcases h.admitted with hnone | ⟨i, hi⟩
  · refine hnone 0 ⟨hlt, _, rfl, _, rfl, rfl, ?_⟩
    decide
  · obtain rfl : i = 0 := by
      have hlt' := hi.1.1
      omega
    exact hi.2.1 hj

/-- The size change is kept without the write and without the rename. -/
theorem moved_not_kept :
    ⟨2, [2], []⟩ ∈ CrashPoint.states movedTrace.events xfs ⟨true, 8⟩ 2 ∧
      ¬ CreationKept movedTrace xfs ⟨true, 8⟩ 2 := by
  have hs : ⟨2, [2], []⟩ ∈ CrashPoint.states movedTrace.events xfs ⟨true, 8⟩ 2 := by decide
  refine ⟨hs, fun hkept => ?_⟩
  have hcreated : CreatedBy movedTrace.events 2 1 := by
    refine ⟨_, rfl, by decide, ⟨_, rfl, by decide, by decide⟩, fun r hr hr' => ?_⟩
    omega
  obtain ⟨j, hj, hjs⟩ := hkept _ (emittedAt_iff.mpr ⟨by decide, hs⟩) 2 (List.mem_singleton_self 2)
    ⟨_, rfl, by decide⟩ ⟨1, hcreated⟩
  rcases hjs with hjs | ⟨p, hp, -⟩
  · obtain rfl := List.mem_singleton.mp hjs
    exact lt_irrefl _ hj.applied.1
  · exact absurd hp List.not_mem_nil

end CrashFuzz
