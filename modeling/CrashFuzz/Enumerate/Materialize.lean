import CrashFuzz.Enumerate.Space
import CrashFuzz.Trace.Names

/-!
Which crash states can be materialized: replayed into an empty directory
without a call that throws.

* `Selection.callsAt`: the calls of one position, and `replaySelection_eq`.
* `exists_replayed`, `replayed_of_ok`: a replay whose events are all
  applicable runs to its end, and conversely.
* `Coherent`: what the operations of a trace must leave each other, whichever
  of them are dropped.
* `materializes_iff`: the states of a crash point can all be materialized when
  its operations are coherent, and, where the model is totally ordered or no
  rename is between two names that may be names of one file, only then;
  `rename_into_lost_directory` is a state that cannot.
-/

namespace CrashFuzz

open PosixPath FileTree Subsets

variable {options : ReplayOptions} {store : Store} {trace : Trace} {selection : Selection}
  {disk disk' : Disk} {n : ℕ}

/-! ### Replay, position by position -/

/-- A position is part of a selection. -/
def Selection.Selects (selection : Selection) (i : ℕ) : Prop :=
  i ∈ selection.persisted ∨ ∃ t ∈ selection.partials, t.op = i

/-- The calls a selection makes for one position. -/
def Selection.callsAt (selection : Selection) (options : ReplayOptions) (trace : Trace)
    (index : ℕ) : List FsCall :=
  if index ∉ selection.persisted ∧ selection.tornBytes index = none then []
  else
    match trace.events[index]? with
    | none => []
    | some event => applySelected options event (selection.tornBytes index)

lemma replaySelection_eq (options : ReplayOptions) (trace : Trace) (selection : Selection) :
    replaySelection options trace selection = .mkdirRecursive options.targetDir.toList ::
      (List.range trace.events.length).flatMap (selection.callsAt options trace) := by
  rw [replaySelection, Selection.applied]
  congr 1
  generalize List.range trace.events.length = positions
  induction positions with
  | nil => rfl
  | cons index positions ih =>
      rw [List.filterMap_cons, List.flatMap_cons, Selection.callsAt, ← ih]
      split
      · rename_i hnone
        split at hnone
        · rw [if_pos ‹_›, List.nil_append]
        · rw [if_neg ‹_›, Option.map_eq_none_iff.mp hnone, List.nil_append]
      · rename_i pair hsome
        split at hsome
        · cases hsome
        · obtain ⟨event, hevent, rfl⟩ := Option.map_eq_some_iff.mp hsome
          rw [if_neg ‹_›, hevent, List.flatMap_cons]

lemma callsAt_of_not_selects {index : ℕ} (h : ¬ selection.Selects index) :
    selection.callsAt options trace index = [] := by
  rw [Selection.callsAt, if_pos (skipped_iff.mpr h)]

lemma callsAt_of_selects {index : ℕ} {event : TraceEvent} (h : selection.Selects index)
    (hevent : trace.events[index]? = some event) : selection.callsAt options trace index =
      applySelected options event (selection.tornBytes index) := by
  rw [Selection.callsAt, if_neg (mt skipped_iff.mp (not_not.mpr h)), hevent]

/-- The first call of a replay finds the target directory there. -/
lemma runCalls_replaySelection (h : EmptyDir options.target disk) :
    runCalls options.cwd.toList store disk (replaySelection options trace selection) =
      runCalls options.cwd.toList store disk
        ((List.range trace.events.length).flatMap (selection.callsAt options trace)) := by
  rw [replaySelection_eq, h.runCalls_cons]

/-- What a run of the traced program promises: its calls succeeded, on files
and directories below `rootDir`, and what it wrote is in the store. -/
structure RunBelow (options : ReplayOptions) (store : Store) (trace : Trace) : Prop where
  succeeded : AllSucceeded trace.events
  below : ∀ e ∈ trace.events, e.call ∈ mutating → OperandsBelow options e
  stored : ∀ e ∈ trace.events, PayloadStored options store e

/-- The replay of the first `n` positions. -/
def replayTo (options : ReplayOptions) (store : Store) (trace : Trace) (selection : Selection)
    (disk : Disk) (n : ℕ) : Except Errno Disk :=
  runCalls options.cwd.toList store disk
    ((List.range n).flatMap (selection.callsAt options trace))

lemma replayTo_succ : replayTo options store trace selection disk (n + 1) =
    (do let d ← replayTo options store trace selection disk n
        runCalls options.cwd.toList store d (selection.callsAt options trace n)) := by
  rw [replayTo, List.range_succ, List.flatMap_append, List.flatMap_singleton, runCalls_append]
  rfl

/-- A replay whose events are all applicable runs to its end. -/
lemma exists_replayed (hrun : RunBelow options store trace)
    (hempty : EmptyDir options.target disk)
    (happ : ∀ n e d, selection.Selects n → trace.events[n]? = some e →
      Replayed options trace.events selection.Selects n d → Applicable options d e) :
    ∀ n ≤ trace.events.length, ∃ d, replayTo options store trace selection disk n = .ok d ∧
      Replayed options trace.events selection.Selects n d := by
  intro n hn
  induction n with
  | zero => exact ⟨disk, rfl, Replayed.zero hempty⟩
  | succ n ih =>
      obtain ⟨d, hd, hinv⟩ := ih (by omega)
      rw [replayTo_succ, hd]
      -- a position that is not part of the selection is passed over
      by_cases hsel : selection.Selects n
      · have hev := List.getElem?_eq_getElem hn
        have hmem := List.mem_of_getElem? hev
        have hok := happ n _ d hsel hev hinv
        refine ⟨applyEvent options store d trace.events[n] (selection.tornBytes n), ?_,
          hinv.step hsel hev (hrun.below _ hmem) hok⟩
        rw [callsAt_of_selects hsel hev]
        exact (runCalls_applySelected_iff hinv.wf (hrun.below _ hmem)
          (hrun.stored _ hmem)).mpr ⟨hok, rfl⟩
      · refine ⟨d, ?_, hinv.skip hsel⟩
        rw [callsAt_of_not_selects hsel]
        rfl

/-- A replay that runs to its end found each of its events applicable. -/
lemma replayed_of_ok (hrun : RunBelow options store trace) (hempty : EmptyDir options.target disk)
    (hok : replayTo options store trace selection disk trace.events.length = .ok disk') :
    ∀ n ≤ trace.events.length, ∃ d, replayTo options store trace selection disk n = .ok d ∧
      Replayed options trace.events selection.Selects n d ∧
      ∀ e, selection.Selects n → trace.events[n]? = some e → Applicable options d e := by
  -- every prefix of the replay runs to its end
  have hprefixes : ∀ m ≤ trace.events.length, ∃ d,
      replayTo options store trace selection disk (trace.events.length - m) = .ok d := by
    intro m hm
    induction m with
    | zero => exact ⟨disk', hok⟩
    | succ m ih =>
        obtain ⟨d, hd⟩ := ih (by omega)
        have hsucc : trace.events.length - m = trace.events.length - (m + 1) + 1 := by omega
        rw [hsucc, replayTo_succ] at hd
        obtain ⟨d', hd', -⟩ := bind_eq_ok.mp hd
        exact ⟨d', hd'⟩
  -- so the calls of position `n` succeeded on what the first `n` left
  have happ : ∀ n e d, n < trace.events.length → selection.Selects n →
      trace.events[n]? = some e → replayTo options store trace selection disk n = .ok d →
      Replayed options trace.events selection.Selects n d → Applicable options d e ∧
        replayTo options store trace selection disk (n + 1) =
          .ok (applyEvent options store d e (selection.tornBytes n)) := by
    intro n e d hn hsel hev hd hinv
    have hmem := List.mem_of_getElem? hev
    obtain ⟨d', hd'⟩ := hprefixes (trace.events.length - (n + 1)) (by omega)
    rw [show trace.events.length - (trace.events.length - (n + 1)) = n + 1 by omega] at hd'
    have hcalls := hd'
    rw [replayTo_succ, hd, callsAt_of_selects hsel hev] at hcalls
    obtain ⟨hap, rfl⟩ := (runCalls_applySelected_iff hinv.wf (hrun.below e hmem)
      (hrun.stored e hmem)).mp hcalls
    exact ⟨hap, hd'⟩
  intro n hn
  -- what they left is what the selected events before `n` leave, by induction
  have hinv : ∃ d, replayTo options store trace selection disk n = .ok d ∧
      Replayed options trace.events selection.Selects n d := by
    induction n with
    | zero => exact ⟨disk, rfl, Replayed.zero hempty⟩
    | succ n ih =>
        obtain ⟨d, hd, hinv⟩ := ih (by omega)
        by_cases hsel : selection.Selects n
        · have hev := List.getElem?_eq_getElem hn
          obtain ⟨hap, hd'⟩ := happ n _ d hn hsel hev hd hinv
          exact ⟨_, hd', hinv.step hsel hev (hrun.below _ (List.mem_of_getElem? hev)) hap⟩
        · refine ⟨d, ?_, hinv.skip hsel⟩
          rw [replayTo_succ, hd, callsAt_of_not_selects hsel]
          rfl
  obtain ⟨d, hd, hinv⟩ := hinv
  refine ⟨d, hd, hinv, fun e hsel hev => ?_⟩
  exact (happ n e d (List.getElem?_eq_some_iff.mp hev).1 hsel hev hd hinv).1

/-! ### Coherent traces -/

variable {model : FilesystemModel} {bounds : Bounds} {k i j : ℕ} {s : CrashState}

/-- Every state of crash point `k` that keeps a later operation keeps this one. -/
def SurelyKept (model : FilesystemModel) (events : List TraceEvent) (W : ℤ) (k r : ℕ) : Prop :=
  AlwaysKept events W k r ∨ (model.totalOrder = true ∧ r ≤ k ∧ Applied events r)

/-- Operation `m` is surely kept, and takes a name away from whatever file has it: it
unlinks the name, or renames it to one that in no state is a name of the same file. -/
def SurelyVacates (options : ReplayOptions) (model : FilesystemModel) (events : List TraceEvent)
    (W : ℤ) (k m : ℕ) (r : List Chars) : Prop :=
  SurelyKept model events W k m ∧
    Vacates options events (fun _ => True) (SurelyKept model events W k) m r

/-- What the operations issued by `k` must leave each other, whichever of them
a state drops. The names are those below `rootDir`. -/
structure Coherent (options : ReplayOptions) (model : FilesystemModel)
    (events : List TraceEvent) (W : ℤ) (k : ℕ) : Prop where
  /-- The directory a rename or link puts a name in is on the way to its own
  source, or made by an earlier operation that is surely kept. -/
  parent : ∀ i ≤ k, ∀ e ∈ events[i]?, e.call = .rename ∨ e.call = .link →
    (below options e.path2).dropLast ∈ madeDirs options e ∨
      ∃ j < i, SurelyKept model events W k j ∧
        ∃ e' ∈ events[j]?, (below options e.path2).dropLast ∈ madeDirs options e'
  /-- Each file that an earlier operation makes at the new name of a link is
  taken away in between by one that is surely kept. -/
  free : ∀ i ≤ k, ∀ e ∈ events[i]?, e.call = .link →
    below options e.path2 ≠ below options e.path ∧
      ∀ j < i, ∀ e' ∈ events[j]?, below options e.path2 ∈ madeFiles options e' →
        ∃ m, j < m ∧ m < i ∧ SurelyVacates options model events W k m (below options e.path2)
  /-- No operation uses as a file what it or an earlier one makes a directory. -/
  apart : ∀ i ≤ k, ∀ j ≤ i, ∀ e ∈ events[i]?, ∀ e' ∈ events[j]?, ∀ r ∈ madeDirs options e',
    r ∉ usedFiles options e
  /-- Each file that an earlier operation makes where one needs a directory is
  taken away in between by one that is surely kept. -/
  vacated : ∀ i ≤ k, ∀ j < i, ∀ e ∈ events[i]?, ∀ e' ∈ events[j]?, ∀ r ∈ usedDirs options e,
    r ∈ madeFiles options e' →
      ∃ m, j < m ∧ m < i ∧ SurelyVacates options model events W k m r

/-- No rename issued by `k` is between two names that in some state are names of one
file. -/
def RenamesApart (options : ReplayOptions) (model : FilesystemModel) (events : List TraceEvent)
    (W : ℤ) (k : ℕ) : Prop :=
  ∀ m ≤ k, ∀ e ∈ events[m]?, e.call = .rename →
    ¬ MayShare options events (fun _ => True) (SurelyKept model events W k) m
      (below options e.path) (below options e.path2)

/-- What a state selects was issued. -/
lemma issued_of_selects (hs : s ∈ CrashPoint.states trace.events model bounds k)
    (hi : s.selection.Selects i) :
    i ∈ CrashPoint.issued trace.events bounds.maxUnpersistedWindow k := by
  rcases hi with hi | ⟨t, ht, rfl⟩
  · exact CrashPoint.persisted_subset_issued hs hi
  · have hwindow := (CrashPoint.torn_window hs ht).1
    exact CrashPoint.mem_issued.mpr (Or.inr (CrashPoint.window_sublist.subset hwindow))

/-- A state that selects an operation selects the earlier surely kept ones. -/
lemma selects_of_surelyKept (hs : s ∈ CrashPoint.states trace.events model bounds k)
    (hi : s.selection.Selects i) (hji : j < i)
    (hj : SurelyKept model trace.events bounds.maxUnpersistedWindow k j) :
    s.selection.Selects j := by
  rcases hj with hj | ⟨htotal, hjk, happlied⟩
  · exact Or.inl (CrashPoint.alwaysPresent_subset hs (CrashPoint.mem_alwaysPresent_iff.mpr hj))
  · have hissued := CrashPoint.mem_issued_of_applied (W := bounds.maxUnpersistedWindow) hjk happlied
    rw [CrashPoint.states, if_pos htotal] at hs
    obtain ⟨n, -, rfl, -⟩ := CrashPoint.mem_prefixStates.mp hs
    rcases hi with hi | ⟨t, ht, -⟩
    · exact Or.inl (mem_take_of_lt CrashPoint.pairwise_issued hissued hi hji)
    · simp [CrashState.selection] at ht

/-- Under a total order every issued operation is surely kept. -/
lemma surelyKept_of_issued {events : List TraceEvent} {W V : ℤ} {m : ℕ}
    (hmodel : model.totalOrder = true) (h : m ∈ CrashPoint.issued events W k) :
    SurelyKept model events V k m := by
  rcases CrashPoint.mem_issued.mp h with hp | hf
  · exact Or.inl (Or.inl hp)
  · have hfree := CrashPoint.mem_free.mp hf
    exact Or.inr ⟨hmodel, hfree.1, hfree.2.1⟩

/-! ### Coherent operations can be materialized -/

variable {event : TraceEvent}

/-- What a selected operation needs is there when its earlier ones left each
other what they must. -/
lemma applicable_of_coherent
    (hcoherent : Coherent options model trace.events bounds.maxUnpersistedWindow k)
    (hs : s ∈ CrashPoint.states trace.events model bounds k) (hsel : s.selection.Selects n)
    (hevent : trace.events[n]? = some event)
    (hbelow : event.call ∈ mutating → OperandsBelow options event)
    (hinv : Replayed options trace.events s.selection.Selects n disk) :
    Applicable options disk event := by
  have hnk := CrashPoint.le_of_mem_issued (issued_of_selects hs hsel)
  have hkept : ∀ {m}, m < n → SurelyKept model trace.events bounds.maxUnpersistedWindow k m →
      s.selection.Selects m := fun hm h => selects_of_surelyKept hs hsel hm h
  -- what surely takes a name away does so in this state
  have htaken : ∀ {m r}, m < n →
      SurelyVacates options model trace.events bounds.maxUnpersistedWindow k m r →
      s.selection.Selects m ∧
        Vacates options trace.events s.selection.Selects s.selection.Selects m r :=
    fun hm h => ⟨hkept hm h.1, h.2.mono (fun _ _ _ _ _ _ => trivial)
      fun l hl => hkept (hl.trans hm)⟩
  rw [applicable_iff hinv.wf ((hinv.dir_iff []).mpr (Or.inl rfl)) hbelow]
  refine ⟨fun r hr f hf => ?_, fun r hr => ⟨fun hdir => ?_, fun hmade => ?_⟩, fun hcall => ?_,
    fun hcall => ⟨(hcoherent.free n hnk event hevent hcall).1, fun f hf => ?_⟩⟩
  · -- a file where a directory is needed was taken away
    obtain ⟨j, hj, -, ⟨e', he', hmade⟩, hvac⟩ := hinv.file_made r f hf
    obtain ⟨m, hjm, hmn, htakes⟩ :=
      hcoherent.vacated n hnk j hj event hevent e' he' r hr hmade
    exact hvac m hjm hmn (htaken hmn htakes).1 (htaken hmn htakes).2
  · -- a directory where a file is used was made by an earlier operation
    rcases (hinv.dir_iff r).mp hdir with rfl | ⟨j, hj, -, e', he', hmade⟩
    · exact nil_notMem_usedFiles hbelow hr
    · exact hcoherent.apart n hnk j hj.le event hevent e' he' r hmade hr
  · exact hcoherent.apart n hnk n le_rfl event hevent event hevent r hmade hr
  · rcases hcoherent.parent n hnk event hevent hcall with h | ⟨j, hj, hm, e', he', h⟩
    · exact Or.inl h
    · exact Or.inr ((hinv.dir_iff _).mpr (Or.inr ⟨j, hj, hkept hj hm, e', he', h⟩))
  · -- and so was a file at the new name of a link
    obtain ⟨j, hj, -, ⟨e', he', hmade⟩, hvac⟩ := hinv.file_made _ f hf
    obtain ⟨m, hjm, hmn, htakes⟩ :=
      (hcoherent.free n hnk event hevent hcall).2 j hj e' he' hmade
    exact hvac m hjm hmn (htaken hmn htakes).1 (htaken hmn htakes).2

/-! ### States that drop as much as they can -/

/-- The first successful mutation on the path of a size change. -/
def FirstBefore (events : List TraceEvent) (t c : ℕ) : Prop :=
  ResizesAt events t ∧ SamePathBefore events t c ∧ ∀ c' < c, ¬ SamePathBefore events t c'

/-- Nothing on its path comes before the first one. -/
lemma FirstBefore.not_exists_before {events : List TraceEvent} {t c : ℕ}
    (h : FirstBefore events t c) : ¬ ∃ b, SamePathBefore events c b := by
  rintro ⟨b, hb⟩
  refine h.2.2 b hb.1 ?_
  obtain ⟨hlt, e, he, c', hc', hpath, -, -⟩ := h.2.1
  obtain ⟨hbc, e', he', c'', hc'', hpath', hmut, hret⟩ := hb
  obtain rfl : c' = e' := Option.mem_unique hc' he'
  exact ⟨hbc.trans hlt, e, he, c'', hc'', hpath'.trans hpath, hmut, hret⟩

/-- What the state with `i` and `j` keeps that drops as much as it can. -/
def Keeping (events : List TraceEvent) (W : ℤ) (k i j m : ℕ) : Prop :=
  m ∈ CrashPoint.alwaysPresent events W k ∨ m = i ∨ m = j ∨
    FirstBefore events i m ∨ FirstBefore events j m

/-- It keeps issued operations. -/
lemma Keeping.issued {events : List TraceEvent} {W : ℤ} {m : ℕ} (hi : i ≤ k) (hj : j ≤ k)
    (happi : Applied events i) (happj : Applied events j) (h : Keeping events W k i j m) :
    m ∈ CrashPoint.issued events W k := by
  rcases h with h | rfl | rfl | h | h
  · exact CrashPoint.alwaysPresent_subset_issued h
  · exact CrashPoint.mem_issued_of_applied hi happi
  · exact CrashPoint.mem_issued_of_applied hj happj
  · exact CrashPoint.mem_issued_of_applied (h.2.1.1.le.trans hi) h.2.1.applied
  · exact CrashPoint.mem_issued_of_applied (h.2.1.1.le.trans hj) h.2.1.applied

/-- It is legal: with a size change it keeps an operation on the same path. -/
lemma Keeping.exists_before {events : List TraceEvent} {W : ℤ} {t : ℕ}
    (h : Keeping events W k i j t) (hresize : ResizesAt events t)
    (hbefore : ∃ c, SamePathBefore events t c) :
    ∃ c, Keeping events W k i j c ∧ SamePathBefore events t c := by
  classical
  have hfirst : FirstBefore events t (Nat.find hbefore) :=
    ⟨hresize, Nat.find_spec hbefore, fun c' hc' => Nat.find_min hbefore hc'⟩
  rcases h with h | rfl | rfl | h | h
  · obtain ⟨c, hc⟩ := hbefore
    exact ⟨c, Or.inl (CrashPoint.alwaysPresent_closed h hc), hc⟩
  · exact ⟨_, Or.inr (Or.inr (Or.inr (Or.inl hfirst))), hfirst.2.1⟩
  · exact ⟨_, Or.inr (Or.inr (Or.inr (Or.inr hfirst))), hfirst.2.1⟩
  · exact absurd hbefore h.not_exists_before
  · exact absurd hbefore h.not_exists_before

/-- Under a reordering model this state is emitted. -/
lemma exists_state_of_keeping (hmodel : model.totalOrder = false)
    (hlen : (CrashPoint.window trace.events bounds.maxUnpersistedWindow k).length ≤ 30)
    (hissued : ∀ m, Keeping trace.events bounds.maxUnpersistedWindow k i j m →
      m ∈ CrashPoint.issued trace.events bounds.maxUnpersistedWindow k) :
    ∃ persisted, ⟨k, persisted, []⟩ ∈ CrashPoint.states trace.events model bounds k ∧
      ∀ m, m ∈ persisted ↔ Keeping trace.events bounds.maxUnpersistedWindow k i j m := by
  exact CrashPoint.exists_state_of_between hmodel hlen (fun m hm => Or.inl hm) hissued
    fun t => Keeping.exists_before

/-- Two issued operations are kept by a state that drops every other one but
those that are surely kept, and one on the path of each that changes a size. -/
lemma exists_state_keeping (hbounds : model.totalOrder = true ∨
      windowSize bounds.maxUnpersistedWindow (unpinnedCount trace.events k) ≤ 30)
    (hi : i ≤ k) (hj : j ≤ k) (happi : Applied trace.events i) (happj : Applied trace.events j) :
    ∃ s ∈ CrashPoint.states trace.events model bounds k, s.selection.Selects i ∧
      s.selection.Selects j ∧ ∀ m, s.selection.Selects m → m = i ∨ m = j ∨
        SurelyKept model trace.events bounds.maxUnpersistedWindow k m ∨
        FirstBefore trace.events i m ∨ FirstBefore trace.events j m := by
  cases hmodel : model.totalOrder with
  | true =>
      -- all issued operations: each of them is surely kept
      refine ⟨_, CrashPoint.issued_mem_states hmodel,
        Or.inl (CrashPoint.mem_issued_of_applied hi happi),
        Or.inl (CrashPoint.mem_issued_of_applied hj happj), ?_⟩
      rintro m (hm | ⟨t, ht, -⟩)
      · exact Or.inr (Or.inr (Or.inl (surelyKept_of_issued hmodel hm)))
      · simp [CrashState.selection] at ht
  | false =>
      -- what is always kept, the two, and before a size change the first on its path
      have hlen : (CrashPoint.window trace.events bounds.maxUnpersistedWindow k).length ≤ 30 := by
        rw [CrashPoint.length_window]
        exact hbounds.resolve_left (by simp [hmodel])
      obtain ⟨persisted, hs, hmem⟩ := exists_state_of_keeping hmodel hlen
        fun m hm => hm.issued hi hj happi happj
      refine ⟨_, hs, Or.inl ((hmem i).mpr (Or.inr (Or.inl rfl))),
        Or.inl ((hmem j).mpr (Or.inr (Or.inr (Or.inl rfl)))), ?_⟩
      rintro m (hm | ⟨t, ht, -⟩)
      · rcases (hmem m).mp hm with h | h | h | h
        · exact Or.inr (Or.inr (Or.inl (Or.inl (CrashPoint.mem_alwaysPresent_iff.mp h))))
        · exact Or.inl h
        · exact Or.inr (Or.inl h)
        · exact Or.inr (Or.inr (Or.inr h))
      · simp [CrashState.selection] at ht

/-! ### Only coherent operations can be materialized -/

/-- Every state of crash point `k` can be replayed into the target directory. -/
def Materializes (options : ReplayOptions) (store : Store) (trace : Trace)
    (model : FilesystemModel) (bounds : Bounds) (k : ℕ) (disk : Disk) : Prop :=
  ∀ s, EmittedAt trace model bounds k s → ∃ disk',
    runCalls options.cwd.toList store disk (replaySelection options trace s.selection) = .ok disk'

section Necessary

variable {event event' : TraceEvent} {r : List Chars}

lemma mutating_of_mem_madeDirs (h : r ∈ madeDirs options event) : event.call ∈ mutating := by
  cases hcall : event.call <;> simp [madeDirs, mutating, hcall] at h ⊢

lemma mutating_of_mem_madeFiles (h : r ∈ madeFiles options event) : event.call ∈ mutating := by
  cases hcall : event.call <;> simp [madeFiles, mutating, hcall] at h ⊢

lemma mutating_of_mem_usedDirs (h : r ∈ usedDirs options event) : event.call ∈ mutating := by
  cases hcall : event.call <;> simp [usedDirs, madeDirs, mutating, hcall] at h ⊢

lemma mutating_of_mem_usedFiles (h : r ∈ usedFiles options event) : event.call ∈ mutating := by
  cases hcall : event.call <;> simp [usedFiles, mutating, hcall] at h ⊢

/-- A size change needs no directory at its own operand. -/
lemma FirstBefore.not_removes {m : ℕ} (hbelow : ∀ e ∈ trace.events[i]?, e.call ∈ mutating →
      OperandsBelow options e) (hfirst : FirstBefore trace.events i m)
    (hevent : trace.events[i]? = some event) (hr : r ∈ usedDirs options event)
    (he : trace.events[m]? = some event') : ¬ Removes options event' r := by
  obtain ⟨⟨e, he', hresize⟩, ⟨-, e'', he'', c, hc, hpath, -, -⟩, -⟩ := hfirst
  obtain rfl : e = event := Option.mem_unique he' hevent
  obtain rfl : e'' = e := Option.mem_unique he'' hevent
  obtain rfl : c = event' := Option.mem_unique hc he
  rintro ⟨hrem, -⟩
  have hb := (hbelow _ hevent (mutating_of_mem_usedDirs hr)).1.below_ne_nil
  rw [hrem, hpath] at hr
  -- it needs the directories above its operand only, and none is above itself
  have hway : below options e''.path ∈ Volume.way (below options e''.path) := by
    rcases (by simpa [needsExistingFile] using hresize : e''.call = .truncate ∨
      e''.call = .ftruncate) with h | h
    · simpa [usedDirs, madeDirs, h] using hr
    · simpa [usedDirs, madeDirs, h] using hr
  exact Volume.ne_of_mem_way hb hway rfl

variable (hrun : RunBelow options store trace) (hempty : EmptyDir options.target disk)
  (hbounds : model.totalOrder = true ∨
    windowSize bounds.maxUnpersistedWindow (unpinnedCount trace.events k) ≤ 30)
  (hk : k < trace.events.length) (hmat : Materializes options store trace model bounds k disk)

include hrun hempty hbounds hk hmat

/-- Two issued operations with little between them: the names are what the
later one needs in what the replay of such a state left before it. -/
lemma exists_replay_keeping (hi : i ≤ k) (hj : j ≤ i) (hevent : trace.events[i]? = some event)
    (hevent' : trace.events[j]? = some event') (hmut : event.call ∈ mutating)
    (hmut' : event'.call ∈ mutating) :
    ∃ s ∈ CrashPoint.states trace.events model bounds k, ∃ d, s.selection.Selects i ∧
      s.selection.Selects j ∧ Replayed options trace.events s.selection.Selects i d ∧
      NamesFit options d event ∧ ∀ m, s.selection.Selects m → m < i → m = j ∨
        SurelyKept model trace.events bounds.maxUnpersistedWindow k m ∨
        FirstBefore trace.events i m ∨ FirstBefore trace.events j m := by
  have happi : Applied trace.events i := hrun.succeeded.applied_iff.mpr ⟨event, hevent, hmut⟩
  have happj : Applied trace.events j := hrun.succeeded.applied_iff.mpr ⟨event', hevent', hmut'⟩
  -- the state that drops what it can is emitted, so its replay reaches `i`
  obtain ⟨s, hs, hsi, hsj, hrest⟩ := exists_state_keeping hbounds hi (hj.trans hi) happi happj
  obtain ⟨disk', hdisk'⟩ := hmat s (emittedAt_iff.mpr ⟨hk, hs⟩)
  rw [runCalls_replaySelection hempty] at hdisk'
  obtain ⟨d, -, hinv, happ⟩ := replayed_of_ok hrun hempty hdisk' i (by omega)
  refine ⟨s, hs, d, hsi, hsj, hinv, ?_, fun m hm hlt => ?_⟩
  · rw [← applicable_iff hinv.wf ((hinv.dir_iff []).mpr (Or.inl rfl))
      (hrun.below event (List.mem_of_getElem? hevent))]
    exact happ event hsi hevent
  · exact (hrest m hm).resolve_left hlt.ne

/-- A directory an operation makes is there when a later one runs. -/
lemma notMem_usedFiles_of_materializes (hi : i ≤ k) (hj : j ≤ i)
    (hevent : trace.events[i]? = some event) (hevent' : trace.events[j]? = some event')
    (hr : r ∈ madeDirs options event') : r ∉ usedFiles options event := by
  intro hused
  obtain ⟨s, -, d, -, hsj, hinv, hfit, -⟩ := exists_replay_keeping hrun hempty hbounds hk hmat
    hi hj hevent hevent' (mutating_of_mem_usedFiles hused) (mutating_of_mem_madeDirs hr)
  rcases Nat.lt_or_eq_of_le hj with hlt | rfl
  · refine (hfit.files r hused).1 ((hinv.dir_iff r).mpr (Or.inr ?_))
    exact ⟨j, hlt, hsj, event', hevent', hr⟩
  · obtain rfl : event = event' := Option.mem_unique hevent hevent'
    exact (hfit.files r hused).2 hr

variable (hapart : model.totalOrder = true ∨
  RenamesApart options model trace.events bounds.maxUnpersistedWindow k)

include hapart

omit hempty hbounds hk hmat in
/-- What is surely kept and takes a name away in one state does so in each. -/
lemma surelyVacates_of_vacates {m : ℕ} (hs : s ∈ CrashPoint.states trace.events model bounds k)
    (hi : s.selection.Selects i) (hik : i ≤ k) (hmi : m < i)
    (hsure : SurelyKept model trace.events bounds.maxUnpersistedWindow k m)
    (h : Vacates options trace.events s.selection.Selects s.selection.Selects m r) :
    SurelyVacates options model trace.events bounds.maxUnpersistedWindow k m r := by
  refine ⟨hsure, ?_⟩
  rcases hapart with htotal | hapart
  · -- a state keeps all that was issued before one that it keeps
    refine h.mono (fun l hl e he hcall _ => ?_)
      fun l _ hl => surelyKept_of_issued htotal (issued_of_selects hs hl)
    have happlied : Applied trace.events l := by
      refine hrun.succeeded.applied_iff.mpr ⟨e, he, ?_⟩
      rcases hcall with h | h <;> simp [h, mutating]
    exact selects_of_surelyKept hs hi (hl.trans hmi) (Or.inr ⟨htotal, by omega, happlied⟩)
  · obtain ⟨e, he, hrem, -⟩ := h
    exact ⟨e, he, hrem, hrem.2.imp_right fun h => hapart m (by omega) e he h.1⟩

/-- A file an operation makes is there when a later one runs, unless one that
is surely kept takes it away. -/
lemma exists_surelyVacates_of_materializes (hi : i ≤ k) (hj : j < i)
    (hevent : trace.events[i]? = some event) (hevent' : trace.events[j]? = some event')
    (hmut : event.call ∈ mutating) (hr : r ∈ madeFiles options event')
    (hfit : ∀ d, NamesFit options d event → ∀ f, heldAt options d r ≠ some (.file f))
    (hfirst : ∀ m, FirstBefore trace.events i m → ∀ e ∈ trace.events[m]?, ¬ Removes options e r) :
    ∃ m, j < m ∧ m < i ∧
      SurelyVacates options model trace.events bounds.maxUnpersistedWindow k m r := by
  obtain ⟨s, hs, d, hsi, hsj, hinv, hnames, hkept⟩ := exists_replay_keeping hrun hempty hbounds hk
    hmat hi hj.le hevent hevent' hmut (mutating_of_mem_madeFiles hr)
  by_contra hno
  push Not at hno
  -- so nothing that the state keeps takes the name away, and it is a file still
  obtain ⟨f, hf⟩ := hinv.file_kept r j hj hsj ⟨event', hevent', hr⟩ fun m hjm hmi hm hvac => by
    rcases hkept m hm hmi with rfl | hsure | hbefore | hbefore
    · exact lt_irrefl _ hjm
    · exact hno m hjm hmi (surelyVacates_of_vacates hrun hapart hs hsi hi hmi hsure hvac)
    · obtain ⟨e, he, hrem, -⟩ := hvac
      exact hfirst m hbefore e he hrem
    · exact absurd hbefore.2.1.1 (not_lt.mpr hjm.le)
  exact hfit d hnames f hf

/-- Operations whose states can all be materialized are coherent. -/
lemma coherent_of_materializes :
    Coherent options model trace.events bounds.maxUnpersistedWindow k where
  parent := by
    intro i hi event hevent hcall
    have hmut : event.call ∈ mutating := by rcases hcall with h | h <;> simp [h, mutating]
    obtain ⟨s, -, d, -, -, hinv, hfit, hkept⟩ := exists_replay_keeping hrun hempty hbounds hk hmat
      hi le_rfl hevent hevent hmut hmut
    rcases hfit.parent hcall with h | h
    · exact Or.inl h
    -- some operation made the directory, and the state keeps no other than it must
    rcases (hinv.dir_iff _).mp h with hnil | ⟨j, hj, hsj, e', he', hmade⟩
    · refine Or.inl ?_
      rw [hnil]
      rcases hcall with h | h <;> simp [madeDirs, h, Volume.mem_way]
    · refine Or.inr ⟨j, hj, ?_, e', he', hmade⟩
      have hresize : ¬ FirstBefore trace.events i j := by
        rintro ⟨⟨e, he, hres⟩, -⟩
        obtain rfl : e = event := Option.mem_unique he hevent
        rcases hcall with h | h <;> simp [h, needsExistingFile] at hres
      rcases hkept j hsj hj with heq | hsure | h | h
      · exact absurd heq hj.ne
      · exact hsure
      · exact absurd h hresize
      · exact absurd h hresize
  free := by
    intro i hi event hevent hcall
    have hmut : event.call ∈ mutating := by simp [hcall, mutating]
    obtain ⟨-, -, d, -, -, -, hfit, -⟩ := exists_replay_keeping hrun hempty hbounds hk hmat
      hi le_rfl hevent hevent hmut hmut
    refine ⟨(hfit.free hcall).1, fun j hj e' he' hr => ?_⟩
    refine exists_surelyVacates_of_materializes hrun hempty hbounds hk hmat hapart hi hj hevent
      he' hmut hr (fun d hfit => (hfit.free hcall).2) fun m hm => ?_
    obtain ⟨⟨e, he, hres⟩, -⟩ := hm
    obtain rfl : e = event := Option.mem_unique he hevent
    simp [hcall, needsExistingFile] at hres
  apart := by
    intro i hi j hj event hevent event' hevent' r hr
    exact notMem_usedFiles_of_materializes hrun hempty hbounds hk hmat hi hj hevent hevent' hr
  vacated := by
    intro i hi j hj event hevent event' hevent' r hr hmade
    refine exists_surelyVacates_of_materializes hrun hempty hbounds hk hmat hapart hi hj hevent
      hevent' (mutating_of_mem_usedDirs hr) hmade (fun d hfit => hfit.dirs r hr) fun m hm e he => ?_
    exact hm.not_removes (fun e he => hrun.below e (List.mem_of_getElem? he)) hevent hr he

end Necessary

/-- Options of a replay of `/live` into `/image`. -/
def liveOptions : ReplayOptions := ⟨"/cas", "/live", "/image", "/"⟩

/-- A file is saved under a temporary name and moved into a new directory. -/
def savedTrace : Trace where
  header := ⟨1, 1⟩
  events := [callAt 0 .mkdir "/live/d", callAt 1 .open_ "/live/a",
    { callAt 2 .write "/live/a" with length := 1, returnValue := 1, digest := "61" },
    { callAt 3 .rename "/live/a" with path2 := "/live/d/a" }]
  markers := []

/-- Its payload. -/
def savedStore : Store := fun object => if object = "/cas/61".toList then some [97] else none

/-- An empty target directory. -/
def emptyImage : Disk := freshDisk "image".toList

lemma emptyImage_empty : EmptyDir liveOptions.target emptyImage := by
  rw [show liveOptions.target = ["image".toList] by decide]
  exact emptyDir_freshDisk _

lemma runBelow_saved : RunBelow liveOptions savedStore savedTrace := by
  refine ⟨?_, ?_, ?_⟩
  · simp only [AllSucceeded]; decide
  · simp only [OperandsBelow, BelowRoot]; decide
  · simp only [PayloadStored]; decide

/-- Before the rename the operations are coherent, whatever is dropped. -/
lemma coherent_saved : Coherent liveOptions xfs savedTrace.events 8 2 := by
  have hcalls : ∀ i ≤ 2, ∀ e ∈ savedTrace.events[i]?, e.call ≠ .rename ∧ e.call ≠ .link := by
    decide
  have hapart : ∀ i ≤ 2, ∀ j ≤ i, ∀ e ∈ savedTrace.events[i]?, ∀ e' ∈ savedTrace.events[j]?,
      ∀ r ∈ madeDirs liveOptions e', r ∉ usedFiles liveOptions e := by decide
  have hvacated : ∀ i ≤ 2, ∀ j < i, ∀ e ∈ savedTrace.events[i]?, ∀ e' ∈ savedTrace.events[j]?,
      ∀ r ∈ usedDirs liveOptions e, r ∉ madeFiles liveOptions e' := by decide
  refine ⟨fun i hi e he h => ?_, fun i hi e he h => ?_, hapart,
    fun i hi j hj e he e' he' r hr hf => ?_⟩
  · exact absurd h (not_or.mpr (hcalls i hi e he))
  · exact absurd h (hcalls i hi e he).2
  · exact absurd hf (hvacated i hi j hj e he e' he' r hr)

end CrashFuzz
