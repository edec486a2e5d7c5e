import CrashFuzz.Enumerate.Floor
import CrashFuzz.Oracle.Oracle
import CrashFuzz.Trace.Replay

/-!
The durability claims of the enumerator, over whole traces.

* `acknowledged_persisted`: what an acknowledgement rests on is in every state
  of every later crash point.
* `directoryFloor_iff`, `fileFloor_iff`: for a synced directory and for a file
  synced under a later name the floor is computed by the equality of recorded
  paths, so it holds exactly where it is unavoidable for another reason;
  `rename_lost_after_directory_fsync` and `write_lost_after_renamed_fsync` are
  states it misses.
* `failedCall_iff`: failed calls leave no mark exactly when none of them is
  followed by a successful persistence call on its path, since the pinning scan
  does not look at return values; `failed_write_enumerated` is such a mark.
-/

namespace CrashFuzz

open Subsets

variable {trace : Trace} {k m : ℕ} {model : FilesystemModel} {bounds : Bounds}

/-- **The durability floor of an acknowledgement.** When a mutation was issued
before a persistence call on its path, and that call completed before a durable
acknowledgement the oracle counts as promised at crash point `k`, then every
state of every crash point from `k` on holds the mutation, whole and not torn. -/
theorem acknowledged_persisted (htrace : trace.WellStamped) {f a : ℕ}
    {crash em ef : TraceEvent} {ackLog : List AckedOperation} {o : AckedOperation}
    (hcrash : trace.events[k]? = some crash)
    (ho : o ∈ promisedBefore ackLog crash.index) (ha : o.acknowledgedAt = some a)
    (hm : trace.events[m]? = some em) (hmut : em.call ∈ mutating)
    (hf : trace.events[f]? = some ef) (hpers : ef.call ∈ persistence)
    (hfret : 0 ≤ ef.returnValue) (hpath : em.path = ef.path) (hmf : em.index < ef.index)
    (hfa : ef.completionIndex < a) {options : EnumerateOptions} {states : List CrashState}
    (hok : enumerateCrashStates trace options = .ok states) {s : CrashState}
    (hs : s ∈ states) (hk : k ≤ s.crashPoint) :
    m ∈ s.persisted ∧ ∀ t ∈ s.partials, t.op ≠ m := by
  have hak : a < crash.index := by
    obtain ⟨-, -, b, hb, hlt⟩ := mem_promisedBefore.mp ho
    rw [ha] at hb
    cases hb
    exact hlt
  have hfk : f < k := by
    refine htrace.lt_of_index_lt hf hcrash ?_
    have := htrace.completed ef (List.mem_of_getElem? hf)
    omega
  have hpin : Pinned trace.events s.crashPoint m :=
    ⟨em, hm, hmut, f, htrace.lt_of_index_lt hm hf hmf, by omega, ef, hf, hpers, hfret, hpath⟩
  have hmem := (emittedAt_iff.mp ⟨options.crashPoints, states, hok, hs, rfl⟩).2
  have hpersisted := CrashPoint.alwaysPresent_subset hmem
    (CrashPoint.mem_alwaysPresent.mpr (Or.inl hpin))
  refine ⟨hpersisted, fun t ht heq => ?_⟩
  exact (CrashPoint.torn_window hmem ht).2 (heq ▸ hpersisted)

/-- Write, sync, acknowledge at stamp `4`, and one more write. -/
def ackedTrace : Trace where
  header := ⟨1, 1⟩
  events := [callAt 0 .write "/db/a", callAt 1 .fsync "/db/a", callAt 3 .write "/db/a"]
  markers := []

theorem acknowledged_persisted_acked : 0 ∈ [0] ∧ ∀ t ∈ ([] : List TornOp), t.op ≠ 0 := by
  have hw : ackedTrace.WellStamped := ⟨by decide, by decide⟩
  have ho : (⟨1, "put", "a", "d", 0, some 4, true⟩ : AckedOperation) ∈
      promisedBefore [⟨1, "put", "a", "d", 0, some 4, true⟩] 6 := by decide
  have hok : enumerateCrashStates ackedTrace ⟨xfs, ⟨true, 8⟩, some [2]⟩ =
      .ok [⟨2, [0], []⟩, ⟨2, [0, 2], []⟩] := rfl
  have hs : (⟨2, [0], []⟩ : CrashState) ∈ [⟨2, [0], []⟩, ⟨2, [0, 2], []⟩] := by decide
  have hm : ackedTrace.events[0]? = some (callAt 0 .write "/db/a") := rfl
  have hf : ackedTrace.events[1]? = some (callAt 1 .fsync "/db/a") := rfl
  have hcrash : ackedTrace.events[2]? = some (callAt 3 .write "/db/a") := rfl
  exact acknowledged_persisted hw hcrash ho rfl hm (by decide) hf (by decide) (by decide) rfl
    (by decide) (by decide) hok hs (by decide)

/-- A mutation issued by `k` is in every emitted state exactly when it is
unavoidable. -/
lemma emitted_forall_iff (hk : k < trace.events.length) (hmk : m ≤ k)
    (hm : Applied trace.events m) :
    (∀ s, EmittedAt trace model bounds k s → m ∈ s.persisted) ↔
      Unavoidable model trace.events bounds.maxUnpersistedWindow k m := by
  rw [← persisted_forall_iff (CrashPoint.mem_issued_of_applied hmk hm)]
  exact forall_congr' fun s => by rw [emittedAt_iff]; simp [hk]

/-! ### Directory entries -/

/-- The paths whose directory entries a call adds, removes or moves. -/
def entryPaths (event : TraceEvent) : List String :=
  match event.call with
  | .mkdir | .unlink => [event.path]
  | .link => [event.path2]
  | .rename => [event.path, event.path2]
  | _ => []

/-- An event changes an entry directly inside the directory `dir`, going by the recorded
strings: another spelling of `dir` is another directory. -/
def ChangesEntryOf (dir : String) (event : TraceEvent) : Prop :=
  ∃ path ∈ entryPaths event, PosixPath.dirname path.toList = dir.toList

lemma ChangesEntryOf.mutating {dir : String} {event : TraceEvent} (h : ChangesEntryOf dir event) :
    event.call ∈ mutating := by
  obtain ⟨path, hpath, -⟩ := h
  rw [entryPaths] at hpath
  cases hcall : event.call <;> simp [hcall, CrashFuzz.mutating] at hpath ⊢

/-- Operation `m` succeeded in changing an entry of a directory on which a
successful fsync is recorded between `m` and `k`. -/
def SyncedEntry (events : List TraceEvent) (k m : ℕ) : Prop :=
  ∃ e ∈ events[m]?, 0 ≤ e.returnValue ∧ ∃ f, m < f ∧ f ≤ k ∧
    ∃ d ∈ events[f]?, d.call = .fsync ∧ 0 ≤ d.returnValue ∧ ChangesEntryOf d.path e

/-- A directory fsync is a durability floor for the entries of the directory. -/
def DirectoryFloor (trace : Trace) (model : FilesystemModel) (bounds : Bounds) (k : ℕ) : Prop :=
  ∀ m, SyncedEntry trace.events k m → ∀ s, EmittedAt trace model bounds k s → m ∈ s.persisted

/-- **Where a directory fsync is a floor**: exactly where each of the entry
operations it should persist is in every state for another reason. -/
theorem directoryFloor_iff (trace : Trace) (model : FilesystemModel) (bounds : Bounds)
    (k : Fin trace.events.length) :
    DirectoryFloor trace model bounds k ↔ ∀ m, SyncedEntry trace.events k m →
      Unavoidable model trace.events bounds.maxUnpersistedWindow k m := by
  refine forall₂_congr fun m hm => ?_
  obtain ⟨e, he, hret, f, hmf, hfk, d, -, -, -, hentry⟩ := hm
  exact emitted_forall_iff k.isLt (by omega) ⟨e, he, hentry.mutating, hret⟩

/-- The correct update protocol for one key, acknowledged at stamp `16`, and
the first call for the next key. -/
def protocolTrace : Trace where
  header := ⟨1, 1⟩
  events := [callAt 0 .open_ "/db/f.tmp", callAt 1 .write "/db/f.tmp", callAt 2 .fsync "/db/f.tmp",
    callAt 3 .close "/db/f.tmp", { callAt 4 .rename "/db/f.tmp" with path2 := "/db/f" },
    callAt 5 .open_ "/db", callAt 6 .fsync "/db", callAt 7 .close "/db",
    callAt 9 .open_ "/db/g.tmp"]
  markers := [⟨16, 1, "op=1 phase=ack kind=put key=f digest=d durable=1"⟩]

/-- After the acknowledgement of the correct update protocol, a state without
the rename is emitted although the directory was synced. -/
theorem rename_lost_after_directory_fsync :
    SyncedEntry protocolTrace.events 8 4 ∧
      EmittedAt protocolTrace xfs ⟨false, 8⟩ 8 ⟨8, [1], []⟩ ∧
      ¬ DirectoryFloor protocolTrace xfs ⟨false, 8⟩ 8 := by
  have hsynced : SyncedEntry protocolTrace.events 8 4 :=
    ⟨_, rfl, by decide, 6, by decide, by decide, _, rfl, rfl, by decide, "/db/f.tmp",
      by decide, by decide⟩
  have hstate : EmittedAt protocolTrace xfs ⟨false, 8⟩ 8 ⟨8, [1], []⟩ :=
    emittedAt_iff.mpr ⟨by decide, by decide⟩
  exact ⟨hsynced, hstate, fun h => absurd (h 4 hsynced _ hstate) (by decide)⟩

/-! ### Files under their later names -/

/-- A name below the directory `source` after that directory became `dest`. -/
def movedName (source dest name : String) : String :=
  if (source.toList ++ ['/']).isPrefixOf name.toList then
    String.ofList (dest.toList ++ name.toList.drop source.toList.length)
  else name

/-- The names of one file after an event: a successful rename moves a name or
replaces the file behind it, a link adds one, an unlink removes one. -/
def aliasStep (names : List String) (event : TraceEvent) : List String :=
  if event.returnValue < 0 then names
  else
    match event.call with
    | .rename =>
        if event.path ∈ names then
          if event.path2 ∈ names then names
          else event.path2 :: names.filter (· ≠ event.path)
        else (names.filter (· ≠ event.path2)).map (movedName event.path event.path2)
    | .link => if event.path ∈ names then event.path2 :: names else names
    | .unlink => names.filter (· ≠ event.path)
    | _ => names

/-- The names at position `f` of the file that was called `path` at position
`m`. -/
def aliases (events : List TraceEvent) (path : String) (m f : ℕ) : List String :=
  ((events.take f).drop (m + 1)).foldl aliasStep [path]

/-- Operation `m` is a successful write, and a successful fsync or fdatasync
between it and `k` is recorded on a name of the written file. -/
def SyncedWrite (events : List TraceEvent) (k m : ℕ) : Prop :=
  ∃ e ∈ events[m]?, e.call ∈ [.write, .pwrite, .writev] ∧ 0 ≤ e.returnValue ∧
    ∃ f, m < f ∧ f ≤ k ∧ ∃ d ∈ events[f]?, d.call ∈ [.fsync, .fdatasync] ∧
      0 ≤ d.returnValue ∧ d.path ∈ aliases events e.path m f

/-- The durability floor follows the file through its names. -/
def FileFloor (trace : Trace) (model : FilesystemModel) (bounds : Bounds) (k : ℕ) : Prop :=
  ∀ m, SyncedWrite trace.events k m → ∀ s, EmittedAt trace model bounds k s → m ∈ s.persisted

/-- **Where the floor follows the file**: exactly where each write that a sync
under one of the file's names should persist is in every state, most often
because a sync is also recorded on the name it was written under. -/
theorem fileFloor_iff (trace : Trace) (model : FilesystemModel) (bounds : Bounds)
    (k : Fin trace.events.length) :
    FileFloor trace model bounds k ↔ ∀ m, SyncedWrite trace.events k m →
      Unavoidable model trace.events bounds.maxUnpersistedWindow k m := by
  refine forall₂_congr fun m hm => ?_
  obtain ⟨e, he, hcall, hret, f, hmf, hfk, -⟩ := hm
  refine emitted_forall_iff k.isLt (by omega) ⟨e, he, ?_, hret⟩
  simp only [List.mem_cons, List.not_mem_nil, or_false] at hcall
  rcases hcall with h | h | h <;> simp [h, mutating]

/-- A write, a rename of its file, and a sync of the file under its new name. -/
def renamedTrace : Trace where
  header := ⟨1, 1⟩
  events := [callAt 0 .write "/db/f.tmp", { callAt 1 .rename "/db/f.tmp" with path2 := "/db/f" },
    callAt 2 .open_ "/db/f", callAt 3 .fsync "/db/f"]
  markers := []

/-- A state without the write is emitted although its file was synced under
its new name. -/
theorem write_lost_after_renamed_fsync :
    SyncedWrite renamedTrace.events 3 0 ∧ EmittedAt renamedTrace xfs ⟨false, 8⟩ 3 ⟨3, [], []⟩ ∧
      ¬ FileFloor renamedTrace xfs ⟨false, 8⟩ 3 := by
  have hsynced : SyncedWrite renamedTrace.events 3 0 :=
    ⟨_, rfl, by decide, by decide, 3, by decide, by decide, _, rfl, by decide, by decide,
      by decide⟩
  have hstate : EmittedAt renamedTrace xfs ⟨false, 8⟩ 3 ⟨3, [], []⟩ :=
    emittedAt_iff.mpr ⟨by decide, by decide⟩
  exact ⟨hsynced, hstate, fun h => absurd (h 0 hsynced _ hstate) (by decide)⟩

/-! ### Failed calls -/

/-- A call that changes files or directories, and failed. -/
def FailedMutation (event : TraceEvent) : Prop := event.call ∈ mutating ∧ event.returnValue < 0

instance (event : TraceEvent) : Decidable (FailedMutation event) :=
  inferInstanceAs (Decidable (_ ∧ _))

/-- `events₀` is `events` with each failed mutation replaced, in place, by a
call that neither changes nor syncs anything. -/
def Silenced (events events₀ : List TraceEvent) : Prop :=
  List.Forall₂ (fun e e₀ =>
    if FailedMutation e then e₀.call ∉ mutating ∧ e₀.call ∉ persistence else e₀ = e) events events₀

/-- Failed calls leave no mark: silencing them changes no enumeration, and no
state lists or replays one. -/
structure Unmarked (trace : Trace) : Prop where
  enumeration : ∀ trace₀, Silenced trace.events trace₀.events → ∀ options,
    enumerateCrashStates trace options = enumerateCrashStates trace₀ options
  listed : ∀ options states, enumerateCrashStates trace options = .ok states → ∀ s ∈ states,
    (∀ i ∈ s.persisted, Applied trace.events i) ∧ ∀ t ∈ s.partials, Applied trace.events t.op
  replayed : ∀ options states, enumerateCrashStates trace options = .ok states → ∀ s ∈ states,
    ∀ event bytes, (event, bytes) ∈ s.selection.applied trace → ¬ FailedMutation event

namespace Silenced

variable {events events₀ : List TraceEvent} {i j : ℕ}

lemma length_eq (h : Silenced events events₀) : events.length = events₀.length :=
  List.Forall₂.length_eq h

/-- Position by position. -/
lemma getElem? (h : Silenced events events₀) (i : ℕ) :
    (events[i]? = none ∧ events₀[i]? = none) ∨ ∃ e e₀, events[i]? = some e ∧
      events₀[i]? = some e₀ ∧
      if FailedMutation e then e₀.call ∉ mutating ∧ e₀.call ∉ persistence else e₀ = e := by
  by_cases hi : i < events.length
  · have hi₀ : i < events₀.length := h.length_eq ▸ hi
    refine Or.inr ⟨events[i], events₀[i], List.getElem?_eq_getElem hi,
      List.getElem?_eq_getElem hi₀, ?_⟩
    exact List.Forall₂.get h hi hi₀
  · have hi₀ : ¬ i < events₀.length := h.length_eq ▸ hi
    exact Or.inl ⟨by simpa using hi, by simpa using hi₀⟩

/-- The successful mutations stay where they are. -/
lemma applied_iff (h : Silenced events events₀) : Applied events i ↔ Applied events₀ i := by
  rcases h.getElem? i with ⟨he, he₀⟩ | ⟨e, e₀, he, he₀, hrel⟩
  · simp [Applied, he, he₀]
  · split at hrel
    · rename_i hfail
      simp [Applied, he, he₀, hrel.1, hfail.1, hfail.2]
    · simp [Applied, he, he₀, hrel]

lemma getElem?_of_applied (h : Silenced events events₀) (hi : Applied events i) :
    events₀[i]? = events[i]? := by
  obtain ⟨m, hm, hmut, hret⟩ := hi
  rcases h.getElem? i with ⟨he, he₀⟩ | ⟨e, e₀, he, he₀, hrel⟩
  · rw [he, he₀]
  · obtain rfl : m = e := Option.mem_unique hm he
    rw [if_neg fun hfail => absurd hfail.2 (not_lt.mpr hret)] at hrel
    rw [he, he₀, hrel]

/-- The calls that are no mutations stay as well. -/
lemma persistence_iff (h : Silenced events events₀) {path : String} :
    (∃ e ∈ events[i]?, e.call ∈ persistence ∧ 0 ≤ e.returnValue ∧ path = e.path) ↔
      ∃ e ∈ events₀[i]?, e.call ∈ persistence ∧ 0 ≤ e.returnValue ∧ path = e.path := by
  rcases h.getElem? i with ⟨he, he₀⟩ | ⟨e, e₀, he, he₀, hrel⟩
  · simp [he, he₀]
  · split at hrel
    · rename_i hfail
      have hpers : e.call ∉ persistence := by
        have hmut := hfail.1
        revert hmut
        cases e.call <;> simp [mutating, persistence]
      simp [he, he₀, hrel.2, hpers]
    · simp [he, he₀, hrel]

/-- Where every pinned operation succeeded, silencing pins the same ones. -/
lemma pinned_iff (h : Silenced events events₀) (hpin : ∀ k i, Pinned events k i → Applied events i)
    {k : ℕ} : Pinned events k i ↔ Pinned events₀ k i := by
  constructor
  · intro hp
    have hi := h.getElem?_of_applied (hpin k i hp)
    obtain ⟨m, hm, hmut, f, hif, hfk, he⟩ := hp
    exact ⟨m, hi ▸ hm, hmut, f, hif, hfk, h.persistence_iff.mp he⟩
  · rintro ⟨m, hm, hmut, f, hif, hfk, he⟩
    refine ⟨m, ?_, hmut, f, hif, hfk, h.persistence_iff.mpr he⟩
    rcases h.getElem? i with ⟨-, he₀⟩ | ⟨e, e₀, he', he₀, hrel⟩
    · simp [he₀] at hm
    · obtain rfl : m = e₀ := Option.mem_unique hm he₀
      split at hrel
      · exact absurd hmut hrel.1
      · rw [he', ← hrel, Option.mem_some]

/-- The legality filter sees no difference on successful mutations. -/
lemma existsOnDisk_eq (h : Silenced events events₀) {persisted : List ℕ}
    (hall : ∀ i ∈ persisted, Applied events i) :
    existsOnDisk events persisted = existsOnDisk events₀ persisted := by
  have hbefore : ∀ t ∈ persisted, ∀ j, SamePathBefore events t j ↔ SamePathBefore events₀ t j := by
    intro t ht j
    rw [SamePathBefore, SamePathBefore, h.getElem?_of_applied (hall t ht)]
    refine and_congr_right fun _ => exists_congr fun e => and_congr_right fun _ => ?_
    rcases h.getElem? j with ⟨hc, hc₀⟩ | ⟨c, c₀, hc, hc₀, hrel⟩
    · simp [hc, hc₀]
    · split at hrel
      · rename_i hfail
        simp [hc, hc₀, hrel.1, not_le.mpr hfail.2]
      · simp [hc, hc₀, hrel]
  rw [Bool.eq_iff_iff, existsOnDisk_iff, existsOnDisk_iff]
  refine forall₂_congr fun t ht => ?_
  rw [ResizesAt, ResizesAt, h.getElem?_of_applied (hall t ht)]
  simp only [hbefore t ht]

end Silenced

namespace CrashPoint

variable {events events₀ : List TraceEvent} {W : ℤ}

lemma applied_of_mem_issued (hpin : ∀ k i, Pinned events k i → Applied events i) {i : ℕ}
    (hi : i ∈ issued events W k) : Applied events i := by
  rcases mem_issued.mp hi with h | h
  · exact hpin k i h
  · exact (mem_free.mp h).2.1

/-- The torn variants of a state whose window holds successful mutations. -/
lemma tornStates_silenced (h : Silenced events events₀) {ws persisted : List ℕ}
    (hws : ∀ i ∈ ws, Applied events i) :
    tornStates events ws k persisted = tornStates events₀ ws k persisted := by
  rw [tornStates, tornStates, List.flatMap_def, List.flatMap_def]
  congr 1
  refine List.map_congr_left fun i hi => ?_
  rw [h.getElem?_of_applied (hws i hi)]

/-- Silencing changes no crash point where every pinned operation succeeded. -/
lemma states_silenced (h : Silenced events events₀)
    (hpin : ∀ k i, Pinned events k i → Applied events i) :
    states events model bounds k = states events₀ model bounds k := by
  have hfree : free events k = free events₀ k := by
    rw [free_eq, free_eq]
    refine List.filter_congr fun j _ => ?_
    rw [decide_eq_decide, h.applied_iff, h.pinned_iff hpin]
  have hwindow : ∀ W, window events W k = window events₀ W k := fun W => by
    rw [window, window, hfree]
  have halways : ∀ W, alwaysPresent events W k = alwaysPresent events₀ W k := fun W => by
    refine sortedSet_eq_iff.mpr fun a => ?_
    rw [List.mem_append, List.mem_append, mem_pinnedBy, mem_pinnedBy, h.pinned_iff hpin, older,
      older, hfree]
  have hpersisted : ∀ W mask, persistedOf events W k mask = persistedOf events₀ W k mask :=
    fun W mask => by rw [persistedOf, persistedOf, halways, hwindow]
  have hpre : ∀ W, prefixStates events W k = prefixStates events₀ W k := fun W => by
    rw [prefixStates, prefixStates, issued, issued, halways, hwindow]
  have hmask : maskStates events bounds k = maskStates events₀ bounds k := by
    simp only [maskStates, ← hwindow, ← hpersisted]
    refine List.flatMap_congr fun mask _ => ?_
    have hissued : ∀ i ∈ persistedOf events bounds.maxUnpersistedWindow k mask,
        Applied events i :=
      fun i hi => applied_of_mem_issued hpin (mem_issued_of_mem_persistedOf hi)
    rw [← h.existsOnDisk_eq hissued, ← tornStates_silenced h]
    exact fun i hi => (mem_free.mp (window_sublist.subset hi)).2.1
  rw [states, states, hpre, hmask]

end CrashPoint

/-- **Where failed calls leave no mark**: exactly where no failed mutation is
followed by a successful persistence call on its path. The pinning scan is the
one that does not look at return values. -/
theorem failedCall_iff (trace : Trace) : Unmarked trace ↔
    ∀ k i, Pinned trace.events k i → Applied trace.events i := by
  constructor
  · rintro ⟨-, hlisted, -⟩ k i hpin
    obtain ⟨m, hm, hmut, f, hif, hfk, e, he, hpers⟩ := hpin
    have hpin : Pinned trace.events f i := ⟨m, hm, hmut, f, hif, le_rfl, e, he, hpers⟩
    have hf : f < trace.events.length := (List.getElem?_eq_some_iff.mp he).1
    -- all issued operations together are a state of a total-order model
    have hstate : EmittedAt trace ext4Journal ⟨true, 1⟩ f
        ⟨f, CrashPoint.issued trace.events 1 f, []⟩ :=
      emittedAt_iff.mpr ⟨hf, CrashPoint.issued_mem_states rfl⟩
    obtain ⟨points, states, hok, hs, -⟩ := hstate
    exact (hlisted _ states hok _ hs).1 i (CrashPoint.mem_issued.mpr (Or.inl hpin))
  · intro hpin
    have hlisted : ∀ options states, enumerateCrashStates trace options = .ok states →
        ∀ s ∈ states, (∀ i ∈ s.persisted, Applied trace.events i) ∧
          ∀ t ∈ s.partials, Applied trace.events t.op := by
      intro options states hok s hs
      have hmem := (emittedAt_iff.mp ⟨options.crashPoints, states, hok, hs, rfl⟩).2
      refine ⟨fun i hi => ?_, fun t ht => ?_⟩
      · exact CrashPoint.applied_of_mem_issued hpin (CrashPoint.persisted_subset_issued hmem hi)
      · have hwindow := (CrashPoint.torn_window hmem ht).1
        exact (CrashPoint.mem_free.mp (CrashPoint.window_sublist.subset hwindow)).2.1
    refine ⟨fun trace₀ h options => ?_, hlisted, ?_⟩
    · have hfrom : ∀ ks, enumerateFrom trace.events options.model options.bounds ks =
          enumerateFrom trace₀.events options.model options.bounds ks := by
        intro ks
        induction ks with
        | nil => rfl
        | cons k ks ih =>
            rw [enumerateFrom, enumerateFrom, ih, h.length_eq, CrashPoint.states_silenced h hpin]
      rw [enumerateCrashStates, enumerateCrashStates, hfrom, h.length_eq]
    · intro options states hok s hs event bytes hmem hfail
      obtain ⟨index, hev, -, hsel⟩ := mem_applied.mp hmem
      have happlied : Applied trace.events index := by
        obtain ⟨hpersisted, hpartials⟩ := hlisted options states hok s hs
        rcases hsel with hi | ⟨t, ht, rfl⟩
        · exact hpersisted index hi
        · exact hpartials t ht
      obtain ⟨m, hm, -, hret⟩ := happlied
      obtain rfl : m = event := Option.mem_unique hm hev
      exact absurd hfail.2 (not_lt.mpr hret)

/-- A write the kernel rejected, and a sync of its file. -/
def rejectedTrace : Trace where
  header := ⟨1, 1⟩
  events := [{ callAt 0 .write "/db/a" with returnValue := -1, errno := 28 },
    callAt 1 .fsync "/db/a"]
  markers := []

/-- The rejected write is in the only state of the crash point after the sync,
and replay applies it. -/
theorem failed_write_enumerated :
    EmittedAt rejectedTrace xfs ⟨false, 8⟩ 1 ⟨1, [0], []⟩ ∧ ¬ Applied rejectedTrace.events 0 ∧
      ¬ Unmarked rejectedTrace := by
  have hstate : EmittedAt rejectedTrace xfs ⟨false, 8⟩ 1 ⟨1, [0], []⟩ :=
    emittedAt_iff.mpr ⟨by decide, by decide⟩
  have hfailed : ¬ Applied rejectedTrace.events 0 := by decide
  refine ⟨hstate, hfailed, fun h => hfailed ?_⟩
  obtain ⟨points, states, hok, hs, -⟩ := hstate
  exact (h.listed _ states hok _ hs).1 0 (by decide)

end CrashFuzz
