import CrashFuzz.Lib.Subsets
import CrashFuzz.Trace.Reader

/-!
Crash state enumeration (`core/src/enumerate/states.ts`) and the filesystem
models it reads (`core/src/graph/models.ts`).

* `pinnedBy`: the operations a returned persistence call forces to be present.
* `CrashPoint.free`, `window`, `older`, `alwaysPresent`: how one crash point
  splits the operations issued so far.
* `existsOnDisk`: the legality filter of a selection.
* `enumerateCrashStates`: prefixes under a total-order model, subsets of the
  window with their torn variants under a reordering one.

The second half states once what each of these holds (`mem_pinnedBy`,
`mem_free`, `mem_older`, `mem_prefixStates`, `mem_maskStates`), and
`emittedAt_iff` reduces a statement about the enumeration to one about a single
crash point.
-/

namespace CrashFuzz

open Subsets

/-! ### The filesystem models -/

/-- `FilesystemModel`: one flag per row of the property table. -/
structure FilesystemModel where
  name : String
  /-- Every operation persists in program order (data journaling modes). -/
  totalOrder : Bool
  /-- An append followed by a rename of the same file persists in that order. -/
  orderedAppendRename : Bool
  /-- fsync on a new file also persists its directory entry. -/
  fsyncPersistsDirEntry : Bool
  /-- A 4 KiB overwrite is atomic (data journaling or copy-on-write). -/
  atomicBlockOverwrite : Bool
  /-- Directory operations on different directories may reorder. -/
  reordersDirectoryOps : Bool
  deriving DecidableEq, Repr

def ext4Ordered : FilesystemModel where
  name := "ext4-ordered"
  totalOrder := false
  orderedAppendRename := true
  fsyncPersistsDirEntry := true
  atomicBlockOverwrite := false
  reordersDirectoryOps := false

def ext4Journal : FilesystemModel where
  name := "ext4-journal"
  totalOrder := true
  orderedAppendRename := true
  fsyncPersistsDirEntry := true
  atomicBlockOverwrite := true
  reordersDirectoryOps := false

def xfs : FilesystemModel where
  name := "xfs"
  totalOrder := false
  orderedAppendRename := false
  fsyncPersistsDirEntry := false
  atomicBlockOverwrite := false
  reordersDirectoryOps := false

def btrfs : FilesystemModel where
  name := "btrfs"
  totalOrder := false
  orderedAppendRename := false
  fsyncPersistsDirEntry := false
  atomicBlockOverwrite := false
  reordersDirectoryOps := true

/-! ### The enumerator -/

/-- `Bounds`. -/
structure Bounds where
  /-- Model partial writes at sector granularity. -/
  tornWrites : Bool
  /-- Largest number of unpersisted operations enumerated exhaustively. -/
  maxUnpersistedWindow : ℤ
  deriving DecidableEq, Repr

/-- `EnumerateOptions`; every crash point of the trace when none are given. -/
structure EnumerateOptions where
  model : FilesystemModel
  bounds : Bounds
  crashPoints : Option (List ℕ) := none

/-- An operation present as a sector-aligned prefix of its payload. -/
structure TornOp where
  op : ℕ
  bytes : ℕ
  deriving DecidableEq, Repr

/-- `CrashState`; the field `partial` of the source is `partials` here. -/
structure CrashState where
  /-- Index of the last operation issued before the crash. -/
  crashPoint : ℕ
  /-- Indices of the operations present on disk in this state. -/
  persisted : List ℕ
  partials : List TornOp
  deriving DecidableEq, Repr

/-- `SECTOR_BYTES`. -/
def sectorBytes : ℕ := 512

/-- `MUTATING`: calls that change file contents or the directory tree. -/
def mutating : List CallName :=
  [.write, .pwrite, .writev, .truncate, .ftruncate, .mkdir, .unlink, .link, .rename]

/-- `PERSISTENCE`. -/
def persistence : List CallName := [.fsync, .fdatasync, .syncFileRange]

/-- `NEEDS_EXISTING_FILE`: operations that need their target to exist on disk. -/
def needsExistingFile : List CallName := [.truncate, .ftruncate]

/-- `pinnedBy`: operations that a returned persistence call forces to be
present, read off the equality of recorded paths. -/
def pinnedBy (events : List TraceEvent) (upto : ℕ) : List ℕ :=
  ((List.range (upto + 1)).flatMap fun i =>
    match events[i]? with
    | none => []
    | some event =>
        if event.call ∉ persistence ∨ event.returnValue < 0 then []
        else (List.range i).filter fun j =>
          ∃ earlier ∈ events[j]?, earlier.call ∈ mutating ∧ earlier.path = event.path).dedup

/-- `strictSectorPrefixes`: the sector-aligned prefix lengths of a write's
payload, without nothing and without the whole payload. -/
def strictSectorPrefixes (event : TraceEvent) : List ℕ :=
  if event.call ≠ .write ∧ event.call ≠ .pwrite ∧ event.call ≠ .writev then []
  else
    let sectors := (event.length + (sectorBytes - 1)) / sectorBytes
    (List.range' 1 (sectors - 1)).map (· * sectorBytes)

/-- `existsOnDisk`: no size change is kept whose path has earlier successful
mutations in the trace, all of them dropped. -/
def existsOnDisk (events : List TraceEvent) (persisted : List ℕ) : Bool :=
  persisted.all fun index =>
    match events[index]? with
    | none => true
    | some event =>
        if event.call ∉ needsExistingFile then true
        else
          let candidates := (List.range index).filter fun j =>
            ∃ candidate ∈ events[j]?, candidate.path = event.path ∧
              candidate.call ∈ mutating ∧ ¬ candidate.returnValue < 0
          let earlier := !candidates.isEmpty
          let earlierPersisted := candidates.any (· ∈ persisted)
          !(earlier && !earlierPersisted)

namespace CrashPoint

/-- Successful mutations issued up to the crash point that are not pinned. -/
def free (events : List TraceEvent) (crashPoint : ℕ) : List ℕ :=
  (List.range (crashPoint + 1)).filter fun i =>
    (∃ event ∈ events[i]?, ¬ (event.call ∉ mutating ∨ event.returnValue < 0)) ∧
      i ∉ pinnedBy events crashPoint

/-- `free.slice(-maxUnpersistedWindow)`. -/
def window (events : List TraceEvent) (W : ℤ) (crashPoint : ℕ) : List ℕ :=
  sliceFrom (free events crashPoint) (-W)

/-- Operations older than the window, which are treated as persisted. -/
def older (events : List TraceEvent) (W : ℤ) (crashPoint : ℕ) : List ℕ :=
  sliceTo (free events crashPoint) (max 0 ((free events crashPoint).length - W))

def alwaysPresent (events : List TraceEvent) (W : ℤ) (crashPoint : ℕ) : List ℕ :=
  sortedSet (pinnedBy events crashPoint ++ older events W crashPoint)

/-- The operations of the total-order branch. -/
def issued (events : List TraceEvent) (W : ℤ) (crashPoint : ℕ) : List ℕ :=
  sortedSet (alwaysPresent events W crashPoint ++ window events W crashPoint)

/-- The `persisted` list of one mask. -/
def persistedOf (events : List TraceEvent) (W : ℤ) (crashPoint mask : ℕ) : List ℕ :=
  (alwaysPresent events W crashPoint ++
    pick (bitAnd32 mask) (window events W crashPoint)).insertionSort (· ≤ ·)

/-- The total-order branch: every operation persists in program order, so a
legal state is a prefix of the issued mutations. -/
def prefixStates (events : List TraceEvent) (W : ℤ) (crashPoint : ℕ) : List CrashState :=
  (List.range ((issued events W crashPoint).length + 1)).flatMap fun take =>
    let persisted := (issued events W crashPoint).take take
    if (alwaysPresent events W crashPoint).all (· ∈ persisted) then [⟨crashPoint, persisted, []⟩]
    else []

/-- The torn variants of one untorn state: an operation of the window that is
absent may be on disk as a sector-aligned prefix of its payload. -/
def tornStates (events : List TraceEvent) (window : List ℕ) (crashPoint : ℕ)
    (persisted : List ℕ) : List CrashState :=
  window.flatMap fun op =>
    if op ∈ persisted then []
    else
      match events[op]? with
      | none => []
      | some event => (strictSectorPrefixes event).map fun bytes =>
          ⟨crashPoint, persisted, [⟨op, bytes⟩]⟩

/-- The reordering branch: every subset of the window the filter admits. -/
def maskStates (events : List TraceEvent) (bounds : Bounds) (crashPoint : ℕ) : List CrashState :=
  let W := bounds.maxUnpersistedWindow
  (List.range (maskCount (window events W crashPoint).length)).flatMap fun mask =>
    let persisted := persistedOf events W crashPoint mask
    if !existsOnDisk events persisted then []
    else
      ⟨crashPoint, persisted, []⟩ ::
        if bounds.tornWrites then
          tornStates events (window events W crashPoint) crashPoint persisted
        else []

/-- The states of one crash point, the body of the loop of
`enumerateCrashStates`. -/
def states (events : List TraceEvent) (model : FilesystemModel) (bounds : Bounds)
    (crashPoint : ℕ) : List CrashState :=
  if model.totalOrder then prefixStates events bounds.maxUnpersistedWindow crashPoint
  else maskStates events bounds crashPoint

end CrashPoint

/-- The loop over crash points; one outside the trace reads an undefined event. -/
def enumerateFrom (events : List TraceEvent) (model : FilesystemModel) (bounds : Bounds) :
    List ℕ → Except Thrown (List CrashState)
  | [] => .ok []
  | crashPoint :: rest =>
      if crashPoint < events.length then do
        let states ← enumerateFrom events model bounds rest
        return CrashPoint.states events model bounds crashPoint ++ states
      else .error .typeError

/-- `enumerateCrashStates`. -/
def enumerateCrashStates (trace : Trace) (options : EnumerateOptions) :
    Except Thrown (List CrashState) :=
  enumerateFrom trace.events options.model options.bounds
    (options.crashPoints.getD (List.range trace.events.length))

/-! ### What one crash point holds -/

/-- Position `i` holds a mutation that succeeded. -/
def Applied (events : List TraceEvent) (i : ℕ) : Prop :=
  ∃ m ∈ events[i]?, m.call ∈ mutating ∧ 0 ≤ m.returnValue

instance (events : List TraceEvent) (i : ℕ) : Decidable (Applied events i) :=
  inferInstanceAs (Decidable (∃ m ∈ events[i]?, _))

/-- Position `i` holds a mutation, and a successful persistence call on the
same recorded path follows it at or before `k`. -/
def Pinned (events : List TraceEvent) (k i : ℕ) : Prop :=
  ∃ m ∈ events[i]?, m.call ∈ mutating ∧ ∃ f, i < f ∧ f ≤ k ∧
    ∃ e ∈ events[f]?, e.call ∈ persistence ∧ 0 ≤ e.returnValue ∧ m.path = e.path

variable {events : List TraceEvent} {k i : ℕ} {W : ℤ}

lemma mem_pinnedBy : i ∈ pinnedBy events k ↔ Pinned events k i := by
  rw [pinnedBy, List.mem_dedup, List.mem_flatMap]
  constructor
  · rintro ⟨f, hf, hi⟩
    cases hev : events[f]? with
    | none => simp [hev] at hi
    | some e =>
        simp only [hev] at hi
        split at hi
        · simp at hi
        · rename_i hcall
          push Not at hcall
          obtain ⟨hlt, m, hm, hmut, hpath⟩ : i < f ∧
              ∃ m ∈ events[i]?, m.call ∈ mutating ∧ m.path = e.path := by simpa using hi
          exact ⟨m, hm, hmut, f, hlt, by simpa [Nat.lt_succ_iff] using hf, e, by simp [hev],
            hcall.1, hcall.2, hpath⟩
  · rintro ⟨m, hm, hmut, f, hlt, hfk, e, he, hcall, hret, hpath⟩
    refine ⟨f, by simpa [Nat.lt_succ_iff] using hfk, ?_⟩
    rw [Option.mem_def.mp he]
    have hskip : ¬ (e.call ∉ persistence ∨ e.returnValue < 0) := by simp [hcall, hret]
    simp only [if_neg hskip, List.mem_filter, List.mem_range, decide_eq_true_eq]
    exact ⟨hlt, m, hm, hmut, hpath⟩

lemma Pinned.lt (h : Pinned events k i) : i < k := by
  obtain ⟨-, -, -, f, hlt, hfk, -⟩ := h
  omega

namespace CrashPoint

lemma mem_free : i ∈ free events k ↔ i ≤ k ∧ Applied events i ∧ ¬ Pinned events k i := by
  rw [free, List.mem_filter, List.mem_range, decide_eq_true_eq, mem_pinnedBy, Nat.lt_succ_iff]
  simp [Applied]

lemma pairwise_free : (free events k).Pairwise (· < ·) := List.pairwise_lt_range.filter _

/-- Fewer operations follow an unpinned operation than there are. -/
lemma length_later_lt (h : i ∈ free events k) :
    ((free events k).filter (i < ·)).length < (free events k).length := by
  refine lt_of_le_of_ne (List.length_filter_le _ _) fun heq => ?_
  simpa using (List.length_filter_eq_length_iff.mp heq) i h

/-- An unpinned operation is older than the window when at least `W` unpinned
operations follow it. -/
lemma mem_older : i ∈ older events W k ↔
    i ∈ free events k ∧ W ≤ ((free events k).filter (i < ·)).length := by
  by_cases hi : i ∈ free events k
  · rw [older, sliceTo, mem_take_iff pairwise_free hi, sliceIndex, if_neg (by omega)]
    have hlt := length_later_lt hi
    constructor
    · exact fun h => ⟨hi, by omega⟩
    · rintro ⟨-, h⟩
      omega
  · exact iff_of_false (fun h => hi ((List.take_sublist _ _).subset h)) fun h => hi h.1

lemma window_sublist : (window events W k).Sublist (free events k) := List.drop_sublist _ _

lemma pairwise_window : (window events W k).Pairwise (· < ·) := pairwise_free.sublist window_sublist

/-- Every unpinned operation is older than the window or in it. -/
lemma mem_older_or_window (h : i ∈ free events k) :
    i ∈ older events W k ∨ i ∈ window events W k := by
  rw [← List.take_append_drop (sliceIndex (free events k).length (-W)) (free events k),
    List.mem_append] at h
  refine h.imp (fun h => ?_) fun h => h
  have hi := (List.take_sublist _ _).subset h
  rw [mem_take_iff pairwise_free hi, sliceIndex] at h
  have hlt := length_later_lt hi
  refine mem_older.mpr ⟨hi, ?_⟩
  split at h <;> omega

/-- With a positive bound the window and the older operations are disjoint. -/
lemma notMem_window_of_older (hW : 1 ≤ W) (h : i ∈ older events W k) :
    i ∉ window events W k := by
  obtain ⟨hi, hcount⟩ := mem_older.mp h
  rw [window, sliceFrom, mem_drop_iff pairwise_free hi, sliceIndex, if_pos (by omega)]
  omega

lemma mem_alwaysPresent :
    i ∈ alwaysPresent events W k ↔ Pinned events k i ∨ i ∈ older events W k := by
  rw [alwaysPresent, mem_sortedSet, List.mem_append, mem_pinnedBy]

lemma pairwise_alwaysPresent : (alwaysPresent events W k).Pairwise (· < ·) := pairwise_sortedSet _

lemma mem_issued : i ∈ issued events W k ↔ Pinned events k i ∨ i ∈ free events k := by
  rw [issued, mem_sortedSet, List.mem_append, mem_alwaysPresent, or_assoc]
  refine or_congr_right ⟨?_, mem_older_or_window⟩
  exact fun h => h.elim (fun h => (mem_older.mp h).1) fun h => window_sublist.subset h

lemma pairwise_issued : (issued events W k).Pairwise (· < ·) := pairwise_sortedSet _

lemma alwaysPresent_subset_issued (h : i ∈ alwaysPresent events W k) : i ∈ issued events W k :=
  mem_sortedSet.mpr (List.mem_append_left _ h)

lemma mem_persistedOf {mask : ℕ} : i ∈ persistedOf events W k mask ↔
    i ∈ alwaysPresent events W k ∨ i ∈ pick (bitAnd32 mask) (window events W k) := by
  simp [persistedOf]

/-- The states of a total-order model. -/
lemma mem_prefixStates {s : CrashState} : s ∈ prefixStates events W k ↔
    ∃ n ≤ (issued events W k).length, s = ⟨k, (issued events W k).take n, []⟩ ∧
      ∀ a ∈ alwaysPresent events W k, a ∈ (issued events W k).take n := by
  rw [prefixStates, List.mem_flatMap]
  refine exists_congr fun n => ?_
  rw [List.mem_range, Nat.lt_succ_iff]
  refine and_congr_right fun _ => ?_
  by_cases hall : ∀ a ∈ alwaysPresent events W k, a ∈ (issued events W k).take n
  · rw [if_pos (by simpa using hall), List.mem_singleton]
    exact ⟨fun h => ⟨h, hall⟩, fun h => h.1⟩
  · rw [if_neg (by simpa using hall)]
    exact iff_of_false (by simp) fun h => hall h.2

/-- The torn variants of a state. -/
lemma mem_tornStates {ws persisted : List ℕ} {s : CrashState} :
    s ∈ tornStates events ws k persisted ↔ ∃ op ∈ ws, op ∉ persisted ∧
      ∃ event ∈ events[op]?, ∃ bytes ∈ strictSectorPrefixes event,
        s = ⟨k, persisted, [⟨op, bytes⟩]⟩ := by
  rw [tornStates, List.mem_flatMap]
  refine exists_congr fun op => and_congr_right fun _ => ?_
  by_cases hop : op ∈ persisted
  · simp [hop]
  · cases hev : events[op]? with
    | none => simp [hop]
    | some event => simp [hop, eq_comm]

/-- The states of a reordering model. -/
lemma mem_maskStates {bounds : Bounds} {s : CrashState} : s ∈ maskStates events bounds k ↔
    ∃ mask < maskCount (window events bounds.maxUnpersistedWindow k).length,
      existsOnDisk events (persistedOf events bounds.maxUnpersistedWindow k mask) = true ∧
      (s = ⟨k, persistedOf events bounds.maxUnpersistedWindow k mask, []⟩ ∨
        bounds.tornWrites = true ∧
          s ∈ tornStates events (window events bounds.maxUnpersistedWindow k) k
            (persistedOf events bounds.maxUnpersistedWindow k mask)) := by
  rw [maskStates, List.mem_flatMap]
  refine exists_congr fun mask => ?_
  rw [List.mem_range]
  refine and_congr_right fun _ => ?_
  generalize persistedOf events bounds.maxUnpersistedWindow k mask = persisted
  cases hdisk : existsOnDisk events persisted with
  | false => simp [hdisk]
  | true => cases bounds.tornWrites <;> simp [hdisk]

lemma crashPoint_of_mem {model : FilesystemModel} {bounds : Bounds} {s : CrashState}
    (h : s ∈ states events model bounds k) : s.crashPoint = k := by
  rw [states] at h
  split at h
  · obtain ⟨n, -, rfl, -⟩ := mem_prefixStates.mp h
    rfl
  · obtain ⟨mask, -, -, rfl | ⟨-, htorn⟩⟩ := mem_maskStates.mp h
    · rfl
    · obtain ⟨op, -, -, event, -, bytes, -, rfl⟩ := mem_tornStates.mp htorn
      rfl

end CrashPoint

/-! ### The whole enumeration -/

/-- The enumeration succeeds exactly on crash points inside the trace, and
concatenates their states. -/
lemma enumerateFrom_eq_ok {model : FilesystemModel} {bounds : Bounds} {ks : List ℕ}
    {out : List CrashState} : enumerateFrom events model bounds ks = .ok out ↔
      (∀ k ∈ ks, k < events.length) ∧
        out = ks.flatMap (CrashPoint.states events model bounds) := by
  induction ks generalizing out with
  | nil => simp [enumerateFrom, eq_comm]
  | cons k ks ih =>
      rw [enumerateFrom]
      by_cases hk : k < events.length
      · rw [if_pos hk]
        cases hrest : enumerateFrom events model bounds ks with
        | error e =>
            have hbad : ¬ ∀ k ∈ ks, k < events.length := by
              intro hall
              have hok : enumerateFrom events model bounds ks =
                  .ok (ks.flatMap (CrashPoint.states events model bounds)) := ih.mpr ⟨hall, rfl⟩
              rw [hrest] at hok
              cases hok
            refine iff_of_false (by simp [bind, Except.bind]) fun h => hbad fun a ha => ?_
            exact h.1 a (List.mem_cons_of_mem _ ha)
        | ok rest =>
            obtain ⟨hall, rfl⟩ := ih.mp hrest
            simp only [bind, Except.bind, pure, Except.pure, Except.ok.injEq,
              List.forall_mem_cons, List.flatMap_cons]
            exact ⟨fun h => ⟨⟨hk, hall⟩, h.symm⟩, fun h => h.2.symm⟩
      · rw [if_neg hk]
        exact iff_of_false (by simp) fun h => hk (h.1 k (by simp))

/-- `s` is a state `enumerateCrashStates` emits at crash point `k`, for some
choice of crash points. -/
def EmittedAt (trace : Trace) (model : FilesystemModel) (bounds : Bounds) (k : ℕ)
    (s : CrashState) : Prop :=
  ∃ crashPoints states, enumerateCrashStates trace ⟨model, bounds, crashPoints⟩ = .ok states ∧
    s ∈ states ∧ s.crashPoint = k

/-- What is emitted at a crash point does not depend on the other ones. -/
theorem emittedAt_iff {trace : Trace} {model : FilesystemModel} {bounds : Bounds}
    {s : CrashState} : EmittedAt trace model bounds k s ↔
      k < trace.events.length ∧ s ∈ CrashPoint.states trace.events model bounds k := by
  constructor
  · rintro ⟨crashPoints, states, hok, hs, rfl⟩
    obtain ⟨hall, rfl⟩ := enumerateFrom_eq_ok.mp hok
    obtain ⟨k, hk, hsk⟩ := List.mem_flatMap.mp hs
    rw [CrashPoint.crashPoint_of_mem hsk]
    exact ⟨hall k hk, hsk⟩
  · rintro ⟨hk, hs⟩
    refine ⟨some [k], CrashPoint.states trace.events model bounds k, ?_, hs,
      CrashPoint.crashPoint_of_mem hs⟩
    exact enumerateFrom_eq_ok.mpr ⟨by simpa using hk, by simp⟩

/-- Each crash point contributes its states as often as it is listed. -/
lemma filter_flatMap_states {model : FilesystemModel} {bounds : Bounds} (ks : List ℕ) :
    (ks.flatMap (CrashPoint.states events model bounds)).filter (·.crashPoint = k) =
      (List.replicate (ks.count k) k).flatMap (CrashPoint.states events model bounds) := by
  induction ks with
  | nil => rfl
  | cons j ks ih =>
      rw [List.flatMap_cons, List.filter_append, ih]
      by_cases hj : j = k
      · subst hj
        have hall : (CrashPoint.states events model bounds j).filter (·.crashPoint = j) =
            CrashPoint.states events model bounds j := by
          rw [List.filter_eq_self]
          intro s hs
          simp [CrashPoint.crashPoint_of_mem hs]
        rw [hall, List.count_cons_self, List.replicate_succ, List.flatMap_cons]
      · have hnone : (CrashPoint.states events model bounds j).filter (·.crashPoint = k) = [] := by
          rw [List.filter_eq_nil_iff]
          intro s hs
          simpa [CrashPoint.crashPoint_of_mem hs] using hj
        rw [hnone, List.count_cons_of_ne hj, List.nil_append]

/-- An enumeration whose crash points lie inside the trace succeeds, and emits
at one that is listed once what that crash point holds, in order. -/
theorem exists_enumerateCrashStates {trace : Trace} {options : EnumerateOptions}
    (hks : ∀ j ∈ options.crashPoints.getD (List.range trace.events.length),
      j < trace.events.length)
    (hk : (options.crashPoints.getD (List.range trace.events.length)).count k = 1) :
    ∃ out, enumerateCrashStates trace options = .ok out ∧
      out.filter (·.crashPoint = k) =
        CrashPoint.states trace.events options.model options.bounds k := by
  refine ⟨_, enumerateFrom_eq_ok.mpr ⟨hks, rfl⟩, ?_⟩
  rw [filter_flatMap_states, hk, List.replicate_one, List.flatMap_singleton]

end CrashFuzz
