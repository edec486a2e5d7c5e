import Mathlib.Data.UInt
import CrashFuzz.Lib.FileTree
import CrashFuzz.Trace.Replay

/-!
The effect of a replay on a file tree.

* `FsCall.exec`: what one call does to the disk; `runCalls` stops at the first
  one that throws.
* `below`: the location of a recorded path from `rootDir` down, which replay
  finds below `targetDir` (`BelowRoot.resolve_rebase`).
* `EmptyDir`: where a replay starts.
* `Applicable` and `applyEvent`: when the calls of one event succeed and what
  they leave, once its operands lie below `rootDir`
  (`runCalls_applySelected_iff`).
-/

namespace CrashFuzz

open PosixPath FileTree

/-- A file system, with every location given from its root. -/
abbrev Disk := Volume Chars UInt8

/-- The payload store: what `readFileSync` finds in an object. -/
abbrev Store := Chars → Option (List UInt8)

/-- One call into `node:fs`. -/
def FsCall.exec (cwd : Chars) (store : Store) (disk : Disk) : FsCall → Except Errno Disk
  | .readPayload object => if (store object).isSome then .ok disk else .error .noent
  | .mkdirRecursive path => disk.mkdirAll (resolve cwd path)
  | .openAppend path => disk.create (resolve cwd path)
  | .writePayload path object bytes offset =>
      match store object with
      | none => .error .noent
      | some payload => do
          let disk ← disk.create (resolve cwd path)
          disk.write (resolve cwd path) offset.toNat (payload.take (bytes.getD payload.length))
  | .truncate path length => disk.truncate (resolve cwd path) length
  | .rename source dest => disk.rename (resolve cwd source) (resolve cwd dest)
  | .link source dest => disk.link (resolve cwd source) (resolve cwd dest)
  | .rm path => disk.remove (resolve cwd path)

/-- The calls of a replay, up to the first one that throws. -/
def runCalls (cwd : Chars) (store : Store) (disk : Disk) (calls : List FsCall) :
    Except Errno Disk :=
  calls.foldlM (FsCall.exec cwd store) disk

variable (options : ReplayOptions)

namespace ReplayOptions

/-- The location of `rootDir`. -/
def root : List Chars := resolve options.cwd.toList options.rootDir.toList

/-- The location of `targetDir`. -/
def target : List Chars := resolve options.cwd.toList options.targetDir.toList

end ReplayOptions

/-- The names that lead from `rootDir` to a recorded path. -/
def below (path : String) : List Chars :=
  (resolve options.cwd.toList path.toList).drop options.root.length

/-- A recorded path lies strictly below `rootDir`. -/
def BelowRoot (path : String) : Prop :=
  options.root <+: resolve options.cwd.toList path.toList ∧
    resolve options.cwd.toList path.toList ≠ options.root

/-- Where replay finds a path recorded below `rootDir`. -/
def place (path : String) : List Chars := options.target ++ below options path

variable {options} {path : String}

namespace BelowRoot

lemma eq_append (h : BelowRoot options path) :
    resolve options.cwd.toList path.toList = options.root ++ below options path := by
  obtain ⟨r, hr⟩ := h.1
  rw [below, ← hr, List.drop_left]

lemma below_ne_nil (h : BelowRoot options path) : below options path ≠ [] := by
  intro hnil
  refine h.2 ?_
  rw [h.eq_append, hnil, List.append_nil]

lemma place_ne_nil (h : BelowRoot options path) : place options path ≠ [] := by
  rw [place]
  exact List.append_ne_nil_of_right_ne_nil _ h.below_ne_nil

lemma proper (_ : BelowRoot options path) {c : Chars} (hc : c ∈ below options path) : Proper c :=
  resolve_proper (List.mem_of_mem_drop hc)

lemma commonLength_eq (h : BelowRoot options path) :
    commonLength options.root (resolve options.cwd.toList path.toList) = options.root.length :=
  (commonLength_eq_iff _ _).mpr h.1

/-- The relative path of a path below `rootDir` is its names. -/
lemma relative_eq (h : BelowRoot options path) :
    relative options.cwd.toList options.rootDir.toList path.toList =
      unsplit (below options path) := by
  have hcommon := h.commonLength_eq
  rw [ReplayOptions.root] at hcommon
  rw [relative, hcommon, Nat.sub_self, List.replicate_zero, List.nil_append]
  rfl

lemma resolve_rebase (h : BelowRoot options path) :
    resolve options.cwd.toList (rebase options path) = place options path := by
  have hcommon := h.commonLength_eq
  rw [ReplayOptions.root] at hcommon
  rw [rebase, resolve_join_relative, hcommon, Nat.sub_self, Nat.sub_zero, List.take_length]
  rfl

/-- The directory part of a rebased path is one name shorter. -/
lemma resolve_dirname_rebase (h : BelowRoot options path) :
    resolve options.cwd.toList (dirname (rebase options path)) = (place options path).dropLast := by
  obtain ⟨names, last, hnames⟩ : ∃ names last, below options path = names ++ [last] :=
    ⟨_, _, (List.dropLast_append_getLast h.below_ne_nil).symm⟩
  have hlast : Proper last := h.proper (by rw [hnames]; simp)
  have hsplit : split (relative options.cwd.toList options.rootDir.toList path.toList) =
      names ++ [last] := by
    rw [h.relative_eq, split_unsplit h.below_ne_nil fun c hc => (h.proper hc).2.2.2, hnames]
  rw [← h.resolve_rebase, rebase, resolve_dirname_join hsplit hlast]

end BelowRoot

/-! ### The effect of one event -/

/-- What one event, whose payload is cut to `bytes` when given, leaves on the
disk. -/
def applyEvent (options : ReplayOptions) (store : Store) (disk : Disk) (event : TraceEvent)
    (bytes : Option ℕ) : Disk :=
  let path := place options event.path
  let path2 := place options event.path2
  let payload := (store (payloadObject options event)).getD []
  match event.call with
  | .write | .pwrite | .writev => (disk.ensured path).edit path
      (Volume.splice · event.offset.toNat (payload.take (bytes.getD payload.length)))
  | .truncate | .ftruncate => (disk.ensured path).edit path (Volume.resize · event.length)
  | .mkdir => disk.addDirs path.inits
  | .rename => (disk.ensured path).renamed path path2
  | .link => (disk.ensured path).linked path path2
  | .unlink => disk.removeNode path
  | .open_ | .close | .fsync | .fdatasync | .syncFileRange => disk

/-- The calls of one event succeed: no file stands on the way to its operand
and no directory in its place, the destination of a rename or link is in a
directory, and it is no directory, for a link nothing at all. -/
def Applicable (options : ReplayOptions) (disk : Disk) (event : TraceEvent) : Prop :=
  let path := place options event.path
  let path2 := place options event.path2
  let clear := (∀ q ∈ Volume.way path, disk.NoFile q) ∧ disk.node path ≠ some .dir
  match event.call with
  | .write | .pwrite | .writev | .truncate | .ftruncate | .unlink => clear
  | .mkdir => ∀ q ∈ path.inits, disk.NoFile q
  | .rename => clear ∧ (disk.ensured path).Reached path2 ∧
      (disk.ensured path).node path2 ≠ some .dir
  | .link => clear ∧ (disk.ensured path).Reached path2 ∧ (disk.ensured path).node path2 = none
  | .open_ | .close | .fsync | .fdatasync | .syncFileRange => True

/-- The operands of an event lie strictly below `rootDir`. -/
def OperandsBelow (options : ReplayOptions) (event : TraceEvent) : Prop :=
  BelowRoot options event.path ∧
    (event.call = .rename ∨ event.call = .link → BelowRoot options event.path2)

/-- The payload of a write is in the store. -/
def PayloadStored (options : ReplayOptions) (store : Store) (event : TraceEvent) : Prop :=
  event.call ∈ [.write, .pwrite, .writev] → (store (payloadObject options event)).isSome

variable {store : Store} {disk disk' : Disk} {event : TraceEvent} {bytes : Option ℕ}

lemma runCalls_nil (cwd : Chars) : runCalls cwd store disk [] = .ok disk := rfl

lemma runCalls_append (cwd : Chars) (calls calls' : List FsCall) :
    runCalls cwd store disk (calls ++ calls') =
      (do let disk ← runCalls cwd store disk calls; runCalls cwd store disk calls') :=
  List.foldlM_append

lemma runCalls_singleton (cwd : Chars) (call : FsCall) :
    runCalls cwd store disk [call] = call.exec cwd store disk := by
  rw [runCalls, List.foldlM_cons]
  simp [List.foldlM_nil]

lemma bind_eq_ok {α β : Type} {x : Except Errno α} {f : α → Except Errno β} {b : β} :
    x >>= f = .ok b ↔ ∃ a, x = .ok a ∧ f a = .ok b := by
  cases x with
  | ok a => simp [bind, Except.bind]
  | error e => simp [bind, Except.bind]

/-- A directory that exists and is empty. -/
structure EmptyDir (loc : List Chars) (disk : Disk) : Prop where
  wf : disk.WF
  dir : disk.node loc = some .dir
  empty : ∀ r ≠ [], disk.node (loc ++ r) = none

/-- A file system with one empty directory below its root. -/
def freshDisk (name : Chars) : Disk := ⟨[([], .dir), ([name], .dir)], fun _ => [], 0⟩

lemma emptyDir_freshDisk (name : Chars) : EmptyDir [name] (freshDisk name) := by
  have hnode : ∀ q, (freshDisk name).node q =
      if q = [] then some .dir else if q = [name] then some .dir else none := by
    intro q
    simp only [freshDisk, Volume.node, Volume.lookup_cons, List.lookup_nil]
  refine ⟨⟨by simp [hnode], fun q n h => ?_, fun q i h => ?_⟩, by simp [hnode], fun r hr => ?_⟩
  · have hq : q = [] := by
      by_contra hne
      refine h ?_
      rw [hnode, if_neg (by simp), if_neg]
      intro heq
      exact hne (List.append_eq_singleton_iff.mp heq |>.resolve_right (by simp) |>.1)
    rw [hq, hnode, if_pos rfl]
  · rw [hnode] at h
    split at h
    · cases h
    · split at h <;> cases h
  · rw [hnode, if_neg (by simp), if_neg (by simpa using hr)]

/-- The first call of a replay makes the target directory, or finds it. -/
lemma EmptyDir.runCalls_cons (h : EmptyDir options.target disk) {calls : List FsCall} :
    runCalls options.cwd.toList store disk
        (.mkdirRecursive options.targetDir.toList :: calls) =
      runCalls options.cwd.toList store disk calls := by
  have hway : ∀ q ∈ options.target.inits, disk.node q = some .dir := by
    intro q hq
    rcases Volume.mem_inits_iff.mp hq with rfl | hq
    · exact h.dir
    · exact h.wf.reached (by simp [h.dir]) q hq
  have hmkdir : disk.mkdirAll options.target = .ok disk := by
    rw [Volume.mkdirAll_eq_ok_iff, Volume.addDirs_eq_self hway]
    exact ⟨fun q hq i => by simp [hway q hq], rfl⟩
  rw [← List.singleton_append, runCalls_append, runCalls_singleton, FsCall.exec]
  exact congrArg (· >>= fun d => runCalls _ store d _) hmkdir

/-- `ensureFile`. -/
lemma runCalls_ensureFile_iff (h : BelowRoot options path) :
    runCalls options.cwd.toList store disk (ensureFile (rebase options path)) = .ok disk' ↔
      ((∀ q ∈ Volume.way (place options path), disk.NoFile q) ∧
        disk.node (place options path) ≠ some .dir) ∧
      disk' = disk.ensured (place options path) := by
  rw [and_assoc, ← Volume.ensure_eq_ok_iff h.place_ne_nil, ensureFile, ← List.singleton_append,
    runCalls_append, runCalls_singleton]
  simp only [runCalls_singleton, FsCall.exec, h.resolve_dirname_rebase, h.resolve_rebase]

/-- `ensureFile` and one more call. -/
lemma runCalls_ensureFile_append_iff (h : BelowRoot options path) {call : FsCall} :
    runCalls options.cwd.toList store disk (ensureFile (rebase options path) ++ [call]) =
        .ok disk' ↔
      ((∀ q ∈ Volume.way (place options path), disk.NoFile q) ∧
        disk.node (place options path) ≠ some .dir) ∧
      call.exec options.cwd.toList store (disk.ensured (place options path)) = .ok disk' := by
  rw [runCalls_append, bind_eq_ok]
  constructor
  · rintro ⟨d, hd, hcall⟩
    obtain ⟨hclear, rfl⟩ := (runCalls_ensureFile_iff h).mp hd
    exact ⟨hclear, by rwa [runCalls_singleton] at hcall⟩
  · rintro ⟨hclear, hcall⟩
    exact ⟨_, (runCalls_ensureFile_iff h).mpr ⟨hclear, rfl⟩, by rwa [runCalls_singleton]⟩

/-- `applyWrite`. -/
lemma runCalls_applyWrite_iff (h : BelowRoot options event.path)
    (hstored : (store (payloadObject options event)).isSome) :
    runCalls options.cwd.toList store disk (applyWrite options event bytes) = .ok disk' ↔
      ((∀ q ∈ Volume.way (place options event.path), disk.NoFile q) ∧
        disk.node (place options event.path) ≠ some .dir) ∧
      disk' = (disk.ensured (place options event.path)).edit (place options event.path)
        (Volume.splice · event.offset.toNat (((store (payloadObject options event)).getD []).take
          (bytes.getD ((store (payloadObject options event)).getD []).length))) := by
  obtain ⟨payload, hpayload⟩ := Option.isSome_iff_exists.mp hstored
  obtain ⟨i, hi⟩ := Volume.exists_node_ensured (t := disk) (p := place options event.path)
  have hread : runCalls options.cwd.toList store disk (applyWrite options event bytes) =
      (do let d ← (do let d ← disk.mkdirAll (place options event.path).dropLast
                      d.create (place options event.path))
          d.write (place options event.path) event.offset.toNat
            (payload.take (bytes.getD payload.length))) := by
    simp only [runCalls, applyWrite, List.foldlM_cons, List.foldlM_nil, FsCall.exec, hpayload,
      Option.isSome_some, if_true, h.resolve_dirname_rebase, h.resolve_rebase, bind_assoc,
      bind_pure]
    rfl
  rw [hread, bind_eq_ok, hpayload, Option.getD_some]
  constructor
  · rintro ⟨d, hd, hwrite⟩
    obtain ⟨hfile, hdir, rfl⟩ := (Volume.ensure_eq_ok_iff h.place_ne_nil).mp hd
    exact ⟨⟨hfile, hdir⟩, (Volume.write_eq_ok_iff.mp hwrite).2.2⟩
  · rintro ⟨⟨hfile, hdir⟩, rfl⟩
    refine ⟨_, (Volume.ensure_eq_ok_iff h.place_ne_nil).mpr ⟨hfile, hdir, rfl⟩, ?_⟩
    exact Volume.write_eq_ok_iff.mpr ⟨Volume.reached_ensured h.place_ne_nil, ⟨i, hi⟩, rfl⟩

/-- **The effect of one event**: its calls succeed exactly when it is
applicable, and leave what `applyEvent` says. -/
theorem runCalls_applySelected_iff (hwf : disk.WF)
    (hbelow : event.call ∈ mutating → OperandsBelow options event)
    (hstored : PayloadStored options store event) :
    runCalls options.cwd.toList store disk (applySelected options event bytes) = .ok disk' ↔
      Applicable options disk event ∧ disk' = applyEvent options store disk event bytes := by
  rw [applySelected, Applicable, applyEvent]
  have hp : event.call ∈ mutating → BelowRoot options event.path := fun h => (hbelow h).1
  have hfile : ∃ i, (disk.ensured (place options event.path)).node (place options event.path) =
      some (.file i) := Volume.exists_node_ensured
  cases hcall : event.call with
  | write | pwrite | writev =>
      exact runCalls_applyWrite_iff (hp (by simp [hcall, mutating])) (hstored (by simp [hcall]))
  | truncate | ftruncate =>
      have hpath := hp (by simp [hcall, mutating])
      have hreach := Volume.reached_ensured (t := disk) hpath.place_ne_nil
      rw [runCalls_ensureFile_append_iff hpath, FsCall.exec, hpath.resolve_rebase,
        Volume.truncate_eq_ok_iff, and_iff_right hreach, and_iff_right hfile]
  | mkdir =>
      have hpath := hp (by simp [hcall, mutating])
      rw [runCalls_singleton, FsCall.exec, hpath.resolve_rebase, Volume.mkdirAll_eq_ok_iff]
  | rename =>
      have hpath := hp (by simp [hcall, mutating])
      have hpath2 := (hbelow (by simp [hcall, mutating])).2 (Or.inl hcall)
      have hreach := Volume.reached_ensured (t := disk) hpath.place_ne_nil
      obtain ⟨i, hi⟩ := hfile
      rw [runCalls_ensureFile_append_iff hpath, FsCall.exec, hpath.resolve_rebase,
        hpath2.resolve_rebase, Volume.rename_file_eq_ok_iff hi, and_iff_right hreach]
      simp only [and_assoc]
  | link =>
      have hpath := hp (by simp [hcall, mutating])
      have hpath2 := (hbelow (by simp [hcall, mutating])).2 (Or.inr hcall)
      have hreach := Volume.reached_ensured (t := disk) hpath.place_ne_nil
      rw [runCalls_ensureFile_append_iff hpath, FsCall.exec, hpath.resolve_rebase,
        hpath2.resolve_rebase, Volume.link_eq_ok_iff, and_iff_right hreach, and_iff_right hfile]
      simp only [and_assoc]
  | unlink =>
      have hpath := hp (by simp [hcall, mutating])
      rw [runCalls_singleton, FsCall.exec, hpath.resolve_rebase, Volume.remove_eq_ok_iff hwf,
        and_assoc]
  | open_ | close | fsync | fdatasync | syncFileRange => simp [runCalls_nil, eq_comm]

end CrashFuzz
