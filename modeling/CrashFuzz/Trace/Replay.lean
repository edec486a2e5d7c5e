import CrashFuzz.Lib.PosixPath
import CrashFuzz.Enumerate.States

/-!
Replay (`core/src/trace/replay.ts`): the filesystem calls that apply a trace,
or the part of it a crash state says reached the disk, to a directory.

* `FsCall`: one call into `node:fs`, with the path it is given.
* `applySelected`: the calls of one event.
* `replaySelection`, `replayTrace`: the calls of a selection and of a whole
  trace, in the order they are made; the first one that throws ends the replay.
-/

namespace CrashFuzz

open PosixPath

/-- `ReplayOptions`, with the working directory of the process. -/
structure ReplayOptions where
  /-- Directory holding the payload objects captured with the trace. -/
  casDir : String
  /-- Directory the traced paths are relative to. -/
  rootDir : String
  /-- Directory the trace is applied to. -/
  targetDir : String
  /-- What `process.cwd()` returns. -/
  cwd : String

/-- A call into `node:fs`. -/
inductive FsCall where
  /-- `readFileSync(object)`, which only reads the payload store. -/
  | readPayload (object : Chars)
  /-- `mkdirSync(path, { recursive: true })`. -/
  | mkdirRecursive (path : Chars)
  /-- `closeSync(openSync(path, 'a'))`. -/
  | openAppend (path : Chars)
  /-- `openSync(path, 'r+')`, or `'w+'` when that throws, then `writeSync` of
  the payload read from `object`, cut to `bytes` when given, at `offset`, then
  `closeSync`. -/
  | writePayload (path object : Chars) (bytes : Option ℕ) (offset : ℤ)
  /-- `truncateSync(path, length)`. -/
  | truncate (path : Chars) (length : ℕ)
  /-- `renameSync(source, dest)`. -/
  | rename (source dest : Chars)
  /-- `linkSync(source, dest)`. -/
  | link (source dest : Chars)
  /-- `rmSync(path, { force: true })`. -/
  | rm (path : Chars)
  deriving DecidableEq, Repr

variable (options : ReplayOptions)

/-- `rebase`: maps a path recorded during capture into the replay directory. -/
def rebase (path : String) : Chars :=
  join options.targetDir.toList
    (relative options.cwd.toList options.rootDir.toList path.toList)

/-- `ensureFile`. -/
def ensureFile (path : Chars) : List FsCall :=
  [.mkdirRecursive (dirname path), .openAppend path]

/-- The payload object of an event, `join(casDir, digest)`. -/
def payloadObject (event : TraceEvent) : Chars :=
  join options.casDir.toList event.digest.toList

/-- `applyWrite`. -/
def applyWrite (event : TraceEvent) (bytes : Option ℕ) : List FsCall :=
  let path := rebase options event.path
  [.readPayload (payloadObject options event), .mkdirRecursive (dirname path),
    .writePayload path (payloadObject options event) bytes event.offset]

/-- `applySelected`: one operation of a crash state, torn to `bytes` when the
state says so. Calls that only affect durability are skipped. -/
def applySelected (event : TraceEvent) (bytes : Option ℕ) : List FsCall :=
  let path := rebase options event.path
  let path2 := rebase options event.path2
  match event.call with
  | .write | .pwrite | .writev => applyWrite options event bytes
  | .truncate | .ftruncate => ensureFile path ++ [.truncate path event.length]
  | .mkdir => [.mkdirRecursive path]
  | .rename => ensureFile path ++ [.rename path path2]
  | .link => ensureFile path ++ [.link path path2]
  | .unlink => [.rm path]
  | .open_ | .close | .fsync | .fdatasync | .syncFileRange => []

/-- `Selection`: the subset of a trace that a crash state says reached the disk. -/
structure Selection where
  /-- Operations present in full. -/
  persisted : List ℕ
  /-- Operations present as a prefix of their payload. -/
  partials : List TornOp

/-- A crash state passed as a selection. -/
def CrashState.selection (s : CrashState) : Selection := ⟨s.persisted, s.partials⟩

/-- `tornBytes.get(index)`: of two entries for one operation the later counts. -/
def Selection.tornBytes (selection : Selection) (index : ℕ) : Option ℕ :=
  (selection.partials.reverse.find? (·.op = index)).map (·.bytes)

/-- The events a selection applies, in submission order, each with the length
it is torn to. -/
def Selection.applied (selection : Selection) (trace : Trace) : List (TraceEvent × Option ℕ) :=
  (List.range trace.events.length).filterMap fun index =>
    if index ∉ selection.persisted ∧ selection.tornBytes index = none then none
    else trace.events[index]?.map fun event => (event, selection.tornBytes index)

/-- `replaySelection`. -/
def replaySelection (trace : Trace) (selection : Selection) : List FsCall :=
  .mkdirRecursive options.targetDir.toList ::
    (selection.applied trace).flatMap fun (event, bytes) => applySelected options event bytes

/-- `replayTrace`. -/
def replayTrace (trace : Trace) : List FsCall :=
  .mkdirRecursive options.targetDir.toList ::
    trace.events.flatMap fun event =>
      if event.returnValue < 0 then [] else applySelected options event none

variable {options}

lemma tornBytes_eq_none {selection : Selection} {index : ℕ} :
    selection.tornBytes index = none ↔ ∀ t ∈ selection.partials, t.op ≠ index := by
  simp [Selection.tornBytes]

/-- A position is skipped when the selection has it neither in full nor in part. -/
lemma skipped_iff {selection : Selection} {index : ℕ} :
    (index ∉ selection.persisted ∧ selection.tornBytes index = none) ↔
      ¬ (index ∈ selection.persisted ∨ ∃ t ∈ selection.partials, t.op = index) := by
  rw [tornBytes_eq_none, not_or, not_exists]
  simp only [not_and, ne_eq]

/-- A selection applies exactly the events at its positions. -/
lemma mem_applied {selection : Selection} {trace : Trace} {event : TraceEvent}
    {bytes : Option ℕ} : (event, bytes) ∈ selection.applied trace ↔
      ∃ index, trace.events[index]? = some event ∧ bytes = selection.tornBytes index ∧
        (index ∈ selection.persisted ∨ ∃ t ∈ selection.partials, t.op = index) := by
  rw [Selection.applied, List.mem_filterMap]
  constructor
  · rintro ⟨index, -, h⟩
    split at h
    · cases h
    · next hsel =>
        obtain ⟨e, he, heq⟩ := Option.map_eq_some_iff.mp h
        obtain ⟨rfl, rfl⟩ := Prod.mk.inj heq
        exact ⟨index, he, rfl, not_not.mp (mt skipped_iff.mpr hsel)⟩
  · rintro ⟨index, hev, rfl, hsel⟩
    obtain ⟨hlt, -⟩ := List.getElem?_eq_some_iff.mp hev
    refine ⟨index, List.mem_range.mpr hlt, ?_⟩
    rw [if_neg (mt skipped_iff.mp (not_not.mpr hsel)), hev, Option.map_some]

end CrashFuzz
