import CrashFuzz.Lib.ErrorVariable
import CrashFuzz.Shim.Capture

/-!
What an interposed call leaves to its caller (`shim/src/shim.c`): what it
returns, and `errno`.

* `Interposed`, `Own`: the interposer as a call finds it, and the outcomes of the
  calls it makes itself. Any of these may set `errno`.
* `Interposed.interpose`: the wrappers. A real call is its result; a pointer that
  cannot be read faults where the interposer reads it.
* `Interposed.failureSets`: what the interposer's own calls after a failed call
  set `errno` to. `Interposed.behaves` is about all wrappers at once: one lemma
  for each family of them gives the effect, from the effects of the helpers.
* `Interposed.transparent_iff`: a call is transparent exactly when the
  interposer can read its arguments and, if it failed, the last of these calls
  to set `errno` sets it to what it was.

Stamps, digests and texts are left out; `Capture` has them.
-/

namespace CrashFuzz.Shim

open ErrorVariable PosixPath

/-- A path argument: null, a pointer that cannot be read, or a string. -/
inductive CPath where
  | null
  | bad
  | text (path : String)
  deriving DecidableEq, Repr

/-- A path as `emit_event` prints it. -/
def CPath.shown : CPath → String
  | .text path => path
  | _ => ""

/-- A path argument that is a string. -/
def CPath.IsText (path : CPath) : Prop := ∃ s, path = .text s

/-- A buffer argument. -/
structure Buffer where
  count : ℕ
  /-- Whether the interposer can read what it reads of it. -/
  readable : Bool
  deriving DecidableEq, Repr

/-- What the real call returned, and `errno` right after it. -/
structure RealResult where
  ret : ℤ
  errno : ℤ

/-- `err`. -/
def RealResult.err (real : RealResult) : ℤ := if real.ret < 0 then real.errno else 0

/-- What `emit_event` is given of a call. -/
structure Reported where
  call : CallName
  fd : ℤ
  path : String
  path2 : String
  offset : ℤ
  length : ℕ
  ret : ℤ
  err : ℤ
  deriving DecidableEq, Repr

/-- The outcomes of one resolution of a path. -/
structure Lookup where
  realpath : Outcome ℤ (Option String)
  readlink : Outcome ℤ (Option String)

/-- The outcomes of the calls the interposer makes itself. -/
structure Own where
  /-- `dlsym` for the real function. -/
  dlsym : Outcome ℤ Unit
  /-- `dlsym` for `lseek`. -/
  dlsymLseek : Outcome ℤ Unit
  /-- The resolution before the real call. -/
  first : Lookup
  /-- The resolution after it. -/
  second : Lookup
  /-- `realpath` in `remember_path`. -/
  remembered : Outcome ℤ (Option String)
  /-- The payload store: `openat`, the writes one after the other, `close`. -/
  storeOpen : Outcome ℤ ℤ
  storeWrite : ℕ → Outcome ℤ ℤ
  storeClose : Outcome ℤ Unit
  lseek : Outcome ℤ ℤ
  gettid : Outcome ℤ Unit
  clock : Outcome ℤ Unit
  /-- Whether the clock is read before the thread id: C leaves it open. -/
  clockFirst : Bool
  traceWrite : Outcome ℤ Unit

/-- The interposer as a call finds it. -/
structure Interposed where
  /-- `trace_fd`. -/
  traceFd : ℤ
  /-- `cas_dir`, empty without a payload store. -/
  casDir : String
  /-- `fd_paths`. -/
  fdPaths : ℕ → String
  /-- `fd_is_marker`. -/
  fdIsMarker : ℕ → Bool
  /-- Whether the thread id is cached. -/
  tidCached : Bool
  /-- Whether the real function and `lseek` were looked up before. -/
  symbolKnown : Bool
  lseekKnown : Bool

/-- `PATH_MAX`. -/
def pathMax : ℕ := 4096

/-- The length of a hex digest. -/
def digestLength : ℕ := 64

/-- `AT_FDCWD`. -/
def atFdcwd : ℤ := -100

/-- A signed length as `size_t`. -/
def sizeOfLength (n : ℤ) : ℕ := (n % 2 ^ 64).toNat

namespace Interposed

/-- A part of a wrapper. -/
abbrev Part (α : Type) := Program ℤ Reported α

variable (p : Interposed) (own : Own) (real : RealResult)

/-! ### Helpers -/

/-- `REAL`. -/
def lookup (known : Bool) (dlsym : Outcome ℤ Unit) : Part Unit :=
  if known then pure () else call dlsym

/-- The real call, and `err`, which is read right after it. -/
def issue : Part (ℤ × ℤ) := do
  let ret ← call ⟨real.ret, some real.errno⟩
  let (errno, _) ← get
  return (ret, if ret < 0 then errno else 0)

/-- `path_for`. -/
def pathFor (fd : ℤ) : String := if 0 ≤ fd ∧ fd < maxFd then p.fdPaths fd.toNat else ""

/-- `is_marker_fd`. -/
def isMarkerFd (fd : ℤ) : Bool := 0 ≤ fd ∧ fd < maxFd ∧ p.fdIsMarker fd.toNat

/-- `resolve`. -/
def resolve (found : Lookup) : CPath → Part CPath
  | .bad => fault
  | path => do
      let resolved ← call found.realpath
      return resolved.elim path .text

/-- `resolve_at`. -/
def resolveAt (found : Lookup) (dirfd : ℤ) : CPath → Part CPath
  | .text path =>
      if isAbsolute path.toList ∨ dirfd = atFdcwd then do
        let resolved ← call found.realpath
        return .text (resolved.getD path)
      else do
        let dir ← call found.readlink
        return match dir with
          | none => .text path
          | some dir =>
              if dir.utf8ByteSize + 1 + path.utf8ByteSize + 1 > pathMax then .text path
              else .text (dir ++ "/" ++ path)
  | _ => fault

/-- `remember_path`. -/
def rememberPath (fd : ℤ) (path : CPath) : Part Interposed :=
  if fd < 0 ∨ fd ≥ maxFd then pure p
  else
    match path with
    | .text path => do
        let resolved ← call own.remembered
        return { p with
          fdIsMarker := Function.update p.fdIsMarker fd.toNat (pathIsMarker path)
          fdPaths := Function.update p.fdPaths fd.toNat (resolved.getD path) }
    | _ => fault

/-- `write_offset`. -/
def writeOffset (written : ℤ) : Part ℤ := do
  lookup p.lseekKnown own.dlsymLseek
  if written < 0 then return -1
  let after ← call own.lseek
  return if after < 0 then -1 else after - written

/-- The loop of `store_payload`: how much is left after `k` writes. -/
def storeLoop (k remaining : ℕ) : Part Unit :=
  if _ : remaining = 0 then pure ()
  else do
    let written ← call (own.storeWrite k)
    if _ : written ≤ 0 then return ()
    else storeLoop (k + 1) (remaining - written.toNat)
termination_by remaining

/-- `store_payload`. -/
def storePayload (length : ℕ) : Part Unit :=
  if p.casDir = "" ∨ p.casDir.utf8ByteSize + 1 + digestLength ≥ pathMax then pure ()
  else do
    let fd ← call own.storeOpen
    if fd < 0 then return ()
    storeLoop own 0 length
    call own.storeClose

/-- `capture_payload`: the digest reads the whole payload. -/
def capturePayload (data : Buffer) : Part Unit :=
  if data.readable then storePayload p own data.count else fault

/-- `thread_id`. -/
def threadId : Part Unit := if p.tidCached then pure () else call own.gettid

/-- `emit`. -/
def emit : Part Unit := if p.traceFd < 0 then pure () else call own.traceWrite

/-- `emit_event`. -/
def emitEvent (name : CallName) (fd : ℤ) (path path2 : CPath) (offset : ℤ) (length : ℕ)
    (result : ℤ × ℤ) : Part Unit := do
  if own.clockFirst then
    call own.clock
    threadId p own
  else
    threadId p own
    call own.clock
  output ⟨name, fd, path.shown, path2.shown, offset, length, result.1, result.2⟩
  emit p own

/-- `emit_marker`. -/
def emitMarker (text : Buffer) : Part Unit :=
  if text.readable then do
    threadId p own
    emit p own
  else fault

/-! ### The wrappers -/

def write (fd : ℤ) (buf : Buffer) : Part ℤ := do
  lookup p.symbolKnown own.dlsym
  if p.isMarkerFd fd then
    emitMarker p own buf
    call ⟨real.ret, some real.errno⟩
  else
    let result ← issue real
    capturePayload p own buf
    let offset ← writeOffset p own result.1
    emitEvent p own .write fd (.text (p.pathFor fd)) .null offset buf.count result
    return result.1

/-- The two positioned writes. -/
def positioned (fd : ℤ) (buf : Buffer) (offset : ℤ) : Part ℤ := do
  lookup p.symbolKnown own.dlsym
  let result ← issue real
  capturePayload p own buf
  emitEvent p own .pwrite fd (.text (p.pathFor fd)) .null offset buf.count result
  return result.1

def pwrite (fd : ℤ) (buf : Buffer) (offset : ℤ) : Part ℤ := positioned p own real fd buf offset

def pwrite64 (fd : ℤ) (buf : Buffer) (offset : ℤ) : Part ℤ := positioned p own real fd buf offset

/-- `total` in `writev`. -/
def totalLength (buffers : List Buffer) : ℕ := (buffers.map (·.count)).sum % 2 ^ 64

/-- The buffers can be staged: `total` may have wrapped around. -/
def Stageable (buffers : List Buffer) : Prop :=
  (∀ buf ∈ buffers, buf.readable) ∧ (buffers.map (·.count)).sum ≤ iovStageMax

instance (buffers : List Buffer) : Decidable (Stageable buffers) :=
  inferInstanceAs (Decidable (_ ∧ _))

/-- Vectored writes are staged before the call; `none` is an array that cannot
be read. -/
def writev (fd : ℤ) (iov : Option (List Buffer)) : Part ℤ := do
  lookup p.symbolKnown own.dlsym
  match iov with
  | none => fault
  | some buffers => do
      let total := totalLength buffers
      let staged := total ≤ iovStageMax
      if staged ∧ ¬ Stageable buffers then fault
      else
        let result ← issue real
        if staged then capturePayload p own ⟨total, true⟩
        let offset ← writeOffset p own result.1
        emitEvent p own .writev fd (.text (p.pathFor fd)) .null offset total result
        return result.1

/-- The calls that return a descriptor; `path` is the one that is remembered. -/
def opened (path : Part CPath) : Part ℤ := do
  lookup p.symbolKnown own.dlsym
  let result ← issue real
  let path ← path
  let p' ← rememberPath p own result.1 path
  if p'.isMarkerFd result.1 then return result.1
  else
    emitEvent p' own .open_ result.1 (.text (p'.pathFor result.1)) .null 0 0 result
    return result.1

def open_ (path : CPath) : Part ℤ := opened p own real (pure path)

def open64 (path : CPath) : Part ℤ := opened p own real (pure path)

def openat (dirfd : ℤ) (path : CPath) : Part ℤ :=
  opened p own real (resolveAt own.second dirfd path)

/-- The calls on a descriptor without a payload. -/
def onDescriptor (name : CallName) (fd : ℤ) (offset : ℤ) (length : ℕ) : Part ℤ := do
  lookup p.symbolKnown own.dlsym
  let result ← issue real
  emitEvent p own name fd (.text (p.pathFor fd)) .null offset length result
  return result.1

def fsync (fd : ℤ) : Part ℤ := onDescriptor p own real .fsync fd 0 0

def fdatasync (fd : ℤ) : Part ℤ := onDescriptor p own real .fdatasync fd 0 0

def syncFileRange (fd offset nbytes : ℤ) : Part ℤ :=
  onDescriptor p own real .syncFileRange fd offset (sizeOfLength nbytes)

def ftruncate (fd length : ℤ) : Part ℤ :=
  onDescriptor p own real .ftruncate fd 0 (sizeOfLength length)

def ftruncate64 (fd length : ℤ) : Part ℤ :=
  onDescriptor p own real .ftruncate fd 0 (sizeOfLength length)

/-- The calls whose path is resolved before them. -/
def resolvedBefore (name : CallName) (path : Part CPath) (length : ℕ) : Part ℤ := do
  lookup p.symbolKnown own.dlsym
  let full ← path
  let result ← issue real
  emitEvent p own name (-1) full .null 0 length result
  return result.1

def truncate (path : CPath) (length : ℤ) : Part ℤ :=
  resolvedBefore p own real .truncate (resolve own.first path) (sizeOfLength length)

def truncate64 (path : CPath) (length : ℤ) : Part ℤ :=
  resolvedBefore p own real .truncate (resolve own.first path) (sizeOfLength length)

def unlink (path : CPath) : Part ℤ :=
  resolvedBefore p own real .unlink (resolve own.first path) 0

def unlinkat (dirfd : ℤ) (path : CPath) : Part ℤ :=
  resolvedBefore p own real .unlink (resolveAt own.first dirfd path) 0

/-- The calls whose path is resolved after them. -/
def resolvedAfter (name : CallName) (path : Part CPath) : Part ℤ := do
  lookup p.symbolKnown own.dlsym
  let result ← issue real
  let full ← path
  emitEvent p own name (-1) full .null 0 0 result
  return result.1

def mkdir (path : CPath) : Part ℤ := resolvedAfter p own real .mkdir (resolve own.second path)

def mkdirat (dirfd : ℤ) (path : CPath) : Part ℤ :=
  resolvedAfter p own real .mkdir (resolveAt own.second dirfd path)

/-- The calls on two paths, the first of them resolved before. -/
def paired (name : CallName) (source dest : Part CPath) (offset : ℤ) : Part ℤ := do
  lookup p.symbolKnown own.dlsym
  let sourceFull ← source
  let result ← issue real
  let destFull ← dest
  emitEvent p own name (-1) sourceFull destFull offset 0 result
  return result.1

def link (source dest : CPath) : Part ℤ :=
  paired p own real .link (resolve own.first source) (resolve own.second dest) 0

def linkat (sourcefd : ℤ) (source : CPath) (destfd : ℤ) (dest : CPath) : Part ℤ :=
  paired p own real .link (resolveAt own.first sourcefd source)
    (resolveAt own.second destfd dest) 0

def rename (source dest : CPath) : Part ℤ :=
  paired p own real .rename (resolve own.first source) (resolve own.second dest) 0

def renameat (sourcefd : ℤ) (source : CPath) (destfd : ℤ) (dest : CPath) : Part ℤ :=
  paired p own real .rename (resolveAt own.first sourcefd source)
    (resolveAt own.second destfd dest) 0

def renameat2 (sourcefd : ℤ) (source : CPath) (destfd : ℤ) (dest : CPath) (flags : ℕ) : Part ℤ :=
  paired p own real .rename (resolveAt own.first sourcefd source)
    (resolveAt own.second destfd dest) flags

def close (fd : ℤ) : Part ℤ := do
  lookup p.symbolKnown own.dlsym
  let result ← issue real
  if p.isMarkerFd fd then return result.1
  else
    emitEvent p own .close fd (.text (p.pathFor fd)) .null 0 0 result
    return result.1

end Interposed

/-- A call of the traced process, with the arguments the interposer looks at. -/
inductive Interposed.Call where
  | write (fd : ℤ) (buf : Buffer)
  | pwrite (fd : ℤ) (buf : Buffer) (offset : ℤ)
  | pwrite64 (fd : ℤ) (buf : Buffer) (offset : ℤ)
  | writev (fd : ℤ) (iov : Option (List Buffer))
  | open_ (path : CPath)
  | open64 (path : CPath)
  | openat (dirfd : ℤ) (path : CPath)
  | fsync (fd : ℤ)
  | fdatasync (fd : ℤ)
  | syncFileRange (fd offset nbytes : ℤ)
  | ftruncate (fd length : ℤ)
  | ftruncate64 (fd length : ℤ)
  | truncate (path : CPath) (length : ℤ)
  | truncate64 (path : CPath) (length : ℤ)
  | unlink (path : CPath)
  | unlinkat (dirfd : ℤ) (path : CPath)
  | mkdir (path : CPath)
  | mkdirat (dirfd : ℤ) (path : CPath)
  | link (source dest : CPath)
  | linkat (sourcefd : ℤ) (source : CPath) (destfd : ℤ) (dest : CPath)
  | rename (source dest : CPath)
  | renameat (sourcefd : ℤ) (source : CPath) (destfd : ℤ) (dest : CPath)
  | renameat2 (sourcefd : ℤ) (source : CPath) (destfd : ℤ) (dest : CPath) (flags : ℕ)
  | close (fd : ℤ)

namespace Interposed

variable (p : Interposed) (own : Own) (real : RealResult)

/-- The wrapper of a call. -/
def interpose : Call → Part ℤ
  | .write fd buf => write p own real fd buf
  | .pwrite fd buf offset => pwrite p own real fd buf offset
  | .pwrite64 fd buf offset => pwrite64 p own real fd buf offset
  | .writev fd iov => writev p own real fd iov
  | .open_ path => open_ p own real path
  | .open64 path => open64 p own real path
  | .openat dirfd path => openat p own real dirfd path
  | .fsync fd => fsync p own real fd
  | .fdatasync fd => fdatasync p own real fd
  | .syncFileRange fd offset nbytes => syncFileRange p own real fd offset nbytes
  | .ftruncate fd length => ftruncate p own real fd length
  | .ftruncate64 fd length => ftruncate64 p own real fd length
  | .truncate path length => truncate p own real path length
  | .truncate64 path length => truncate64 p own real path length
  | .unlink path => unlink p own real path
  | .unlinkat dirfd path => unlinkat p own real dirfd path
  | .mkdir path => mkdir p own real path
  | .mkdirat dirfd path => mkdirat p own real dirfd path
  | .link source dest => link p own real source dest
  | .linkat sourcefd source destfd dest => linkat p own real sourcefd source destfd dest
  | .rename source dest => rename p own real source dest
  | .renameat sourcefd source destfd dest => renameat p own real sourcefd source destfd dest
  | .renameat2 sourcefd source destfd dest flags =>
      renameat2 p own real sourcefd source destfd dest flags
  | .close fd => close p own real fd

/-! ### When a call is transparent -/

/-- What the caller sees is what the real call left. -/
def Transparent (wrapper : Part ℤ) : Prop :=
  ∀ errno out, ∃ errno' out', wrapper (errno, out) = some (real.ret, errno', out') ∧
    (real.ret < 0 → errno' = real.errno)

/-- The interposer can read what it reads of the arguments. -/
def Readable : Call → Prop
  | .write _ buf | .pwrite _ buf _ | .pwrite64 _ buf _ => buf.readable
  | .writev _ iov => ∃ buffers, iov = some buffers ∧
      (totalLength buffers ≤ iovStageMax → Stageable buffers)
  | .open_ path | .open64 path => 0 ≤ real.ret → real.ret < maxFd → path.IsText
  | .openat _ path | .unlinkat _ path | .mkdirat _ path => path.IsText
  | .truncate path _ | .truncate64 path _ | .unlink path | .mkdir path => path ≠ .bad
  | .link source dest | .rename source dest => source ≠ .bad ∧ dest ≠ .bad
  | .linkat _ source _ dest | .renameat _ source _ dest | .renameat2 _ source _ dest _ =>
      source.IsText ∧ dest.IsText
  | .fsync _ | .fdatasync _ | .syncFileRange .. | .ftruncate .. | .ftruncate64 .. | .close _ => True

/-- What a lookup sets. -/
def lookupSets (known : Bool) (dlsym : Outcome ℤ Unit) : List (Option ℤ) :=
  if known then [] else [dlsym.set]

/-- What the writes of a payload set. -/
def loopSets (k remaining : ℕ) : List (Option ℤ) :=
  if _ : remaining = 0 then []
  else
    (own.storeWrite k).set ::
      if _ : (own.storeWrite k).value ≤ 0 then []
      else loopSets (k + 1) (remaining - (own.storeWrite k).value.toNat)
termination_by remaining

/-- What the payload store sets. -/
def storeSets (length : ℕ) : List (Option ℤ) :=
  if p.casDir = "" ∨ p.casDir.utf8ByteSize + 1 + digestLength ≥ pathMax then []
  else
    own.storeOpen.set ::
      if own.storeOpen.value < 0 then [] else loopSets own 0 length ++ [own.storeClose.set]

/-- What `resolve_at` sets. -/
def resolveAtSets (found : Lookup) (dirfd : ℤ) (path : CPath) : List (Option ℤ) :=
  if isAbsolute path.shown.toList ∨ dirfd = atFdcwd then [found.realpath.set]
  else [found.readlink.set]

/-- What `emit_event` sets. -/
def emitSets : List (Option ℤ) :=
  (if own.clockFirst then own.clock.set :: lookupSets p.tidCached own.gettid
    else lookupSets p.tidCached own.gettid ++ [own.clock.set]) ++
    if p.traceFd < 0 then [] else [own.traceWrite.set]

/-- What the interposer's own calls after a real call that failed set. -/
def failureSets : Call → List (Option ℤ)
  | .write fd buf =>
      if p.isMarkerFd fd then []
      else storeSets p own buf.count ++ (lookupSets p.lseekKnown own.dlsymLseek ++ emitSets p own)
  | .pwrite _ buf _ | .pwrite64 _ buf _ => storeSets p own buf.count ++ emitSets p own
  | .writev _ iov =>
      (if totalLength (iov.getD []) ≤ iovStageMax then storeSets p own (totalLength (iov.getD []))
        else []) ++ (lookupSets p.lseekKnown own.dlsymLseek ++ emitSets p own)
  | .openat dirfd path | .mkdirat dirfd path | .linkat _ _ dirfd path | .renameat _ _ dirfd path
  | .renameat2 _ _ dirfd path _ => resolveAtSets own.second dirfd path ++ emitSets p own
  | .mkdir _ | .link _ _ | .rename _ _ => own.second.realpath.set :: emitSets p own
  | .close fd => if p.isMarkerFd fd then [] else emitSets p own
  | .open_ _ | .open64 _ | .fsync _ | .fdatasync _ | .syncFileRange .. | .ftruncate ..
  | .ftruncate64 .. | .truncate .. | .truncate64 .. | .unlink _ | .unlinkat .. => emitSets p own

/-! ### Effects of the helpers -/

section Effects

variable {p : Interposed} {own : Own} {real : RealResult}

lemma effect_lookup (known : Bool) (dlsym : Outcome ℤ Unit) :
    Effect (lookup known dlsym) () (lookupSets known dlsym) [] := by
  cases known
  · exact .call dlsym
  · exact .pure ()

lemma effect_issue : Effect (issue real) (real.ret, real.err) [some real.errno] [] := by
  intro errno out
  rw [List.append_nil]
  rfl

lemma effect_resolve {found : Lookup} {path : CPath} (h : path ≠ .bad) :
    ∃ full, Effect (resolve found path) full [found.realpath.set] [] := by
  cases path with
  | bad => exact absurd rfl h
  | null | text => exact ⟨_, (Effect.call found.realpath).seq (.pure _) rfl rfl⟩

lemma faults_resolve (found : Lookup) : Faults (resolve found .bad) := faults_fault

lemma effect_resolveAt {found : Lookup} {dirfd : ℤ} {path : CPath} (h : path.IsText) :
    ∃ s, Effect (resolveAt found dirfd path) (.text s) (resolveAtSets found dirfd path) [] := by
  obtain ⟨s, rfl⟩ := h
  rw [resolveAt, resolveAtSets, CPath.shown]
  split
  · exact ⟨_, (Effect.call found.realpath).seq (.pure _) rfl rfl⟩
  · have hlink := (Effect.call found.readlink : Effect (call found.readlink : Part _) _ _ _)
    cases hdir : found.readlink.value with
    | none => exact ⟨s, hlink.seq (hdir ▸ .pure _) rfl rfl⟩
    | some dir =>
        refine ⟨if dir.utf8ByteSize + 1 + s.utf8ByteSize + 1 > pathMax then s else dir ++ "/" ++ s,
          hlink.seq ?_ rfl rfl⟩
        simp only [hdir, apply_ite CPath.text]
        exact .pure _

lemma faults_resolveAt {found : Lookup} {dirfd : ℤ} {path : CPath} (h : ¬ path.IsText) :
    Faults (resolveAt found dirfd path) := by
  cases path with
  | text s => exact absurd ⟨s, rfl⟩ h
  | null | bad => exact faults_fault

lemma effect_storeLoop (k remaining : ℕ) :
    Effect (storeLoop own k remaining) () (loopSets own k remaining) [] := by
  induction remaining using Nat.strong_induction_on generalizing k with
  | _ remaining ih =>
      rw [storeLoop, loopSets]
      by_cases hdone : remaining = 0
      · rw [dif_pos hdone, dif_pos hdone]
        exact .pure ()
      rw [dif_neg hdone, dif_neg hdone]
      refine (Effect.call (own.storeWrite k)).seq ?_ List.singleton_append.symm rfl
      by_cases hstop : (own.storeWrite k).value ≤ 0
      · rw [dif_pos hstop, dif_pos hstop]
        exact .pure ()
      · rw [dif_neg hstop, dif_neg hstop]
        exact ih _ (by omega) (k + 1)

lemma effect_storePayload (length : ℕ) :
    Effect (storePayload p own length) () (storeSets p own length) [] := by
  rw [storePayload, storeSets]
  split
  · exact .pure ()
  · refine (Effect.call own.storeOpen).seq ?_ List.singleton_append.symm rfl
    by_cases hopen : own.storeOpen.value < 0
    · rw [if_pos hopen, if_pos hopen]
      exact .pure ()
    · rw [if_neg hopen, if_neg hopen]
      exact (effect_storeLoop 0 length).seq (.call own.storeClose) rfl rfl

lemma effect_capturePayload {data : Buffer} (h : data.readable) :
    Effect (capturePayload p own data) () (storeSets p own data.count) [] := by
  rw [capturePayload, if_pos h]
  exact effect_storePayload data.count

lemma faults_capturePayload {data : Buffer} (h : ¬ data.readable) :
    Faults (capturePayload p own data) := by
  rw [capturePayload, if_neg h]
  exact faults_fault

/-- Nothing is asked about the offset of a write that failed. -/
lemma effect_writeOffset (ret : ℤ) : ∃ offset sets,
    Effect (writeOffset p own ret) offset (lookupSets p.lseekKnown own.dlsymLseek ++ sets) [] ∧
      (ret < 0 → sets = []) := by
  have hlookup := effect_lookup p.lseekKnown own.dlsymLseek
  by_cases hret : ret < 0
  · refine ⟨-1, [], hlookup.seq ?_ rfl rfl, fun _ => rfl⟩
    rw [if_pos hret]
    exact .pure _
  · refine ⟨if own.lseek.value < 0 then -1 else own.lseek.value - ret, [own.lseek.set],
      hlookup.seq ?_ rfl rfl, fun h => absurd h hret⟩
    rw [if_neg hret]
    exact (Effect.call own.lseek).seq (.pure _) rfl rfl

lemma effect_emit (p : Interposed) (own : Own) :
    Effect (emit p own) () (if p.traceFd < 0 then [] else [own.traceWrite.set]) [] := by
  rw [emit]
  split
  · exact .pure ()
  · exact .call own.traceWrite

lemma effect_emitEvent (name : CallName) (fd : ℤ) (path path2 : CPath) (offset : ℤ) (length : ℕ)
    (result : ℤ × ℤ) :
    Effect (emitEvent p own name fd path path2 offset length result) () (emitSets p own)
      [⟨name, fd, path.shown, path2.shown, offset, length, result.1, result.2⟩] := by
  have hthread := effect_lookup p.tidCached own.gettid
  have hprint := fun x : Reported =>
    ((Effect.output x).seq (effect_emit p own) rfl rfl : Effect (output x >>= fun _ => _) _ _ _)
  rw [emitEvent, emitSets]
  split
  · refine (Effect.call own.clock).seq (hthread.seq (hprint _) rfl rfl) ?_ rfl
    simp
  · refine hthread.seq ((Effect.call own.clock).seq (hprint _) rfl rfl) ?_ rfl
    simp

/-! ### Behaviour of the wrappers -/

/-- A part that reads an argument. -/
structure Reads {α : Type} (part : Part α) (readable : Prop) (sets : List (Option ℤ)) : Prop where
  effect : readable → ∃ x, Effect part x sets []
  faults : ¬ readable → Faults part

/-- What is left of a wrapper after the real call: it returns what the call
returned, and if the call failed it sets `after`. -/
structure Ends (real : RealResult) (part : Part ℤ) (readable : Prop) (after : List (Option ℤ)) :
    Prop where
  effect : readable → ∃ rest written, Effect part real.ret rest written ∧
    (real.ret < 0 → rest = after) ∧ ∀ r ∈ written, r.ret = real.ret ∧ r.err = real.err
  faults : ¬ readable → Faults part

/-- A wrapper: the real call sets `errno`, and if it failed `after` follows. -/
structure Behaves (real : RealResult) (wrapper : Part ℤ) (readable : Prop)
    (after : List (Option ℤ)) : Prop where
  effect : readable → ∃ before rest written,
    Effect wrapper real.ret (before ++ some real.errno :: rest) written ∧
      (real.ret < 0 → rest = after) ∧ ∀ r ∈ written, r.ret = real.ret ∧ r.err = real.err
  faults : ¬ readable → Faults wrapper

variable {α : Type} {readable readable' : Prop} {sets after : List (Option ℤ)} {known : Bool}
  {dlsym : Outcome ℤ Unit}

lemma reads_resolve (found : Lookup) (path : CPath) :
    Reads (resolve found path) (path ≠ .bad) [found.realpath.set] :=
  ⟨effect_resolve, fun h => not_not.mp h ▸ faults_resolve found⟩

lemma reads_resolveAt (found : Lookup) (dirfd : ℤ) (path : CPath) :
    Reads (resolveAt found dirfd path) path.IsText (resolveAtSets found dirfd path) :=
  ⟨fun h => (effect_resolveAt h).imp' .text fun _ hs => hs, faults_resolveAt⟩

lemma reads_capturePayload (data : Buffer) :
    Reads (capturePayload p own data) data.readable (storeSets p own data.count) :=
  ⟨fun h => ⟨(), effect_capturePayload h⟩, faults_capturePayload⟩

lemma Ends.return : Ends real (pure real.ret) True [] :=
  ⟨fun _ => ⟨[], [], .pure _, fun _ => rfl, by simp⟩, fun h => absurd trivial h⟩

lemma Ends.of_emit (name : CallName) (fd : ℤ) (path path2 : CPath) (offset : ℤ) (length : ℕ) :
    Ends real (do
      emitEvent p own name fd path path2 offset length (real.ret, real.err)
      return real.ret) True (emitSets p own) := by
  refine ⟨fun _ => ⟨_, _, (effect_emitEvent name fd path path2 offset length _).seq (.pure _)
    (List.append_nil _).symm rfl, fun _ => rfl, ?_⟩, fun h => absurd trivial h⟩
  simp

/-- What follows a call that succeeded does not matter. -/
lemma Ends.congr {part : Part ℤ} {after' : List (Option ℤ)} (h : Ends real part readable after)
    (hafter : real.ret < 0 → after = after') : Ends real part readable after' where
  effect := fun hread => by
    obtain ⟨rest, written, heffect, hrest, hwritten⟩ := h.effect hread
    exact ⟨rest, written, heffect, fun hret => (hrest hret).trans (hafter hret), hwritten⟩
  faults := h.faults

/-- An argument is read first. -/
lemma Ends.of_reads {part : Part α} {f : α → Part ℤ} (hpart : Reads part readable sets)
    (hf : ∀ x, Ends real (f x) True after) :
    Ends real (part >>= f) readable (sets ++ after) where
  effect := fun h => by
    obtain ⟨x, hx⟩ := hpart.effect h
    obtain ⟨rest, written, heffect, hrest, hwritten⟩ := (hf x).effect trivial
    exact ⟨_, _, hx.bind heffect, fun hret => by rw [hrest hret], hwritten⟩
  faults := fun h => (hpart.faults h).bind

/-- The offset is asked for first. -/
lemma Ends.of_offset {f : ℤ → Part ℤ} (hf : ∀ offset, Ends real (f offset) True after) :
    Ends real (writeOffset p own real.ret >>= f) True
      (lookupSets p.lseekKnown own.dlsymLseek ++ after) where
  effect := fun _ => by
    obtain ⟨offset, sets, hoffset, hsets⟩ := @effect_writeOffset p own real.ret
    obtain ⟨rest, written, heffect, hrest, hwritten⟩ := (hf offset).effect trivial
    refine ⟨_, _, hoffset.bind heffect, fun hret => ?_, hwritten⟩
    rw [hsets hret, hrest hret, List.append_nil]
  faults := fun h => absurd trivial h

lemma Behaves.of_ends {f : ℤ × ℤ → Part ℤ}
    (hf : Ends real (f (real.ret, real.err)) readable after) :
    Behaves real (do
      lookup known dlsym
      let result ← issue real
      f result) readable after where
  effect := fun h => by
    obtain ⟨rest, written, heffect, hrest, hwritten⟩ := hf.effect h
    have hissue := effect_issue.bind heffect
    exact ⟨_, rest, written, (effect_lookup known dlsym).seq hissue rfl rfl, hrest, hwritten⟩
  faults := fun h =>
    (effect_lookup known dlsym).bind_faults (effect_issue.bind_faults (hf.faults h))

/-- An argument is read before the real call. -/
lemma Behaves.of_reads {part : Part α} {f : α → ℤ × ℤ → Part ℤ} (hpart : Reads part readable sets)
    (hf : ∀ x, Ends real (f x (real.ret, real.err)) readable' after) :
    Behaves real (do
      lookup known dlsym
      let x ← part
      let result ← issue real
      f x result) (readable ∧ readable') after where
  effect := fun ⟨h, h'⟩ => by
    obtain ⟨x, hx⟩ := hpart.effect h
    obtain ⟨rest, written, heffect, hrest, hwritten⟩ := (hf x).effect h'
    have hissue : Effect (part >>= fun x => issue real >>= f x) _ _ _ :=
      hx.bind (effect_issue.bind heffect)
    exact ⟨_, rest, written, (effect_lookup known dlsym).seq hissue
      (List.append_assoc _ sets _) rfl, hrest, hwritten⟩
  faults := fun h => by
    by_cases hread : readable
    · obtain ⟨x, hx⟩ := hpart.effect hread
      refine (effect_lookup known dlsym).bind_faults (hx.bind_faults (effect_issue.bind_faults ?_))
      exact (hf x).faults fun hread' => h ⟨hread, hread'⟩
    · exact (effect_lookup known dlsym).bind_faults (hpart.faults hread).bind

lemma behaves_write (fd : ℤ) (buf : Buffer) :
    Behaves real (write p own real fd buf) buf.readable (failureSets p own (.write fd buf)) := by
  rw [write, failureSets]
  by_cases hmarker : p.isMarkerFd fd
  · -- a marker is printed before the real call
    have hlookup := effect_lookup p.symbolKnown own.dlsym
    simp only [hmarker, if_true]
    refine ⟨fun h => ?_, fun h => ?_⟩
    · have hemit : ∃ sets, Effect (emitMarker p own buf) () sets [] := by
        rw [emitMarker, if_pos h]
        exact ⟨_, (effect_lookup p.tidCached own.gettid).bind (effect_emit p own)⟩
      obtain ⟨sets, hemit⟩ := hemit
      have hreal : Effect (emitMarker p own buf >>= fun _ => call ⟨real.ret, some real.errno⟩)
          real.ret (sets ++ [some real.errno]) [] := hemit.bind (.call _)
      exact ⟨_, [], [], hlookup.seq hreal (List.append_assoc _ sets _) rfl, fun _ => rfl, by simp⟩
    · rw [emitMarker, if_neg h]
      exact hlookup.bind_faults faults_fault.bind
  · simp only [hmarker]
    refine .of_ends (.of_reads (reads_capturePayload buf) fun _ => .of_offset fun offset => ?_)
    exact .of_emit _ _ _ _ _ _

lemma behaves_positioned (fd : ℤ) (buf : Buffer) (offset : ℤ) :
    Behaves real (positioned p own real fd buf offset) buf.readable
      (storeSets p own buf.count ++ emitSets p own) :=
  .of_ends (.of_reads (reads_capturePayload buf) fun _ => .of_emit _ _ _ _ _ _)

lemma behaves_onDescriptor (name : CallName) (fd offset : ℤ) (length : ℕ) :
    Behaves real (onDescriptor p own real name fd offset length) True (emitSets p own) :=
  .of_ends (.of_emit _ _ _ _ _ _)

lemma behaves_resolvedAfter (name : CallName) {path : Part CPath} (h : Reads path readable sets) :
    Behaves real (resolvedAfter p own real name path) readable (sets ++ emitSets p own) :=
  .of_ends (.of_reads h fun _ => .of_emit _ _ _ _ _ _)

lemma behaves_resolvedBefore (name : CallName) {path : Part CPath} (length : ℕ)
    (h : Reads path readable sets) :
    Behaves real (resolvedBefore p own real name path length) readable (emitSets p own) := by
  have hbehaves : Behaves real (resolvedBefore p own real name path length) (readable ∧ True) _ :=
    .of_reads h fun _ => .of_emit _ _ _ _ _ _
  rwa [and_true] at hbehaves

lemma behaves_paired (name : CallName) {source dest : Part CPath} (offset : ℤ)
    {sets' : List (Option ℤ)} (hsource : Reads source readable sets')
    (hdest : Reads dest readable' sets) :
    Behaves real (paired p own real name source dest offset) (readable ∧ readable')
      (sets ++ emitSets p own) :=
  .of_reads hsource fun _ => .of_reads hdest fun _ => .of_emit _ _ _ _ _ _

lemma behaves_close (fd : ℤ) :
    Behaves real (close p own real fd) True (failureSets p own (.close fd)) := by
  rw [close, failureSets]
  by_cases hmarker : p.isMarkerFd fd
  · simp only [hmarker, if_true]
    exact .of_ends .return
  · simp only [hmarker]
    exact .of_ends (.of_emit _ _ _ _ _ _)

lemma behaves_writev (fd : ℤ) (iov : Option (List Buffer)) :
    Behaves real (writev p own real fd iov) (Readable real (.writev fd iov))
      (failureSets p own (.writev fd iov)) := by
  have hlookup := effect_lookup p.symbolKnown own.dlsym
  cases iov with
  | none =>
      exact ⟨fun ⟨_, hnone, _⟩ => (Option.some_ne_none _ hnone.symm).elim,
        fun _ => hlookup.bind_faults faults_fault⟩
  | some buffers =>
      have hreadable : Readable real (.writev fd (some buffers)) ↔
          ¬ (totalLength buffers ≤ iovStageMax ∧ ¬ Stageable buffers) := by
        simp [Readable]
      rw [writev]
      by_cases hbad : totalLength buffers ≤ iovStageMax ∧ ¬ Stageable buffers
      · simp only [if_pos hbad]
        exact ⟨fun h => absurd hbad (hreadable.mp h), fun _ => hlookup.bind_faults faults_fault⟩
      · simp only [if_neg hbad]
        have htrue : Readable real (.writev fd (some buffers)) = True :=
          eq_true (hreadable.mpr hbad)
        rw [htrue, failureSets, Option.getD_some]
        by_cases hstaged : totalLength buffers ≤ iovStageMax
        · simp only [if_pos hstaged]
          have hcapture : Reads (capturePayload p own ⟨totalLength buffers, true⟩) True
              (storeSets p own (totalLength buffers)) :=
            ⟨fun _ => ⟨(), effect_capturePayload rfl⟩, fun h => absurd trivial h⟩
          exact .of_ends (.of_reads hcapture fun _ => .of_offset fun _ => .of_emit _ _ _ _ _ _)
        · simp only [if_neg hstaged]
          exact .of_ends (.of_offset fun _ => .of_emit _ _ _ _ _ _)

/-- The path of a new descriptor is remembered, then the event is printed. -/
lemma ends_remember (path : CPath) :
    Ends real (do
      let p' ← rememberPath p own real.ret path
      if p'.isMarkerFd real.ret then return real.ret
      else
        emitEvent p' own .open_ real.ret (.text (p'.pathFor real.ret)) .null 0 0
          (real.ret, real.err)
        return real.ret) (0 ≤ real.ret → real.ret < maxFd → path.IsText) (emitSets p own) := by
  by_cases hrange : real.ret < 0 ∨ real.ret ≥ maxFd
  · have hmarker : p.isMarkerFd real.ret = false := by
      simp only [isMarkerFd, decide_eq_false_iff_not]
      omega
    have hpath : (0 ≤ real.ret → real.ret < maxFd → path.IsText) = True := eq_true (by omega)
    have hremember : rememberPath p own real.ret path = pure p := if_pos hrange
    rw [hremember, hpath]
    simp only [pure_bind, hmarker]
    exact .of_emit _ _ _ _ _ _
  · have hreadable : (0 ≤ real.ret → real.ret < maxFd → path.IsText) ↔ path.IsText :=
      ⟨fun h => h (by omega) (by omega), fun h _ _ => h⟩
    have hremember : Reads (rememberPath p own real.ret path) path.IsText
        [own.remembered.set] := by
      refine ⟨fun ⟨s, hs⟩ => ?_, fun h => ?_⟩
      · subst hs
        have htext : rememberPath p own real.ret (.text s) = _ := if_neg hrange
        rw [htext]
        exact ⟨_, (Effect.call own.remembered).seq (.pure _) rfl rfl⟩
      · cases path with
        | text s => exact absurd ⟨s, rfl⟩ h
        | null =>
            have hnull : rememberPath p own real.ret .null = fault := if_neg hrange
            exact hnull ▸ faults_fault
        | bad =>
            have hbad : rememberPath p own real.ret .bad = fault := if_neg hrange
            exact hbad ▸ faults_fault
    rw [hreadable]
    refine Ends.congr (.of_reads hremember fun p' => ?_ : Ends _ _ _ ([own.remembered.set] ++ []))
      fun hret => absurd (.inl hret) hrange
    by_cases hmarker : p'.isMarkerFd real.ret
    · simp only [hmarker, if_true]
      exact .return
    · simp only [hmarker]
      exact Ends.congr (.of_emit _ _ _ _ _ _) fun hret => absurd (.inl hret) hrange

lemma behaves_open (path : CPath) :
    Behaves real (opened p own real (pure path)) (0 ≤ real.ret → real.ret < maxFd → path.IsText)
      (emitSets p own) :=
  .of_ends (ends_remember path)

lemma behaves_openat (dirfd : ℤ) (path : CPath) :
    Behaves real (openat p own real dirfd path) path.IsText
      (resolveAtSets own.second dirfd path ++ emitSets p own) := by
  refine .of_ends ⟨fun h => ?_, fun h => (faults_resolveAt h).bind⟩
  obtain ⟨s, hs⟩ := @effect_resolveAt own.second dirfd path h
  obtain ⟨rest, written, heffect, hrest, hwritten⟩ :=
    (@ends_remember p own real (.text s)).effect fun _ _ => ⟨s, rfl⟩
  exact ⟨_, _, hs.bind heffect, fun hret => by rw [hrest hret], hwritten⟩

/-- **What every wrapper does.** -/
lemma behaves (c : Call) :
    Behaves real (interpose p own real c) (Readable real c) (failureSets p own c) := by
  cases c with
  | write fd buf => exact behaves_write fd buf
  | pwrite fd buf offset | pwrite64 fd buf offset => exact behaves_positioned fd buf offset
  | writev fd iov => exact behaves_writev fd iov
  | open_ path | open64 path => exact behaves_open path
  | openat dirfd path => exact behaves_openat dirfd path
  | fsync fd | fdatasync fd => exact behaves_onDescriptor _ fd 0 0
  | syncFileRange fd offset nbytes => exact behaves_onDescriptor _ fd offset (sizeOfLength nbytes)
  | ftruncate fd length | ftruncate64 fd length =>
      exact behaves_onDescriptor _ fd 0 (sizeOfLength length)
  | truncate path length | truncate64 path length =>
      exact behaves_resolvedBefore _ (sizeOfLength length) (reads_resolve own.first path)
  | unlink path => exact behaves_resolvedBefore _ 0 (reads_resolve own.first path)
  | unlinkat dirfd path => exact behaves_resolvedBefore _ 0 (reads_resolveAt own.first dirfd path)
  | mkdir path => exact behaves_resolvedAfter _ (reads_resolve own.second path)
  | mkdirat dirfd path => exact behaves_resolvedAfter _ (reads_resolveAt own.second dirfd path)
  | link source dest | rename source dest =>
      exact behaves_paired _ 0 (reads_resolve own.first source) (reads_resolve own.second dest)
  | linkat sourcefd source destfd dest | renameat sourcefd source destfd dest =>
      exact behaves_paired _ 0 (reads_resolveAt own.first sourcefd source)
        (reads_resolveAt own.second destfd dest)
  | renameat2 sourcefd source destfd dest flags =>
      exact behaves_paired _ flags (reads_resolveAt own.first sourcefd source)
        (reads_resolveAt own.second destfd dest)
  | close fd => exact behaves_close fd

/-- `errno` at the end of a wrapper. -/
lemma lastSet_errno (before rest : List (Option ℤ)) (errno : ℤ) :
    (lastSet (before ++ some real.errno :: rest)).getD errno =
      (lastSet rest).getD real.errno := by
  rw [lastSet_append, lastSet, Option.or_assoc, Option.getD_or]
  simp

/-- What is recorded of a call is what it returned, and its own error. -/
theorem err_of_interpose {c : Call} {errno errno' ret : ℤ} {out : List Reported}
    (h : interpose p own real c (errno, []) = some (ret, errno', out)) :
    ∀ r ∈ out, r.ret = real.ret ∧ r.err = real.err := by
  have hbehaves := @behaves p own real c
  by_cases hread : Readable real c
  · obtain ⟨before, rest, written, heffect, -, hwritten⟩ := hbehaves.effect hread
    rw [heffect errno []] at h
    cases h
    exact hwritten
  · rw [hbehaves.faults hread] at h
    cases h

end Effects

/-- **When a call is transparent**: the interposer can read the arguments it
reads, and if the call failed, the last of the interposer's own calls after it
that sets `errno`, if there is one, sets it to what it was. -/
theorem transparent_iff (p : Interposed) (own : Own) (real : RealResult) (c : Call) :
    Transparent real (interpose p own real c) ↔
      Readable real c ∧
        (real.ret < 0 → ∀ errno ∈ lastSet (failureSets p own c), errno = real.errno) := by
  have hbehaves := @behaves p own real c
  constructor
  · intro h
    have hread : Readable real c := by
      by_contra hread
      obtain ⟨errno', out', hrun, -⟩ := h 0 []
      rw [hbehaves.faults hread] at hrun
      cases hrun
    obtain ⟨before, rest, written, heffect, hrest, -⟩ := hbehaves.effect hread
    refine ⟨hread, fun hret errno hlast => ?_⟩
    obtain ⟨errno', out', hrun, hsame⟩ := h 0 []
    rw [heffect, lastSet_errno, hrest hret, hlast] at hrun
    cases hrun
    exact hsame hret
  · rintro ⟨hread, hlast⟩ errno out
    obtain ⟨before, rest, written, heffect, hrest, -⟩ := hbehaves.effect hread
    refine ⟨_, _, heffect errno out, fun hret => ?_⟩
    rw [lastSet_errno, hrest hret]
    cases hset : lastSet (failureSets p own c) with
    | none => rfl
    | some errno' => exact hlast hret errno' hset

/-- An interposer with a payload store, in a process that wrote before. -/
def writing : Interposed where
  traceFd := 5
  casDir := "/t/cas"
  fdPaths := fun _ => "/d/a"
  fdIsMarker := fun _ => false
  tidCached := true
  symbolKnown := true
  lseekKnown := true

/-- Its own calls, with an `openat` in the payload store that may fail. -/
def quietBut (storeOpen : Outcome ℤ ℤ) : Own where
  dlsym := ⟨(), none⟩
  dlsymLseek := ⟨(), none⟩
  first := ⟨⟨none, none⟩, ⟨none, none⟩⟩
  second := ⟨⟨none, none⟩, ⟨none, none⟩⟩
  remembered := ⟨none, none⟩
  storeOpen := storeOpen
  storeWrite := fun _ => ⟨5, none⟩
  storeClose := ⟨(), none⟩
  lseek := ⟨5, none⟩
  gettid := ⟨(), none⟩
  clock := ⟨(), none⟩
  clockFirst := true
  traceWrite := ⟨(), none⟩

/-- `EINTR`. -/
def eintr : ℤ := 4

/-- `EEXIST`. -/
def eexist : ℤ := 17

/-- A write of a payload that is in the store already is interrupted, and its
caller sees that a file exists. -/
theorem interrupted_exists :
    interpose writing (quietBut ⟨-1, some eexist⟩) ⟨-1, eintr⟩ (.write 3 ⟨5, true⟩) (0, []) =
        some (-1, eexist, [⟨.write, 3, "/d/a", "", -1, 5, -1, eintr⟩]) ∧
      ¬ Transparent ⟨-1, eintr⟩
        (interpose writing (quietBut ⟨-1, some eexist⟩) ⟨-1, eintr⟩ (.write 3 ⟨5, true⟩)) := by
  have hrun : interpose writing (quietBut ⟨-1, some eexist⟩) ⟨-1, eintr⟩ (.write 3 ⟨5, true⟩)
      (0, []) = some (-1, eexist, [⟨.write, 3, "/d/a", "", -1, 5, -1, eintr⟩]) := by
    decide +kernel
  refine ⟨hrun, fun h => ?_⟩
  obtain ⟨errno', out', hrun', hsame⟩ := h 0 []
  rw [hrun] at hrun'
  cases hrun'
  exact absurd (hsame (by decide)) (by decide)

end Interposed

end CrashFuzz.Shim
