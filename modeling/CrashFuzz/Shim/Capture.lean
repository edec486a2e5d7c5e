import CrashFuzz.Trace.Apply

/-!
Capture (`shim/src/shim.c`): what the interposer records of a single-threaded
run of calls that succeed and transfer all of their bytes.

* `Machine`: the file system and the descriptors of the traced process, and
  what the kernel does on each call.
* `Session`: the machine with what the interposer keeps: a path and a marker
  flag for each descriptor, the stamp counter, the payload store, the lines
  written to the trace.
* `Session.step`: one interposed call.
* `emitEvent_events`, `rememberPath_toMachine`, `alter_eq_ok_iff`, …: what each
  part of a call leaves of the session, and when it succeeds.
-/

namespace CrashFuzz.Shim

open PosixPath FileTree

/-! ### The kernel -/

/-- The access mode of a descriptor. -/
inductive Access where
  | readOnly | writeOnly | readWrite
  deriving DecidableEq, Repr

/-- The flags of an `open`, as the system numbers them. -/
def openFlags (access : Access) (creat trunc : Bool) : ℕ :=
  (match access with
    | .readOnly => 0
    | .writeOnly => 1
    | .readWrite => 2) + (if creat then 0o100 else 0) + if trunc then 0o1000 else 0

/-- An open file. -/
inductive Descriptor where
  | dir
  | file (inode position : ℕ) (access : Access)
  deriving DecidableEq, Repr

/-- What the kernel keeps of the traced process. -/
structure Machine where
  disk : Disk
  fds : ℕ → Option Descriptor

namespace Machine

variable (m : Machine)

/-- `open`, returning `fd`; a new file is made with `creat`, and the bytes of an
old one are discarded with `trunc`. -/
def open_ (loc : List Chars) (access : Access) (creat trunc : Bool) (fd : ℕ) :
    Except Errno Machine := do
  if m.fds fd ≠ none then .error .badf
  else
    m.disk.reach loc
    match m.disk.node loc with
    | none =>
        if creat then
          .ok ⟨m.disk.addFile loc, Function.update m.fds fd (some (.file m.disk.next 0 access))⟩
        else .error .noent
    | some .dir =>
        if creat ∨ trunc ∨ access ≠ .readOnly then .error .isdir
        else .ok ⟨m.disk, Function.update m.fds fd (some .dir)⟩
    | some (.file i) =>
        .ok ⟨if trunc then m.disk.setData i [] else m.disk,
          Function.update m.fds fd (some (.file i 0 access))⟩

/-- The bytes of the file a descriptor is open on change, and its position. -/
def alter (fd : ℕ) (change : ℕ → List UInt8 → List UInt8) (advance : ℕ) :
    Except Errno Machine :=
  match m.fds fd with
  | some (.file i position access) =>
      if access = .readOnly then .error .badf
      else .ok ⟨m.disk.setData i (change position (m.disk.data i)),
        Function.update m.fds fd (some (.file i (position + advance) access))⟩
  | _ => .error .badf

/-- `write`, at the position of the descriptor. -/
def write (fd : ℕ) (payload : List UInt8) : Except Errno Machine :=
  m.alter fd (fun position bytes => Volume.splice bytes position payload) payload.length

/-- `pwrite`, which leaves the position. -/
def pwrite (fd : ℕ) (payload : List UInt8) (offset : ℕ) : Except Errno Machine :=
  m.alter fd (fun _ bytes => Volume.splice bytes offset payload) 0

/-- `ftruncate`. -/
def ftruncate (fd length : ℕ) : Except Errno Machine :=
  m.alter fd (fun _ bytes => Volume.resize bytes length) 0

/-- `close`. -/
def close (fd : ℕ) : Except Errno Machine :=
  if m.fds fd = none then .error .badf else .ok ⟨m.disk, Function.update m.fds fd none⟩

/-- A call that changes the file system by paths. -/
def onDisk (call : Disk → Except Errno Disk) : Except Errno Machine := do
  let disk ← call m.disk
  return ⟨disk, m.fds⟩

/-- `lseek(fd, 0, SEEK_CUR)`. -/
def position (fd : ℕ) : ℤ :=
  match m.fds fd with
  | some (.file _ position _) => position
  | some .dir => 0
  | none => -1

end Machine

/-! ### What the interposer keeps -/

/-- `MAX_FD`: descriptors from here on are traced without a path. -/
def maxFd : ℕ := 1024

/-- `RECORD_MAX`: the size of the buffer a record is printed to. -/
def recordMax : ℕ := 4096

/-- `IOV_STAGE_MAX`: larger vectored payloads are recorded without a digest. -/
def iovStageMax : ℕ := 64 * 1024

/-- `MARKER_TEXT_MAX`. -/
def markerTextMax : ℕ := 512

/-- `MARKER_BASENAME`. -/
def markerBasename : String := "crashfuzz.marker"

/-- The traced process, and what the interposer takes from outside it. -/
structure Process where
  pid : ℤ
  /-- `gettid()`. -/
  tid : ℤ
  cwd : String
  /-- `sha256_hex`. -/
  sha256 : List UInt8 → String
  /-- `wall_time_ns` when the record with a completion stamp is printed. -/
  wallTime : ℕ → ℕ

/-- One record of the trace, with the fields the reader drops. -/
structure Line where
  record : RawRecord
  flags : ℕ
  time : ℕ

/-- The traced process and the interposer in it. -/
structure Session extends Machine where
  /-- `fd_paths`. -/
  fdPaths : ℕ → String
  /-- `fd_is_marker`. -/
  fdIsMarker : ℕ → Bool
  /-- `shared_index`. -/
  stamp : ℕ
  /-- `pending_flags`. -/
  pendingFlags : ℕ
  /-- The payload store: digests with the payloads stored under them. -/
  cas : List (String × List UInt8)
  /-- What was written to the trace after its header. -/
  lines : List Line

/-- `path_is_marker`: the part after the last slash is the marker's name. -/
def pathIsMarker (path : String) : Bool :=
  (split path.toList).getLast? = some markerBasename.toList

/-- The absolute path of a location. -/
def canonical (loc : List Chars) : String := String.ofList ('/' :: unsplit loc)

variable (p : Process)

namespace Process

/-- The location of a path argument. -/
def loc (path : String) : List Chars := PosixPath.resolve p.cwd.toList path.toList

/-- `realpath`, which fails where there is nothing. -/
def realpath (disk : Disk) (path : String) : Option String :=
  if disk.node (p.loc path) = none then none else some (canonical (p.loc path))

/-- `resolve`: the resolved path, or the argument as given. -/
def resolve (disk : Disk) (path : String) : String := (p.realpath disk path).getD path

end Process

namespace Session

variable (s : Session)

/-- `path_for`. -/
def pathFor (fd : ℕ) : String := if fd < maxFd then s.fdPaths fd else ""

/-- `is_marker_fd`. -/
def isMarkerFd (fd : ℕ) : Bool := fd < maxFd && s.fdIsMarker fd

/-- `remember_path`: caches the resolved path for a descriptor. -/
def rememberPath (fd : ℕ) (path : String) : Session :=
  if fd < maxFd then
    { s with
      fdIsMarker := Function.update s.fdIsMarker fd (pathIsMarker path)
      fdPaths := Function.update s.fdPaths fd (p.resolve s.disk path) }
  else s

/-- `close` forgets the path of a descriptor. -/
def forgetPath (fd : ℕ) : Session :=
  if fd < maxFd then
    { s with
      fdIsMarker := Function.update s.fdIsMarker fd false
      fdPaths := Function.update s.fdPaths fd "" }
  else s

/-- `pending_flags`, printed with the next event. -/
def setFlags (flags : ℕ) : Session := { s with pendingFlags := flags }

/-- `write_offset`: where a completed write landed. -/
def writeOffset (fd written : ℕ) : ℤ :=
  if s.position fd < 0 then -1 else s.position fd - written

/-- `next_stamp`, and the call of the kernel that follows it. -/
def issue (machine : Machine) : Session := { s with toMachine := machine, stamp := s.stamp + 1 }

/-- `store_payload`: an object that is there is not written again. -/
def storePayload (digest : String) (payload : List UInt8) : Session :=
  if s.cas.any fun entry => entry.1 = digest then s
  else { s with cas := (digest, payload) :: s.cas }

/-- `emit_event`, for a call that was issued at stamp `index` and succeeded. -/
def emitEvent (index : ℕ) (call : CallName) (fd : ℤ) (path path2 : String) (offset : ℤ)
    (length : ℕ) (returnValue : ℤ) (digest : String) : Session :=
  { s with
    stamp := s.stamp + 1
    pendingFlags := 0
    lines := s.lines ++
      [{ record := .event
          { index := index
            completionIndex := s.stamp
            call := call
            fd := fd
            threadId := p.tid
            path := path
            path2 := path2
            offset := offset
            length := length
            returnValue := returnValue
            errno := 0
            digest := digest }
         flags := s.pendingFlags
         time := p.wallTime s.stamp }] }

/-- `emit_marker`: the text ends at a zero byte or at `MARKER_TEXT_MAX`. Each byte is a
character here, as it is for the reader up to 127; it decodes the others as UTF-8. -/
def emitMarker (index : ℕ) (text : List UInt8) : Session :=
  let copied := (text.take markerTextMax).takeWhile (· ≠ 0)
  { s with
    lines := s.lines ++
      [{ record := .marker
          { index := index
            threadId := p.tid
            text := String.ofList (copied.map fun byte => Char.ofNat byte.toNat) }
         flags := 0
         time := 0 }] }

/-- The end of a recorded call that carries a payload: `capture_payload` and
`emit_event`. -/
def emitWrite (index : ℕ) (call : CallName) (fd : ℕ) (payload : List UInt8) (offset : ℤ) :
    Session :=
  (s.storePayload (p.sha256 payload) payload).emitEvent p index call fd (s.pathFor fd) "" offset
    payload.length payload.length (p.sha256 payload)

/-! ### The calls -/

def open_ (path : String) (access : Access) (creat trunc : Bool) (fd : ℕ) :
    Except Errno Session := do
  let machine ← s.toMachine.open_ (p.loc path) access creat trunc fd
  let s' := ((s.issue machine).rememberPath p fd path).setFlags (openFlags access creat trunc)
  return if s'.isMarkerFd fd then s'
    else s'.emitEvent p s.stamp .open_ fd (s'.pathFor fd) "" 0 0 fd ""

/-- Writes to the marker file become markers. -/
def write (fd : ℕ) (payload : List UInt8) : Except Errno Session := do
  let machine ← s.toMachine.write fd payload
  let s' := s.issue machine
  return if s.isMarkerFd fd then s'.emitMarker p s.stamp payload
    else s'.emitWrite p s.stamp .write fd payload (s'.writeOffset fd payload.length)

def pwrite (fd : ℕ) (payload : List UInt8) (offset : ℕ) : Except Errno Session := do
  let machine ← s.toMachine.pwrite fd payload offset
  return (s.issue machine).emitWrite p s.stamp .pwrite fd payload offset

/-- A payload larger than the staging buffer gets no digest. -/
def writev (fd : ℕ) (buffers : List (List UInt8)) : Except Errno Session := do
  let payload := buffers.flatten
  let machine ← s.toMachine.write fd payload
  let s' := s.issue machine
  let offset := s'.writeOffset fd payload.length
  return if payload.length ≤ iovStageMax then s'.emitWrite p s.stamp .writev fd payload offset
    else s'.emitEvent p s.stamp .writev fd (s'.pathFor fd) "" offset payload.length
      payload.length ""

def ftruncate (fd length : ℕ) : Except Errno Session := do
  let machine ← s.toMachine.ftruncate fd length
  return (s.issue machine).emitEvent p s.stamp .ftruncate fd (s.pathFor fd) "" 0 length 0 ""

def truncate (path : String) (length : ℕ) : Except Errno Session := do
  let machine ← s.onDisk (·.truncate (p.loc path) length)
  return (s.issue machine).emitEvent p s.stamp .truncate (-1) (p.resolve s.disk path) "" 0
    length 0 ""

/-- The path is resolved after the call. -/
def mkdir (path : String) : Except Errno Session := do
  let machine ← s.onDisk (·.mkdir (p.loc path))
  return (s.issue machine).emitEvent p s.stamp .mkdir (-1) (p.resolve machine.disk path) "" 0 0 0
    ""

/-- The path is resolved before the call, because the entry is gone afterwards. -/
def unlink (path : String) : Except Errno Session := do
  let machine ← s.onDisk (·.unlink (p.loc path))
  return (s.issue machine).emitEvent p s.stamp .unlink (-1) (p.resolve s.disk path) "" 0 0 0 ""

def link (source dest : String) : Except Errno Session := do
  let machine ← s.onDisk (·.link (p.loc source) (p.loc dest))
  return (s.issue machine).emitEvent p s.stamp .link (-1) (p.resolve s.disk source)
    (p.resolve machine.disk dest) 0 0 0 ""

def rename (source dest : String) : Except Errno Session := do
  let machine ← s.onDisk (·.rename (p.loc source) (p.loc dest))
  return (s.issue machine).emitEvent p s.stamp .rename (-1) (p.resolve s.disk source)
    (p.resolve machine.disk dest) 0 0 0 ""

def close (fd : ℕ) : Except Errno Session := do
  let machine ← s.toMachine.close fd
  let s' := s.issue machine
  return (if s.isMarkerFd fd then s'
    else s'.emitEvent p s.stamp .close fd (s.pathFor fd) "" 0 0 0 "").forgetPath fd

end Session

/-- A call of the traced process; `open_` with the descriptor it returns. -/
inductive Call where
  | open_ (path : String) (access : Access) (creat trunc : Bool) (fd : ℕ)
  | write (fd : ℕ) (payload : List UInt8)
  | pwrite (fd : ℕ) (payload : List UInt8) (offset : ℕ)
  | writev (fd : ℕ) (buffers : List (List UInt8))
  | ftruncate (fd length : ℕ)
  | truncate (path : String) (length : ℕ)
  | mkdir (path : String)
  | link (source dest : String)
  | rename (source dest : String)
  | unlink (path : String)
  | close (fd : ℕ)

/-- One interposed call. -/
def Session.step (s : Session) : Call → Except Errno Session
  | .open_ path access creat trunc fd => s.open_ p path access creat trunc fd
  | .write fd payload => s.write p fd payload
  | .pwrite fd payload offset => s.pwrite p fd payload offset
  | .writev fd buffers => s.writev p fd buffers
  | .ftruncate fd length => s.ftruncate p fd length
  | .truncate path length => s.truncate p path length
  | .mkdir path => s.mkdir p path
  | .link source dest => s.link p source dest
  | .rename source dest => s.rename p source dest
  | .unlink path => s.unlink p path
  | .close fd => s.close p fd

/-- A process that has just been started. -/
def Session.start (disk : Disk) : Session where
  disk := disk
  fds := fun _ => none
  fdPaths := fun _ => ""
  fdIsMarker := fun _ => false
  stamp := 0
  pendingFlags := 0
  cas := []
  lines := []

/-- The events of a session, in the order of its records. -/
def Session.events (s : Session) : List TraceEvent := s.lines.filterMap (·.record.event?)

/-- The markers of a session, in the order of its records. -/
def Session.markers (s : Session) : List TraceMarker := s.lines.filterMap (·.record.marker?)

/-! ### What the parts of a call leave -/

section Parts

variable {p : Process} {s : Session} {path : String} {i fd : ℕ} {loc : List Chars}
  {machine : Machine} {index length : ℕ} {call : CallName} {path2 digest : String}
  {offset returnValue fd' : ℤ} {payload : List UInt8}

/-- What `emit_event` prints. -/
def eventOf (p : Process) (index completion : ℕ) (call : CallName) (fd : ℤ) (path path2 : String)
    (offset : ℤ) (length : ℕ) (returnValue : ℤ) (digest : String) : TraceEvent :=
  ⟨index, completion, call, fd, p.tid, path, path2, offset, length, returnValue, 0, digest⟩

@[simp] lemma emitEvent_events :
    (s.emitEvent p index call fd' path path2 offset length returnValue digest).events =
      s.events ++
        [eventOf p index s.stamp call fd' path path2 offset length returnValue digest] := by
  rw [Session.events, Session.events, Session.emitEvent, List.filterMap_append]
  rfl

@[simp] lemma emitEvent_markers :
    (s.emitEvent p index call fd' path path2 offset length returnValue digest).markers =
      s.markers := by
  rw [Session.markers, Session.markers, Session.emitEvent, List.filterMap_append]
  exact List.append_nil _

@[simp] lemma emitEvent_toMachine :
    (s.emitEvent p index call fd' path path2 offset length returnValue digest).toMachine =
      s.toMachine := rfl

@[simp] lemma emitEvent_fdPaths :
    (s.emitEvent p index call fd' path path2 offset length returnValue digest).fdPaths =
      s.fdPaths := rfl

@[simp] lemma emitEvent_fdIsMarker :
    (s.emitEvent p index call fd' path path2 offset length returnValue digest).fdIsMarker =
      s.fdIsMarker := rfl

@[simp] lemma emitEvent_stamp :
    (s.emitEvent p index call fd' path path2 offset length returnValue digest).stamp =
      s.stamp + 1 := rfl

@[simp] lemma emitEvent_cas :
    (s.emitEvent p index call fd' path path2 offset length returnValue digest).cas = s.cas := rfl

@[simp] lemma storePayload_toMachine : (s.storePayload digest payload).toMachine = s.toMachine := by
  rw [Session.storePayload]
  split <;> rfl

@[simp] lemma storePayload_fdPaths : (s.storePayload digest payload).fdPaths = s.fdPaths := by
  rw [Session.storePayload]
  split <;> rfl

@[simp] lemma storePayload_fdIsMarker :
    (s.storePayload digest payload).fdIsMarker = s.fdIsMarker := by
  rw [Session.storePayload]
  split <;> rfl

@[simp] lemma storePayload_stamp : (s.storePayload digest payload).stamp = s.stamp := by
  rw [Session.storePayload]
  split <;> rfl

@[simp] lemma storePayload_events : (s.storePayload digest payload).events = s.events := by
  rw [Session.storePayload]
  split <;> rfl

@[simp] lemma storePayload_markers : (s.storePayload digest payload).markers = s.markers := by
  rw [Session.storePayload]
  split <;> rfl

/-- The objects that were there decide what is stored. -/
lemma storePayload_cas_congr {s' : Session} (h : s'.cas = s.cas) :
    (s'.storePayload digest payload).cas = (s.storePayload digest payload).cas := by
  rw [Session.storePayload, Session.storePayload, h]
  split
  · exact h
  · rfl

/-- Nothing stored is lost. -/
lemma cas_subset_storePayload : s.cas ⊆ (s.storePayload digest payload).cas := by
  rw [Session.storePayload]
  split
  · exact List.Subset.refl _
  · exact List.subset_cons_self _ _

/-- A stored object was there, or is the payload. -/
lemma mem_of_mem_storePayload {entry : String × List UInt8}
    (h : entry ∈ (s.storePayload digest payload).cas) :
    entry ∈ s.cas ∨ entry = (digest, payload) := by
  rw [Session.storePayload] at h
  split at h
  · exact .inl h
  · exact (List.mem_cons.mp h).symm

/-- Some payload is stored under the digest. -/
lemma exists_mem_storePayload :
    ∃ stored, (digest, stored) ∈ (s.storePayload digest payload).cas := by
  rw [Session.storePayload]
  split
  · rename_i hany
    obtain ⟨⟨d, other⟩, hmem, hd⟩ := List.any_eq_true.mp hany
    obtain rfl : d = digest := by simpa using hd
    exact ⟨other, hmem⟩
  · exact ⟨payload, List.mem_cons_self⟩

/-- A payload is stored under its digest, unless another one was there. -/
lemma mem_storePayload (h : ∀ entry ∈ s.cas, entry.1 = digest → entry.2 = payload) :
    (digest, payload) ∈ (s.storePayload digest payload).cas := by
  obtain ⟨stored, hstored⟩ : ∃ stored, (digest, stored) ∈ (s.storePayload digest payload).cas :=
    exists_mem_storePayload
  rcases mem_of_mem_storePayload hstored with hold | hnew
  · obtain rfl : stored = payload := h _ hold rfl
    exact hstored
  · rwa [← hnew]

@[simp] lemma emitWrite_events {fd : ℕ} :
    (s.emitWrite p index call fd payload offset).events = s.events ++
      [eventOf p index s.stamp call fd (s.pathFor fd) "" offset payload.length payload.length
        (p.sha256 payload)] := by
  simp [Session.emitWrite, Session.pathFor]

lemma cas_subset_emitWrite {machine : Machine} {fd : ℕ} :
    s.cas ⊆ ((s.issue machine).emitWrite p index call fd payload offset).cas := by
  rw [Session.emitWrite, emitEvent_cas]
  exact cas_subset_storePayload (s := s.issue machine)

@[simp] lemma emitWrite_toMachine {fd : ℕ} :
    (s.emitWrite p index call fd payload offset).toMachine = s.toMachine := by
  simp [Session.emitWrite]

@[simp] lemma emitWrite_fdPaths {fd : ℕ} :
    (s.emitWrite p index call fd payload offset).fdPaths = s.fdPaths := by
  simp [Session.emitWrite]

@[simp] lemma emitWrite_stamp {fd : ℕ} :
    (s.emitWrite p index call fd payload offset).stamp = s.stamp + 1 := by
  simp [Session.emitWrite]

@[simp] lemma emitWrite_markers {fd : ℕ} :
    (s.emitWrite p index call fd payload offset).markers = s.markers := by
  simp [Session.emitWrite]

@[simp] lemma emitWrite_fdIsMarker {fd : ℕ} :
    (s.emitWrite p index call fd payload offset).fdIsMarker = s.fdIsMarker := by
  simp [Session.emitWrite]

@[simp] lemma emitMarker_events {text : List UInt8} :
    (s.emitMarker p index text).events = s.events := by
  rw [Session.events, Session.events, Session.emitMarker, List.filterMap_append]
  exact List.append_nil _

@[simp] lemma emitMarker_cas {text : List UInt8} :
    (s.emitMarker p index text).cas = s.cas := rfl

@[simp] lemma emitMarker_markers {text : List UInt8} : (s.emitMarker p index text).markers =
    s.markers ++ [⟨index, p.tid, String.ofList (((text.take markerTextMax).takeWhile (· ≠ 0)).map
      fun byte => Char.ofNat byte.toNat)⟩] := by
  rw [Session.markers, Session.markers, Session.emitMarker, List.filterMap_append]
  rfl

@[simp] lemma emitMarker_toMachine {text : List UInt8} :
    (s.emitMarker p index text).toMachine = s.toMachine := rfl

@[simp] lemma emitMarker_stamp {text : List UInt8} :
    (s.emitMarker p index text).stamp = s.stamp := rfl

@[simp] lemma emitMarker_fdIsMarker {text : List UInt8} :
    (s.emitMarker p index text).fdIsMarker = s.fdIsMarker := rfl

@[simp] lemma issue_toMachine : (s.issue machine).toMachine = machine := rfl

@[simp] lemma issue_fdPaths : (s.issue machine).fdPaths = s.fdPaths := rfl

@[simp] lemma issue_stamp : (s.issue machine).stamp = s.stamp + 1 := rfl

@[simp] lemma issue_cas : (s.issue machine).cas = s.cas := rfl

@[simp] lemma issue_events : (s.issue machine).events = s.events := rfl

@[simp] lemma issue_markers : (s.issue machine).markers = s.markers := rfl

@[simp] lemma issue_fdIsMarker : (s.issue machine).fdIsMarker = s.fdIsMarker := rfl

@[simp] lemma rememberPath_toMachine {fd : ℕ} :
    (s.rememberPath p fd path).toMachine = s.toMachine := by
  rw [Session.rememberPath]
  split <;> rfl

@[simp] lemma rememberPath_events {fd : ℕ} : (s.rememberPath p fd path).events = s.events := by
  rw [Session.rememberPath]
  split <;> rfl

@[simp] lemma rememberPath_stamp {fd : ℕ} : (s.rememberPath p fd path).stamp = s.stamp := by
  rw [Session.rememberPath]
  split <;> rfl

@[simp] lemma rememberPath_cas {fd : ℕ} : (s.rememberPath p fd path).cas = s.cas := by
  rw [Session.rememberPath]
  split <;> rfl

@[simp] lemma rememberPath_markers {fd : ℕ} : (s.rememberPath p fd path).markers = s.markers := by
  rw [Session.rememberPath]
  split <;> rfl

lemma rememberPath_fdIsMarker {fd : ℕ} (hfd : fd < maxFd) : (s.rememberPath p fd path).fdIsMarker =
    Function.update s.fdIsMarker fd (pathIsMarker path) := by
  rw [Session.rememberPath, if_pos hfd]

lemma rememberPath_fdPaths_self {fd : ℕ} (hfd : fd < maxFd) :
    (s.rememberPath p fd path).fdPaths fd = p.resolve s.disk path := by
  simp [Session.rememberPath, hfd]

/-- Other descriptors keep their paths. -/
lemma rememberPath_fdPaths_of_ne {fd fd' : ℕ} (hne : fd' ≠ fd) :
    (s.rememberPath p fd path).fdPaths fd' = s.fdPaths fd' := by
  rw [Session.rememberPath]
  split
  · exact Function.update_of_ne hne _ _
  · rfl

@[simp] lemma setFlags_toMachine {flags : ℕ} : (s.setFlags flags).toMachine = s.toMachine := rfl

@[simp] lemma setFlags_fdPaths {flags : ℕ} : (s.setFlags flags).fdPaths = s.fdPaths := rfl

@[simp] lemma setFlags_stamp {flags : ℕ} : (s.setFlags flags).stamp = s.stamp := rfl

@[simp] lemma setFlags_cas {flags : ℕ} : (s.setFlags flags).cas = s.cas := rfl

@[simp] lemma setFlags_events {flags : ℕ} : (s.setFlags flags).events = s.events := rfl

@[simp] lemma setFlags_markers {flags : ℕ} : (s.setFlags flags).markers = s.markers := rfl

@[simp] lemma setFlags_fdIsMarker {flags : ℕ} :
    (s.setFlags flags).fdIsMarker = s.fdIsMarker := rfl

@[simp] lemma forgetPath_toMachine {fd : ℕ} : (s.forgetPath fd).toMachine = s.toMachine := by
  rw [Session.forgetPath]
  split <;> rfl

@[simp] lemma forgetPath_events {fd : ℕ} : (s.forgetPath fd).events = s.events := by
  rw [Session.forgetPath]
  split <;> rfl

@[simp] lemma forgetPath_stamp {fd : ℕ} : (s.forgetPath fd).stamp = s.stamp := by
  rw [Session.forgetPath]
  split <;> rfl

@[simp] lemma forgetPath_cas {fd : ℕ} : (s.forgetPath fd).cas = s.cas := by
  rw [Session.forgetPath]
  split <;> rfl

@[simp] lemma forgetPath_markers {fd : ℕ} : (s.forgetPath fd).markers = s.markers := by
  rw [Session.forgetPath]
  split <;> rfl

lemma forgetPath_fdIsMarker {fd : ℕ} (hfd : fd < maxFd) :
    (s.forgetPath fd).fdIsMarker = Function.update s.fdIsMarker fd false := by
  rw [Session.forgetPath, if_pos hfd]

lemma forgetPath_fdPaths_of_ne {fd fd' : ℕ} (hne : fd' ≠ fd) :
    (s.forgetPath fd).fdPaths fd' = s.fdPaths fd' := by
  rw [Session.forgetPath]
  split
  · exact Function.update_of_ne hne _ _
  · rfl

/-- `open`. -/
lemma open_eq_ok_iff {m m' : Machine} {access : Access} {creat trunc : Bool} :
    m.open_ loc access creat trunc fd = .ok m' ↔ m.fds fd = none ∧ m.disk.Reached loc ∧
      ((m.disk.node loc = none ∧ creat = true ∧
          m' = ⟨m.disk.addFile loc,
            Function.update m.fds fd (some (.file m.disk.next 0 access))⟩) ∨
        (m.disk.node loc = some .dir ∧ ¬ (creat = true ∨ trunc = true ∨ access ≠ .readOnly) ∧
          m' = ⟨m.disk, Function.update m.fds fd (some .dir)⟩) ∨
        ∃ i, m.disk.node loc = some (.file i) ∧
          m' = ⟨if trunc then m.disk.setData i [] else m.disk,
            Function.update m.fds fd (some (.file i 0 access))⟩) := by
  rw [Machine.open_]
  by_cases hfd : m.fds fd = none
  · rw [if_neg (by simp [hfd]), Volume.reach_bind_eq_ok, and_iff_right hfd]
    refine and_congr_right fun _ => ?_
    cases hnode : m.disk.node loc with
    | none => cases creat <;> simp [eq_comm]
    | some n =>
        cases n with
        | dir =>
            by_cases hmode : creat = true ∨ trunc = true ∨ access ≠ .readOnly
            · simp [hmode]
            · simp [hmode, eq_comm]
        | file i => simp [eq_comm]
  · rw [if_pos hfd]
    simp [hfd]

/-- What was opened is there. -/
lemma open_exists {m m' : Machine} {access : Access} {creat trunc : Bool}
    (h : m.open_ loc access creat trunc fd = .ok m') : m'.disk.node loc ≠ none := by
  obtain ⟨-, -, hcases⟩ := open_eq_ok_iff.mp h
  rcases hcases with ⟨-, -, rfl⟩ | ⟨hdir, -, rfl⟩ | ⟨i, hi, rfl⟩
  · simp
  · simp [hdir]
  · cases trunc <;> simp [hi]

/-- Other descriptors stay as they are. -/
lemma open_fds {m m' : Machine} {access : Access} {creat trunc : Bool} {fd' : ℕ}
    (h : m.open_ loc access creat trunc fd = .ok m') (hne : fd' ≠ fd) : m'.fds fd' = m.fds fd' := by
  obtain ⟨-, -, hcases⟩ := open_eq_ok_iff.mp h
  rcases hcases with ⟨-, -, rfl⟩ | ⟨-, -, rfl⟩ | ⟨i, -, rfl⟩ <;>
    exact Function.update_of_ne hne _ _

/-- A call through a descriptor. -/
lemma alter_eq_ok_iff {m m' : Machine} {change : ℕ → List UInt8 → List UInt8} {advance : ℕ} :
    m.alter fd change advance = .ok m' ↔ ∃ i position access,
      m.fds fd = some (.file i position access) ∧ access ≠ .readOnly ∧
      m' = ⟨m.disk.setData i (change position (m.disk.data i)),
        Function.update m.fds fd (some (.file i (position + advance) access))⟩ := by
  rw [Machine.alter]
  cases hfd : m.fds fd with
  | none => simp
  | some descriptor =>
      cases descriptor with
      | dir => simp
      | file i position access =>
          by_cases haccess : access = .readOnly
          · simp [haccess]
          · simp [haccess, eq_comm]

lemma onDisk_eq_ok_iff {m m' : Machine} {call : Disk → Except Errno Disk} :
    m.onDisk call = .ok m' ↔ ∃ disk, call m.disk = .ok disk ∧ m' = ⟨disk, m.fds⟩ := by
  rw [Machine.onDisk, bind_eq_ok]
  simp [pure, Except.pure, eq_comm]

/-- Where a write through a descriptor landed. -/
lemma writeOffset_eq {machine : Machine} {change : ℕ → List UInt8 → List UInt8} {n : ℕ}
    (hstep : s.toMachine.alter fd change n = .ok machine) {position : ℕ} {access : Access}
    (hfd : s.fds fd = some (.file i position access)) :
    (s.issue machine).writeOffset fd n = position := by
  obtain ⟨j, position', access', hfd', -, rfl⟩ := alter_eq_ok_iff.mp hstep
  obtain ⟨rfl, rfl, rfl⟩ : i = j ∧ position = position' ∧ access = access' := by
    simpa [hfd] using hfd'
  have hposition : (s.issue ⟨s.disk.setData i (change position (s.disk.data i)),
      Function.update s.fds fd (some (.file i (position + n) access))⟩).position fd =
        (position + n : ℕ) := by
    simp [Machine.position]
  rw [Session.writeOffset, hposition, if_neg (by omega)]
  omega

lemma toNat_writeOffset {machine : Machine} {change : ℕ → List UInt8 → List UInt8} {n : ℕ}
    (hstep : s.toMachine.alter fd change n = .ok machine) {position : ℕ} {access : Access}
    (hfd : s.fds fd = some (.file i position access)) :
    ((s.issue machine).writeOffset fd n).toNat = position := by
  rw [writeOffset_eq hstep hfd, Int.toNat_natCast]

end Parts

/-! ### Calls that the kernel takes -/

section Taken

variable {p : Process} {s : Session} {path dest : String} {fd : ℕ} {access : Access}

lemma taken_open {machine : Machine} {creat trunc : Bool}
    (h : s.toMachine.open_ (p.loc path) access creat trunc fd = .ok machine) :
    ∃ s', s.step p (.open_ path access creat trunc fd) = .ok s' ∧ s'.toMachine = machine := by
  rw [Session.step, Session.open_, h]
  refine ⟨_, rfl, ?_⟩
  split <;> simp

lemma taken_write {i position : ℕ} (payload : List UInt8)
    (hfd : s.fds fd = some (.file i position access)) (haccess : access ≠ .readOnly) :
    ∃ s', s.step p (.write fd payload) = .ok s' ∧ s'.disk.node = s.disk.node ∧
      s'.fds = Function.update s.fds fd (some (.file i (position + payload.length) access)) := by
  have hmachine : s.toMachine.write fd payload = .ok _ :=
    alter_eq_ok_iff.mpr ⟨i, position, access, hfd, haccess, rfl⟩
  rw [Session.step, Session.write, hmachine]
  refine ⟨_, rfl, ?_⟩
  split <;> exact ⟨by simp; rfl, by simp⟩

lemma taken_close (hfd : s.fds fd ≠ none) : ∃ s', s.step p (.close fd) = .ok s' ∧
    s'.disk = s.disk ∧ s'.fds = Function.update s.fds fd none := by
  rw [Session.step, Session.close, Machine.close, if_neg hfd]
  refine ⟨_, rfl, ?_⟩
  split <;> simp

lemma taken_rename {disk : Disk} (h : s.disk.rename (p.loc path) (p.loc dest) = .ok disk) :
    ∃ s', s.step p (.rename path dest) = .ok s' ∧ s'.toMachine = ⟨disk, s.fds⟩ := by
  rw [Session.step, Session.rename, onDisk_eq_ok_iff.mpr ⟨disk, h, rfl⟩]
  exact ⟨_, rfl, by simp⟩

end Taken

end CrashFuzz.Shim
