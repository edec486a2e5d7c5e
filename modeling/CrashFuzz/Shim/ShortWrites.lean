import CrashFuzz.Enumerate.Tearing
import CrashFuzz.Shim.Reproduce

/-!
Writes that transfer less than they were asked to.

* `WriteCall`, `Session.returning`: a call of which the kernel takes the first
  `ret` bytes, and what the interposer records of it.
* `Attempt`, `Session.attempt`: the calls of a run, with every answer.
* `written`: the bytes that replay writes for an event.
* `WritesReturned`: a short write contributes the bytes it wrote and no others.
* `short_write_overruns`: the interposer records the whole buffer and replay
  writes it, so no short write does; torn variants stay below the returned count
  exactly when it reaches into the last sector.
-/

namespace CrashFuzz.Shim

open PosixPath FileTree

/-! ### Capture -/

/-- A call that writes a buffer through a descriptor. -/
inductive WriteCall where
  | write (fd : ℕ) (payload : List UInt8)
  | pwrite (fd : ℕ) (payload : List UInt8) (offset : ℕ)
  | writev (fd : ℕ) (buffers : List (List UInt8))
  deriving DecidableEq

namespace WriteCall

/-- The requested bytes. -/
def buffer : WriteCall → List UInt8
  | .write _ payload | .pwrite _ payload _ => payload
  | .writev _ buffers => buffers.flatten

def fd : WriteCall → ℕ
  | .write fd _ | .pwrite fd _ _ | .writev fd _ => fd

def name : WriteCall → CallName
  | .write _ _ => .write
  | .pwrite _ _ _ => .pwrite
  | .writev _ _ => .writev

/-- The payload gets a digest: a vectored one has to fit the staging buffer. -/
def staged : WriteCall → Bool
  | .write _ _ | .pwrite _ _ _ => true
  | .writev _ buffers => buffers.flatten.length ≤ iovStageMax

/-- The call gets a record of its own: a `write` to the marker file does not. -/
def Traced (s : Session) : WriteCall → Prop
  | .write fd _ => s.isMarkerFd fd = false
  | .pwrite _ _ _ | .writev _ _ => True

/-- The call when all of its bytes are transferred. -/
def full : WriteCall → Call
  | .write fd payload => .write fd payload
  | .pwrite fd payload offset => .pwrite fd payload offset
  | .writev fd buffers => .writev fd buffers

end WriteCall

namespace Session

variable (p : Process) (s : Session)

/-- The end of a recorded call that was asked to write `payload` and returned
`ret`: `capture_payload` and `emit_event`, both of the whole payload. -/
def emitReturned (index : ℕ) (call : CallName) (fd : ℕ) (payload : List UInt8) (offset : ℤ)
    (ret : ℕ) : Session :=
  (s.storePayload (p.sha256 payload) payload).emitEvent p index call fd (s.pathFor fd) "" offset
    payload.length ret (p.sha256 payload)

/-- `write`, `pwrite` and `writev` when the kernel takes `ret` bytes. -/
def returning (w : WriteCall) (ret : ℕ) : Except Errno Session :=
  match w with
  | .write fd payload => do
      let machine ← s.toMachine.write fd (payload.take ret)
      let s' := s.issue machine
      return if s.isMarkerFd fd then s'.emitMarker p s.stamp payload
        else s'.emitReturned p s.stamp .write fd payload
          (s'.writeOffset fd (payload.take ret).length) (payload.take ret).length
  | .pwrite fd payload offset => do
      let machine ← s.toMachine.pwrite fd (payload.take ret) offset
      return (s.issue machine).emitReturned p s.stamp .pwrite fd payload offset
        (payload.take ret).length
  | .writev fd buffers => do
      let payload := buffers.flatten
      let machine ← s.toMachine.write fd (payload.take ret)
      let s' := s.issue machine
      let offset := s'.writeOffset fd (payload.take ret).length
      return if payload.length ≤ iovStageMax then
          s'.emitReturned p s.stamp .writev fd payload offset (payload.take ret).length
        else s'.emitEvent p s.stamp .writev fd (s'.pathFor fd) "" offset payload.length
          (payload.take ret).length ""

/-- Any other record: a call that failed, or one that changes no file. The
payload of a write is stored whatever the call returned. -/
def other (event : TraceEvent) (payload : Option (List UInt8)) : Session :=
  let s' := payload.elim s fun bytes => s.storePayload (p.sha256 bytes) bytes
  { s' with
    stamp := s.stamp + 2
    lines := s.lines ++
      [{ record := .event { event with index := s.stamp, completionIndex := s.stamp + 1 }
         flags := s.pendingFlags
         time := p.wallTime (s.stamp + 1) }] }

end Session

/-- A call with the answer of the kernel. -/
inductive Attempt where
  | full (call : Call)
  | part (w : WriteCall) (ret : ℕ)
  | other (event : TraceEvent) (payload : Option (List UInt8))

/-- One interposed call. -/
def Session.attempt (p : Process) (s : Session) : Attempt → Except Errno Session
  | .full call => s.step p call
  | .part w ret => s.returning p w ret
  | .other event payload => .ok (s.other p event payload)

variable {p : Process} {s s' s₁ s₂ s₃ : Session} {w : WriteCall} {ret : ℕ}

@[simp] lemma emitReturned_events {index fd : ℕ} {call : CallName} {payload : List UInt8}
    {offset : ℤ} : (s.emitReturned p index call fd payload offset ret).events = s.events ++
      [eventOf p index s.stamp call fd (s.pathFor fd) "" offset payload.length ret
        (p.sha256 payload)] := by
  simp [Session.emitReturned]

lemma cas_subset_emitReturned {machine : Machine} {index fd : ℕ} {call : CallName}
    {payload : List UInt8} {offset : ℤ} :
    s.cas ⊆ ((s.issue machine).emitReturned p index call fd payload offset ret).cas := by
  rw [Session.emitReturned, emitEvent_cas]
  exact cas_subset_storePayload (s := s.issue machine)

@[simp] lemma other_events {event : TraceEvent} {payload : Option (List UInt8)} :
    (s.other p event payload).events = s.events ++
      [{ event with index := s.stamp, completionIndex := s.stamp + 1 }] := by
  rw [Session.events, Session.other, List.filterMap_append]
  rfl

/-- What a write leaves: a marker, or the record of the whole buffer. -/
lemma returning_cases (h : s.returning p w ret = .ok s') : ∃ machine offset,
    (¬ w.Traced s ∧ s' = (s.issue machine).emitMarker p s.stamp w.buffer) ∨
    (w.Traced s ∧ w.staged = true ∧ s' = (s.issue machine).emitReturned p s.stamp w.name w.fd
      w.buffer offset (w.buffer.take ret).length) ∨
    (w.Traced s ∧ w.staged = false ∧ s' = (s.issue machine).emitEvent p s.stamp w.name w.fd
      (s.pathFor w.fd) "" offset w.buffer.length (w.buffer.take ret).length "") := by
  cases w with
  | write fd payload =>
      rw [Session.returning, bind_eq_ok] at h
      obtain ⟨machine, -, heq⟩ := h
      cases heq
      refine ⟨machine, (s.issue machine).writeOffset fd (payload.take ret).length, ?_⟩
      cases hmarker : s.isMarkerFd fd with
      | true => exact .inl ⟨fun htraced => Bool.noConfusion (hmarker.symm.trans htraced), rfl⟩
      | false => exact .inr (.inl ⟨hmarker, rfl, rfl⟩)
  | pwrite fd payload offset =>
      rw [Session.returning, bind_eq_ok] at h
      obtain ⟨machine, -, heq⟩ := h
      cases heq
      exact ⟨machine, offset, .inr (.inl ⟨trivial, rfl, rfl⟩)⟩
  | writev fd buffers =>
      rw [Session.returning, bind_eq_ok] at h
      obtain ⟨machine, -, heq⟩ := h
      cases heq
      refine ⟨machine, (s.issue machine).writeOffset fd (buffers.flatten.take ret).length, ?_⟩
      by_cases hstage : buffers.flatten.length ≤ iovStageMax
      · rw [if_pos hstage]
        exact .inr (.inl ⟨trivial, decide_eq_true hstage, rfl⟩)
      · rw [if_neg hstage]
        exact .inr (.inr ⟨trivial, decide_eq_false hstage, rfl⟩)

/-- No call takes back a record or a payload. -/
lemma attempt_mono {a : Attempt} (h : s.attempt p a = .ok s') :
    s.events ⊆ s'.events ∧ s.cas ⊆ s'.cas := by
  cases a with
  | full call => exact mono_of_step h
  | part w ret =>
      obtain ⟨machine, offset, ⟨-, rfl⟩ | ⟨-, -, rfl⟩ | ⟨-, -, rfl⟩⟩ := returning_cases h
      · simp
      · exact ⟨by simp, cas_subset_emitReturned⟩
      · simp
  | other event payload =>
      cases h
      refine ⟨by simp, ?_⟩
      cases payload with
      | none => exact List.Subset.refl _
      | some bytes => exact cas_subset_storePayload

/-- The run lemma. -/
lemma run_mono {calls : List Attempt} (h : calls.foldlM (Session.attempt p) s = .ok s') :
    s.events ⊆ s'.events ∧ s.cas ⊆ s'.cas := by
  induction calls generalizing s with
  | nil =>
      cases h
      exact ⟨List.Subset.refl _, List.Subset.refl _⟩
  | cons a calls ih =>
      rw [List.foldlM_cons, bind_eq_ok] at h
      obtain ⟨m, hm, hrest⟩ := h
      have hstep := attempt_mono hm
      have hrun := ih hrest
      exact ⟨List.Subset.trans hstep.1 hrun.1, List.Subset.trans hstep.2 hrun.2⟩

/-- What the record of a write says: the requested length and bytes, and the
returned count. -/
structure Records (p : Process) (w : WriteCall) (ret : ℕ) (event : TraceEvent) : Prop where
  call_eq : event.call = w.name
  length_eq : event.length = w.buffer.length
  return_eq : event.returnValue = ret
  digest_eq : event.digest = if w.staged then p.sha256 w.buffer else ""

/-- One short write. -/
lemma records_of_returning (h : s.returning p w ret = .ok s') (htraced : w.Traced s)
    (hshort : ret < w.buffer.length) (hdistinct : s.Distinct p w.buffer) :
    ∃ event ∈ s'.events, Records p w ret event ∧
      (w.staged = true → (p.sha256 w.buffer, w.buffer) ∈ s'.cas) := by
  have hret : (w.buffer.take ret).length = ret := by
    rw [List.length_take]
    omega
  obtain ⟨machine, offset, ⟨hno, -⟩ | ⟨-, hstage, rfl⟩ | ⟨-, hstage, rfl⟩⟩ := returning_cases h
  · exact absurd htraced hno
  · refine ⟨_, emitReturned_events ▸ List.mem_append_right _ (List.mem_singleton_self _),
      ⟨rfl, rfl, congrArg Int.ofNat hret, (if_pos hstage).symm⟩, fun _ => ?_⟩
    exact mem_storePayload (s := s.issue machine) hdistinct
  · refine ⟨_, emitEvent_events ▸ List.mem_append_right _ (List.mem_singleton_self _),
      ⟨rfl, rfl, congrArg Int.ofNat hret, (if_neg (Bool.not_eq_true _ ▸ hstage)).symm⟩,
      fun hyes => ?_⟩
    exact Bool.noConfusion (hstage.symm.trans hyes)

/-! ### Replay -/

section Replay

variable {options : ReplayOptions} {store : Store} {trace : Trace} {event : TraceEvent} {i : ℕ}
  {buffer : List UInt8} {bytes : Option ℕ}

/-- What replay writes of an event, torn to `bytes` when given; nothing when its
payload cannot be read. -/
def written (options : ReplayOptions) (store : Store) (event : TraceEvent) (bytes : Option ℕ) :
    Option (List UInt8) :=
  (store (payloadObject options event)).map fun payload => payload.take (bytes.getD payload.length)

/-- What `written` says is what `applyWrite` leaves at the recorded offset. -/
lemma runCalls_written {disk disk' : Disk} (h : BelowRoot options event.path)
    {payload : List UInt8} (hwritten : written options store event bytes = some payload) :
    runCalls options.cwd.toList store disk (applyWrite options event bytes) = .ok disk' ↔
      ((∀ q ∈ Volume.way (place options event.path), disk.NoFile q) ∧
        disk.node (place options event.path) ≠ some .dir) ∧
      disk' = (disk.ensured (place options event.path)).edit (place options event.path)
        (Volume.splice · event.offset.toNat payload) := by
  obtain ⟨stored, hstored, rfl⟩ := Option.map_eq_some_iff.mp hwritten
  rw [runCalls_applyWrite_iff h (by rw [hstored]; rfl), hstored]
  rfl

/-- Without the payload the replay throws. -/
lemma runCalls_unwritten {disk : Disk} (hwritten : written options store event bytes = none) :
    runCalls options.cwd.toList store disk (applyWrite options event bytes) = .error .noent := by
  have hnone : store (payloadObject options event) = none := Option.map_eq_none_iff.mp hwritten
  rw [runCalls, applyWrite, List.foldlM_cons, FsCall.exec, hnone]
  rfl

/-- The full replay writes the first `ret` bytes at position `i`. -/
def ReplaysReturned (options : ReplayOptions) (store : Store) (trace : Trace) (i : ℕ)
    (buffer : List UInt8) (ret : ℕ) : Prop :=
  ∀ event ∈ trace.events[i]?, written options store event none = some (buffer.take ret)

/-- So does the replay of every state with position `i` in full. -/
def KeepsReturned (options : ReplayOptions) (store : Store) (trace : Trace) (i : ℕ)
    (buffer : List UInt8) (ret : ℕ) : Prop :=
  ∀ model bounds k s, EmittedAt trace model bounds k s → i ∈ s.persisted →
    ∀ event ∈ trace.events[i]?,
      written options store event (s.selection.tornBytes i) = some (buffer.take ret)

/-- Every torn variant is shorter, and writes no other bytes. -/
def TearsReturned (options : ReplayOptions) (store : Store) (trace : Trace) (i : ℕ)
    (buffer : List UInt8) (ret : ℕ) : Prop :=
  ∀ model bounds k s, EmittedAt trace model bounds k s → ∀ t ∈ s.partials, t.op = i →
    t.bytes < ret ∧ ∀ event ∈ trace.events[i]?, ∀ payload,
      written options store event (some t.bytes) = some payload →
        ∃ n ≤ ret, payload = buffer.take n

/-- What replay reads for the record of a write. -/
lemma Records.store_eq (h : Records p w ret event) (hstore : Keeps options store s.cas)
    (hdir : store (join options.casDir.toList []) = none)
    (hcas : w.staged = true → (p.sha256 w.buffer, w.buffer) ∈ s.cas) :
    store (payloadObject options event) = if w.staged then some w.buffer else none := by
  rw [payloadObject, h.digest_eq]
  cases hstage : w.staged with
  | true => exact hstore _ (hcas hstage)
  | false => exact hdir

lemma Records.isWrite (h : Records p w ret event) : IsWrite event := by
  rw [IsWrite, h.call_eq]
  cases w with
  | write => exact .inl rfl
  | pwrite => exact .inr (.inl rfl)
  | writev => exact .inr (.inr rfl)

lemma Records.applied (h : Records p w ret event) (hi : trace.events[i]? = some event) :
    Applied trace.events i := by
  refine ⟨event, hi, ?_, h.return_eq ▸ Int.natCast_nonneg ret⟩
  rcases h.isWrite with hcall | hcall | hcall <;> rw [hcall] <;> decide

/-- An operation is in the window of its own crash point. -/
lemma CrashPoint.mem_window_self {events : List TraceEvent} {W : ℤ} (hW : 1 ≤ W)
    (h : Applied events i) : i ∈ CrashPoint.window events W i := by
  have hfree : i ∈ CrashPoint.free events i :=
    CrashPoint.mem_free.mpr ⟨le_rfl, h, fun hpin => lt_irrefl i hpin.lt⟩
  refine (CrashPoint.mem_older_or_window hfree).resolve_left fun holder => ?_
  have hlater : (CrashPoint.free events i).filter (i < ·) = [] := by
    refine List.filter_eq_nil_iff.mpr fun j hj hij => ?_
    have hle := (CrashPoint.mem_free.mp hj).1
    have hlt : i < j := of_decide_eq_true hij
    omega
  have hcount := (CrashPoint.mem_older.mp holder).2
  rw [hlater, List.length_nil] at hcount
  omega

/-- The full replay writes the whole buffer, or throws. -/
lemma written_ne_take
    (hread : store (payloadObject options event) = if w.staged then some w.buffer else none)
    (hshort : ret < w.buffer.length) :
    written options store event none ≠ some (w.buffer.take ret) := by
  rw [written, hread]
  cases w.staged with
  | true =>
      intro heq
      have hwhole : w.buffer.take w.buffer.length = w.buffer.take ret := Option.some.inj heq
      have hlength := congrArg List.length hwhole
      rw [List.take_length, List.length_take] at hlength
      omega
  | false => exact nofun

/-- Some state has the write in full. -/
lemma Records.not_keepsReturned (h : Records p w ret event) (hi : trace.events[i]? = some event)
    (hwritten : written options store event none ≠ some (buffer.take ret)) :
    ¬ KeepsReturned options store trace i buffer ret := by
  intro hkeeps
  have hlt : i < trace.events.length := (List.getElem?_eq_some_iff.mp hi).1
  have hissued : i ∈ CrashPoint.issued trace.events 1 i :=
    CrashPoint.mem_issued_of_applied le_rfl (h.applied hi)
  have hstate : EmittedAt trace ext4Journal ⟨true, 1⟩ i
      ⟨i, CrashPoint.issued trace.events 1 i, []⟩ :=
    emittedAt_iff.mpr ⟨hlt, CrashPoint.issued_mem_states rfl⟩
  exact hwritten (hkeeps _ _ _ _ hstate hissued event hi)

/-- Torn variants are shorter than the returned count exactly when it reaches
into the last sector of the request. -/
lemma Records.tearsReturned_iff (h : Records p w ret event) (hi : trace.events[i]? = some event)
    (hread : store (payloadObject options event) = if w.staged then some w.buffer else none) :
    TearsReturned options store trace i w.buffer ret ↔
      sectorsOf event ≤ 1 ∨ sectorBytes * (sectorsOf event - 1) < ret := by
  constructor
  · intro htears
    by_contra hno
    push Not at hno
    have hlt : i < trace.events.length := (List.getElem?_eq_some_iff.mp hi).1
    have hwindow := CrashPoint.mem_window_self le_rfl (h.applied hi)
    have hlen : (CrashPoint.window trace.events 1 i).length ≤ 1 :=
      CrashPoint.length_window_le le_rfl
    -- the least state of the write's own crash point, and its last torn variant
    have hmasks : (CrashPoint.window trace.events 1 i).length % 32 ≠ 31 := by omega
    have hleast : ⟨i, CrashPoint.alwaysPresent trace.events 1 i, []⟩ ∈
        CrashPoint.states trace.events xfs ⟨true, 1⟩ i :=
      CrashPoint.least_mem_states rfl hmasks
    have habsent : i ∉ CrashPoint.alwaysPresent trace.events 1 i :=
      fun hmem => CrashPoint.notMem_window_of_alwaysPresent le_rfl hmem hwindow
    have hprefix : sectorBytes * (sectorsOf event - 1) ∈ strictSectorPrefixes event :=
      (mem_strictSectorPrefixes h.isWrite).mpr (by omega)
    have hstate : EmittedAt trace xfs ⟨true, 1⟩ i
        ⟨i, CrashPoint.alwaysPresent trace.events 1 i,
          [⟨i, sectorBytes * (sectorsOf event - 1)⟩]⟩ :=
      emittedAt_iff.mpr ⟨hlt,
        (CrashPoint.mem_torn_iff rfl rfl hi).mpr ⟨hleast, hwindow, habsent, hprefix⟩⟩
    have hshorter := (htears _ _ _ _ hstate _ (List.mem_singleton_self _) rfl).1
    exact absurd hshorter (not_lt.mpr hno.2)
  · intro hsectors model bounds k s hs t ht hop
    obtain ⟨event', hevent', hbytes⟩ := CrashPoint.torn_bytes (emittedAt_iff.mp hs).2 ht
    obtain rfl : event = event' := Option.some.inj (hi.symm.trans (hop ▸ hevent'))
    obtain ⟨n, hn, hn', heq⟩ := exists_of_mem_strictSectorPrefixes hbytes
    have hlt : t.bytes < ret := by
      rcases hsectors with hone | hlast
      · omega
      · rw [heq]
        calc sectorBytes * n ≤ sectorBytes * (sectorsOf event - 1) := by
              exact Nat.mul_le_mul_left _ (by omega)
          _ < ret := hlast
    refine ⟨hlt, fun event' hevent' payload hpayload => ⟨t.bytes, hlt.le, ?_⟩⟩
    obtain rfl : event = event' := Option.some.inj (hi.symm.trans hevent')
    obtain ⟨stored, hstored, rfl⟩ := Option.map_eq_some_iff.mp hpayload
    rw [hread] at hstored
    split at hstored
    · obtain rfl := Option.some.inj hstored
      rfl
    · cases hstored

/-- **Short writes contribute bytes they did not write**: neither the full
replay nor any state with the write in full writes what the call returned, and
the torn variants are shorter only when it reaches into the last sector. -/
theorem short_write_overruns {calls : List Attempt} (hstep : s₁.returning p w ret = .ok s₂)
    (htraced : w.Traced s₁) (hshort : ret < w.buffer.length) (hdistinct : s₁.Distinct p w.buffer)
    (hrest : calls.foldlM (Session.attempt p) s₂ = .ok s₃) (hstore : Keeps options store s₃.cas)
    (hdir : store (join options.casDir.toList []) = none) (htrace : trace.events.Perm s₃.events) :
    ∃ event ∈ trace.events, Records p w ret event ∧ ∀ i, trace.events[i]? = some event →
      ¬ ReplaysReturned options store trace i w.buffer ret ∧
      ¬ KeepsReturned options store trace i w.buffer ret ∧
      (TearsReturned options store trace i w.buffer ret ↔
        sectorsOf event ≤ 1 ∨ sectorBytes * (sectorsOf event - 1) < ret) := by
  obtain ⟨event, hevent, hrecords, hcas⟩ := records_of_returning hstep htraced hshort hdistinct
  have hmono := run_mono hrest
  refine ⟨event, htrace.mem_iff.mpr (hmono.1 hevent), hrecords, fun i hi => ?_⟩
  have hread := hrecords.store_eq hstore hdir fun hstage => hmono.2 (hcas hstage)
  have hwritten := written_ne_take hread hshort
  exact ⟨fun h => hwritten (h event hi), hrecords.not_keepsReturned hi hwritten,
    hrecords.tearsReturned_iff hi hread⟩

end Replay

/-- A file is open. -/
def openSession : Session := (Session.start liveDisk).after liveProcess
  [.open_ "/live/f" .readWrite true true 3]

/-- Of two bytes the kernel takes one. -/
def shortSession : Session :=
  ((openSession.returning liveProcess (.write 3 [97, 98]) 1).toOption).getD openSession

def shortTrace : Trace := ⟨⟨traceVersion, 7⟩, shortSession.events, []⟩

lemma shortSession_eq :
    openSession.returning liveProcess (.write 3 [97, 98]) 1 = .ok shortSession :=
  eq_ok_getD (by decide +kernel)

lemma keeps_shortSession :
    Keeps captureOptions (storeOf captureOptions shortSession.cas) shortSession.cas := by
  unfold Keeps
  decide +kernel

/-- Its record is overrun. -/
theorem short_write_one : ∃ event ∈ shortTrace.events,
    Records liveProcess (.write 3 [97, 98]) 1 event ∧ ∀ i, shortTrace.events[i]? = some event →
      ¬ ReplaysReturned captureOptions (storeOf captureOptions shortSession.cas) shortTrace i
        [97, 98] 1 ∧
      ¬ KeepsReturned captureOptions (storeOf captureOptions shortSession.cas) shortTrace i
        [97, 98] 1 ∧
      (TearsReturned captureOptions (storeOf captureOptions shortSession.cas) shortTrace i
          [97, 98] 1 ↔ sectorsOf event ≤ 1 ∨ sectorBytes * (sectorsOf event - 1) < 1) := by
  have hmarker : openSession.isMarkerFd 3 = false := by decide +kernel
  have hdistinct : openSession.Distinct liveProcess [97, 98] := by decide +kernel
  have hrest : ([] : List Attempt).foldlM (Session.attempt liveProcess) shortSession =
      .ok shortSession := rfl
  have hdir : storeOf captureOptions shortSession.cas (join captureOptions.casDir.toList []) =
      none := by decide +kernel
  exact short_write_overruns shortSession_eq hmarker (by decide) hdistinct hrest
    keeps_shortSession hdir (List.Perm.refl _)

/-- Both bytes are replayed. -/
theorem short_write_whole :
    openSession.returning liveProcess (.write 3 [97, 98]) 1 = .ok shortSession ∧
      (∃ event ∈ shortTrace.events[1]?, event.returnValue = 1 ∧ event.length = 2 ∧
        written captureOptions (storeOf captureOptions shortSession.cas) event none =
          some [97, 98]) ∧
      ⟨1, [1], []⟩ ∈ CrashPoint.states shortTrace.events xfs ⟨true, 8⟩ 1 ∧
      ¬ ReplaysReturned captureOptions (storeOf captureOptions shortSession.cas) shortTrace 1
        [97, 98] 1 ∧
      ¬ KeepsReturned captureOptions (storeOf captureOptions shortSession.cas) shortTrace 1
        [97, 98] 1 := by
  have hevent : ∃ event ∈ shortTrace.events[1]?, event.returnValue = 1 ∧ event.length = 2 ∧
      written captureOptions (storeOf captureOptions shortSession.cas) event none =
        some [97, 98] := by
    decide +kernel
  have hstate : ⟨1, [1], []⟩ ∈ CrashPoint.states shortTrace.events xfs ⟨true, 8⟩ 1 := by
    decide +kernel
  have hlong : ([97, 98] : List UInt8) ≠ [97, 98].take 1 := by decide
  refine ⟨shortSession_eq, hevent, hstate, fun h => ?_, fun h => ?_⟩
  · obtain ⟨event, hi, -, -, hwritten⟩ := hevent
    exact hlong (Option.some.inj (hwritten.symm.trans (h event hi)))
  · obtain ⟨event, hi, -, -, hwritten⟩ := hevent
    have hkept := h _ _ _ _ (emittedAt_iff.mpr ⟨by decide +kernel, hstate⟩)
      (List.mem_singleton_self _) event hi
    exact hlong (Option.some.inj (hwritten.symm.trans hkept))

end CrashFuzz.Shim
