import CrashFuzz.Shim.AtPaths

/-!
Open flags (`pending_flags` in `shim/src/shim.c`), which go from an open to its
record through a variable of the thread.

* `opens`, `aboutMarker`, `recordedAs`: which calls set the variable, which print
  no event, and the name of the event. `written_of_returned` is about all
  wrappers at once.
* `Issued`, `records`: the calls of a thread, and their records with the flags
  they carry.
* `Surfaces`, `Leaks`: the flags of an open of the marker file reach the record
  of another call.
* `records_right_iff`: every record carries the right flags exactly when none
  leak. `appended_flags` is a write that carries those of the marker file.
-/

namespace CrashFuzz.Shim

open ErrorVariable PosixPath

namespace Interposed

/-! ### What a call prints -/

/-- The calls that set `pending_flags`. -/
def opens : Call → Bool
  | .open_ _ | .open64 _ | .openat _ _ => true
  | _ => false

/-- The name of the event of a call. -/
def recordedAs : Call → CallName
  | .write _ _ => .write
  | .pwrite _ _ _ | .pwrite64 _ _ _ => .pwrite
  | .writev _ _ => .writev
  | .open_ _ | .open64 _ | .openat _ _ => .open_
  | .fsync _ => .fsync
  | .fdatasync _ => .fdatasync
  | .syncFileRange _ _ _ => .syncFileRange
  | .ftruncate _ _ | .ftruncate64 _ _ => .ftruncate
  | .truncate _ _ | .truncate64 _ _ => .truncate
  | .unlink _ | .unlinkat _ _ => .unlink
  | .mkdir _ | .mkdirat _ _ => .mkdir
  | .link _ _ | .linkat _ _ _ _ => .link
  | .rename _ _ | .renameat _ _ _ _ | .renameat2 _ _ _ _ _ => .rename
  | .close _ => .close

/-- Exactly these are recorded as opens. -/
lemma recordedAs_eq_open_iff (c : Call) : recordedAs c = .open_ ↔ opens c = true := by
  cases c <;> simp [recordedAs, opens]

/-- A descriptor that was returned is remembered as one of the marker file. -/
def opensMarker (real : RealResult) (path : String) : Bool :=
  0 ≤ real.ret ∧ real.ret < maxFd ∧ pathIsMarker path

/-- The call is about the marker file, as the interposer sees it. -/
def aboutMarker (p : Interposed) (own : Own) (real : RealResult) : Call → Bool
  | .write fd _ | .close fd => p.isMarkerFd fd
  | .open_ path | .open64 path => opensMarker real path.shown
  | .openat dirfd path => opensMarker real (resolvedAt own.second dirfd path.shown)
  | _ => false

/-- What a call has printed. -/
def Prints (silent : Bool) (name : CallName) (written : List Reported) : Prop :=
  if silent then written = [] else ∃ r, written = [r] ∧ r.call = name

lemma Prints.eq_nil {silent : Bool} {name : CallName} {written : List Reported}
    (h : Prints silent name written) (hsilent : silent = true) : written = [] := by
  rwa [Prints, if_pos hsilent] at h

lemma Prints.eq_singleton {silent : Bool} {name : CallName} {written : List Reported}
    (h : Prints silent name written) (hsilent : ¬ silent = true) :
    ∃ r, written = [r] ∧ r.call = name := by
  rwa [Prints, if_neg hsilent] at h

section Written

variable {p : Interposed} {own : Own} {real : RealResult} {source dest : Part CPath}
  {P Q : CPath → Prop}

/-- An event is printed, and the wrapper returns. -/
lemma prints_emitEvent (name : CallName) (fd : ℤ) (path path2 : CPath) (offset : ℤ) (length : ℕ)
    (result : ℤ × ℤ) (ret : ℤ) :
    Gives (do
      emitEvent p own name fd path path2 offset length result
      return ret) fun _ written => Prints false name written := by
  refine ((effect_emitEvent name fd path path2 offset length result).bind
    (.pure ret)).gives.mono fun _ written h => ?_
  rw [h.2]
  exact ⟨_, rfl, rfl⟩

lemma gives_capturePayload (data : Buffer) :
    Gives (capturePayload p own data) fun _ written => True ∧ written = [] := by
  by_cases hread : data.readable
  · exact (effect_capturePayload hread).gives.mono fun _ _ h => ⟨trivial, h.2⟩
  · exact (faults_capturePayload hread).gives

lemma gives_writeOffset (ret : ℤ) :
    Gives (writeOffset p own ret) fun _ written => True ∧ written = [] := by
  obtain ⟨offset, sets, heffect, -⟩ := @effect_writeOffset p own ret
  exact heffect.gives.mono fun _ _ h => ⟨trivial, h.2⟩

lemma prints_onDescriptor (name : CallName) (fd offset : ℤ) (length : ℕ) :
    Gives (onDescriptor p own real name fd offset length) fun _ written =>
      Prints false name written :=
  (gives_lookup _ _).seq fun _ _ => gives_issue.seq fun _ _ => prints_emitEvent _ _ _ _ _ _ _ _

lemma prints_positioned (fd : ℤ) (buf : Buffer) (offset : ℤ) :
    Gives (positioned p own real fd buf offset) fun _ written => Prints false .pwrite written :=
  (gives_lookup _ _).seq fun _ _ => gives_issue.seq fun _ _ =>
    (gives_capturePayload buf).seq fun _ _ => prints_emitEvent _ _ _ _ _ _ _ _

/-- A wrapper that returns early where nothing is to be printed. -/
lemma prints_ite {silent : Bool} {name : CallName} {quiet event : Part ℤ} {R : ℤ → Prop}
    (hquiet : silent = true → Gives quiet fun ret written => R ret ∧ written = [])
    (hevent : Gives event fun _ written => Prints false name written) :
    Gives (if silent then quiet else event) fun _ written => Prints silent name written := by
  cases silent with
  | true => exact (hquiet rfl).mono fun _ _ h => h.2
  | false => exact hevent

/-- A marker is no event. -/
lemma prints_write (fd : ℤ) (buf : Buffer) :
    Gives (write p own real fd buf) fun _ written =>
      Prints (p.isMarkerFd fd) .write written := by
  have hemit : Gives (emitMarker p own buf) fun _ written => True ∧ written = [] := by
    rw [emitMarker]
    split
    · exact (gives_lookup p.tidCached own.gettid).seq fun _ _ =>
        (effect_emit p own).gives.mono fun _ _ h => ⟨trivial, h.2⟩
    · exact faults_fault.gives
  exact (gives_lookup _ _).seq fun _ _ => prints_ite
    (fun _ => hemit.seq fun _ _ => gives_call _)
    (gives_issue.seq fun _ _ => (gives_capturePayload buf).seq fun _ _ =>
      (gives_writeOffset _).seq fun _ _ => prints_emitEvent _ _ _ _ _ _ _ _)

lemma prints_writev (fd : ℤ) (iov : Option (List Buffer)) :
    Gives (writev p own real fd iov) fun _ written => Prints false .writev written := by
  refine (gives_lookup _ _).seq fun _ _ => ?_
  cases iov with
  | none => exact faults_fault.gives
  | some buffers =>
      have hprint := fun result : ℤ × ℤ => (@gives_writeOffset p own result.1).seq fun offset _ =>
        @prints_emitEvent p own .writev fd (.text (p.pathFor fd)) .null offset
          (totalLength buffers) result result.1
      by_cases hbad : totalLength buffers ≤ iovStageMax ∧ ¬ Stageable buffers
      · simp only [if_pos hbad]
        exact faults_fault.gives
      · simp only [if_neg hbad]
        refine gives_issue.seq fun result _ => ?_
        by_cases hstaged : totalLength buffers ≤ iovStageMax
        · simp only [if_pos hstaged]
          exact (gives_capturePayload _).seq fun _ _ => hprint result
        · simp only [if_neg hstaged]
          exact hprint result

lemma prints_resolvedBefore (name : CallName) (length : ℕ)
    (hpath : Gives source fun full written => P full ∧ written = []) :
    Gives (resolvedBefore p own real name source length) fun _ written =>
      Prints false name written :=
  (gives_lookup _ _).seq fun _ _ => hpath.seq fun _ _ => gives_issue.seq fun _ _ =>
    prints_emitEvent _ _ _ _ _ _ _ _

lemma prints_resolvedAfter (name : CallName)
    (hpath : Gives source fun full written => P full ∧ written = []) :
    Gives (resolvedAfter p own real name source) fun _ written => Prints false name written :=
  (gives_lookup _ _).seq fun _ _ => gives_issue.seq fun _ _ => hpath.seq fun _ _ =>
    prints_emitEvent _ _ _ _ _ _ _ _

lemma prints_paired (name : CallName) (offset : ℤ)
    (hsource : Gives source fun full written => P full ∧ written = [])
    (hdest : Gives dest fun full written => Q full ∧ written = []) :
    Gives (paired p own real name source dest offset) fun _ written =>
      Prints false name written :=
  (gives_lookup _ _).seq fun _ _ => hsource.seq fun _ _ => gives_issue.seq fun _ _ =>
    hdest.seq fun _ _ => prints_emitEvent _ _ _ _ _ _ _ _

lemma prints_close (fd : ℤ) :
    Gives (close p own real fd) fun _ written => Prints (p.isMarkerFd fd) .close written := by
  exact (gives_lookup _ _).seq fun _ _ => gives_issue.seq fun _ _ =>
    prints_ite (fun _ => gives_pure _) (prints_emitEvent _ _ _ _ _ _ _ _)

/-- Whether the new descriptor is remembered as one of the marker file. -/
lemma gives_rememberPath_isMarkerFd (path : CPath) :
    Gives (rememberPath p own real.ret path) fun p' written =>
      p'.isMarkerFd real.ret = opensMarker real path.shown ∧ written = [] := by
  by_cases hrange : real.ret < 0 ∨ real.ret ≥ maxFd
  · have hremember : rememberPath p own real.ret path = pure p := if_pos hrange
    rw [hremember]
    refine (gives_pure p).mono fun p' written h => ⟨?_, h.2⟩
    have hout : ¬ (0 ≤ real.ret ∧ real.ret < maxFd) := by omega
    rw [isMarkerFd, opensMarker]
    simp only [← and_assoc, hout, false_and]
  · cases path with
    | text s =>
        have hremember : rememberPath p own real.ret (.text s) = _ := if_neg hrange
        rw [hremember]
        refine (gives_call own.remembered).seq fun _ _ => ?_
        refine (gives_pure _).mono fun p' written h => ⟨?_, h.2⟩
        rw [h.1, isMarkerFd, opensMarker]
        simp only [Function.update_self]
        rfl
    | null =>
        have hnull : rememberPath p own real.ret .null = fault := if_neg hrange
        exact hnull ▸ faults_fault.gives
    | bad =>
        have hbad : rememberPath p own real.ret .bad = fault := if_neg hrange
        exact hbad ▸ faults_fault.gives

lemma prints_opened {path : String}
    (hpath : Gives source fun full written => full.shown = path ∧ written = []) :
    Gives (opened p own real source) fun _ written =>
      Prints (opensMarker real path) .open_ written := by
  refine (gives_lookup _ _).seq fun _ _ => gives_issue.seq fun result hresult =>
    hpath.seq fun full hfull => ?_
  subst hresult hfull
  refine (gives_rememberPath_isMarkerFd full).seq fun p' hmarker => ?_
  rw [← hmarker]
  exact prints_ite (fun _ => gives_pure _) (prints_emitEvent _ _ _ _ _ _ _ _)

/-- The path of an `openat`, which is only remembered if it is a string. -/
lemma gives_resolveAt_shown (found : Lookup) (dirfd : ℤ) (path : CPath) :
    Gives (resolveAt found dirfd path) fun full written =>
      full.shown = resolvedAt found dirfd path.shown ∧ written = [] := by
  cases path with
  | text s => exact gives_resolveAt.mono fun full written h => ⟨h.1 ▸ rfl, h.2⟩
  | null | bad => exact faults_fault.gives

/-- **What every wrapper prints**: one event, or none about the marker file. -/
lemma prints_interpose (c : Call) :
    Gives (interpose p own real c) fun _ written =>
      Prints (aboutMarker p own real c) (recordedAs c) written := by
  have hresolve := fun found path => (@reads_resolve found path).gives
  have hresolveAt := fun found dirfd path => (@reads_resolveAt found dirfd path).gives
  cases c with
  | write fd buf => exact prints_write fd buf
  | pwrite fd buf offset | pwrite64 fd buf offset => exact prints_positioned fd buf offset
  | writev fd iov => exact prints_writev fd iov
  | open_ path | open64 path =>
      exact prints_opened ((gives_pure path).mono fun _ _ h => ⟨h.1 ▸ rfl, h.2⟩)
  | openat dirfd path => exact prints_opened (gives_resolveAt_shown _ _ _)
  | fsync | fdatasync | syncFileRange | ftruncate | ftruncate64 =>
      exact prints_onDescriptor _ _ _ _
  | truncate | truncate64 | unlink => exact prints_resolvedBefore _ _ (hresolve _ _)
  | unlinkat => exact prints_resolvedBefore _ _ (hresolveAt _ _ _)
  | mkdir => exact prints_resolvedAfter _ (hresolve _ _)
  | mkdirat => exact prints_resolvedAfter _ (hresolveAt _ _ _)
  | link | rename => exact prints_paired _ _ (hresolve _ _) (hresolve _ _)
  | linkat | renameat | renameat2 =>
      exact prints_paired _ _ (hresolveAt _ _ _) (hresolveAt _ _ _)
  | close fd => exact prints_close fd

end Written

end Interposed

open Interposed

/-! ### The calls of a thread -/

/-- A call that a thread made and that returned to it, with the interposer as
the call found it: other threads open and close files in between. -/
structure Issued where
  interposer : Interposed
  own : Own
  real : RealResult
  call : Interposed.Call
  /-- `flags` of an open; the other calls have none. -/
  flags : Int32
  errno : ℤ
  ret : ℤ
  errnoAfter : ℤ
  written : List Reported
  returned : interpose interposer own real call (errno, []) = some (ret, errnoAfter, written)

/-- A record of the trace with the call it is of, and `flags` in it. -/
structure FlagRecord where
  issued : Issued
  report : Reported
  flags : Int32

/-- An open record has the flags of the call, and any other record none. -/
def FlagRecord.Right (r : FlagRecord) : Prop :=
  r.flags = if r.report.call = .open_ then r.issued.flags else 0

instance : DecidablePred FlagRecord.Right := fun _ => inferInstanceAs (Decidable (_ = _))

namespace Issued

variable (c : Issued)

def Opens : Prop := opens c.call = true

def Silent : Prop := aboutMarker c.interposer c.own c.real c.call = true

/-- There is a trace to write to. -/
def Traced : Prop := 0 ≤ c.interposer.traceFd

instance : DecidablePred Opens := fun c => inferInstanceAs (Decidable (opens c.call = true))

instance : DecidablePred Silent := fun c =>
  inferInstanceAs (Decidable (aboutMarker c.interposer c.own c.real c.call = true))

instance : DecidablePred Traced := fun _ => inferInstanceAs (Decidable (0 ≤ _))

/-- `emit_event`, for each event of the call: it prints `pending_flags` and
clears it. -/
def emitAll (pending : Int32) : List Reported → List FlagRecord × Int32
  | [] => ([], pending)
  | r :: rest =>
      let next := emitAll 0 rest
      ((if c.Traced then [⟨c, r, pending⟩] else []) ++ next.1, next.2)

/-- The records of a call, and `pending_flags` after it. An open sets it once the
real call has returned, before its event. -/
def step (pending : Int32) : List FlagRecord × Int32 :=
  c.emitAll (if c.Opens then c.flags else pending) c.written

/-- The flags of a call that prints nothing stay behind. -/
lemma step_of_silent {c : Issued} (h : c.Silent) (pending : Int32) :
    c.step pending = ([], if c.Opens then c.flags else pending) := by
  obtain ⟨written, hout, hprints⟩ := prints_interpose c.call _ _ _ c.returned
  have hwritten : c.written = [] := hprints.eq_nil h ▸ hout
  rw [step, hwritten, emitAll]

/-- A call that prints an event leaves no flags. -/
lemma step_of_not_silent {c : Issued} (h : ¬ c.Silent) (pending : Int32) :
    ∃ r, (r.call = .open_ ↔ c.Opens) ∧ c.step pending =
      (if c.Traced then [⟨c, r, if c.Opens then c.flags else pending⟩] else [], 0) := by
  obtain ⟨written, hout, hprints⟩ := prints_interpose c.call _ _ _ c.returned
  obtain ⟨r, rfl, hcall⟩ := hprints.eq_singleton h
  have hwritten : c.written = [r] := hout
  refine ⟨r, by rw [hcall, recordedAs_eq_open_iff, Opens], ?_⟩
  rw [step, hwritten, emitAll, emitAll, List.append_nil]

end Issued

/-- The records of the calls of a thread, from `pending_flags` on. -/
def records : Int32 → List Issued → List FlagRecord
  | _, [] => []
  | pending, c :: calls => (c.step pending).1 ++ records (c.step pending).2 calls

/-! ### Flags that leak -/

/-- After writes and closes of the marker file comes a call that prints an event
and opens nothing. -/
def Surfaces (calls : List Issued) : Prop :=
  ∃ quiet c rest, calls = quiet ++ c :: rest ∧ (∀ q ∈ quiet, q.Silent ∧ ¬ q.Opens) ∧
    ¬ c.Silent ∧ ¬ c.Opens ∧ c.Traced

/-- Such a call comes after an open of the marker file that had flags. -/
def Leaks (calls : List Issued) : Prop :=
  ∃ before marker rest, calls = before ++ marker :: rest ∧
    (marker.Opens ∧ marker.Silent ∧ marker.flags ≠ 0) ∧ Surfaces rest

variable {calls : List Issued}

lemma surfaces_cons (c : Issued) (calls : List Issued) :
    Surfaces (c :: calls) ↔
      (c.Silent ∧ ¬ c.Opens ∧ Surfaces calls) ∨ (¬ c.Silent ∧ ¬ c.Opens ∧ c.Traced) := by
  constructor
  · rintro ⟨quiet, d, rest, heq, hquiet, hd⟩
    cases quiet with
    | nil =>
        obtain ⟨rfl, rfl⟩ := List.cons.inj heq
        exact .inr hd
    | cons q quiet =>
        obtain ⟨rfl, rfl⟩ := List.cons.inj heq
        obtain ⟨hsilent, hopens⟩ := hquiet c List.mem_cons_self
        exact .inl ⟨hsilent, hopens, quiet, d, rest, rfl,
          fun x hx => hquiet x (List.mem_cons_of_mem c hx), hd⟩
  · rintro (⟨hsilent, hopens, quiet, d, rest, rfl, hquiet, hd⟩ | hc)
    · refine ⟨c :: quiet, d, rest, rfl, fun x hx => ?_, hd⟩
      rcases List.mem_cons.mp hx with rfl | hx
      · exact ⟨hsilent, hopens⟩
      · exact hquiet x hx
    · exact ⟨[], c, calls, rfl, by simp, hc⟩

lemma leaks_cons (c : Issued) (calls : List Issued) :
    Leaks (c :: calls) ↔
      ((c.Opens ∧ c.Silent ∧ c.flags ≠ 0) ∧ Surfaces calls) ∨ Leaks calls := by
  constructor
  · rintro ⟨before, d, rest, heq, hd, hrest⟩
    cases before with
    | nil =>
        obtain ⟨rfl, rfl⟩ := List.cons.inj heq
        exact .inl ⟨hd, hrest⟩
    | cons b before =>
        obtain ⟨rfl, rfl⟩ := List.cons.inj heq
        exact .inr ⟨before, d, rest, rfl, hd, hrest⟩
  · rintro (⟨hc, hrest⟩ | ⟨before, d, rest, rfl, hd, hrest⟩)
    · exact ⟨[], c, calls, rfl, hc, hrest⟩
    · exact ⟨c :: before, d, rest, rfl, hd, hrest⟩

/-- From any `pending_flags`: nothing surfaces from before, and nothing leaks. -/
lemma records_right_iff_of_pending (pending : Int32) (calls : List Issued) :
    (∀ r ∈ records pending calls, r.Right) ↔
      ¬ (pending ≠ 0 ∧ Surfaces calls) ∧ ¬ Leaks calls := by
  induction calls generalizing pending with
  | nil => simp [records, Surfaces, Leaks]
  | cons c calls ih =>
      rw [records, List.forall_mem_append, ih, surfaces_cons, leaks_cons]
      by_cases hsilent : c.Silent
      · rw [Issued.step_of_silent hsilent]
        by_cases hopens : c.Opens <;> simp [hsilent, hopens]
      · obtain ⟨r, hr, hstep⟩ := Issued.step_of_not_silent hsilent pending
        rw [hstep]
        by_cases hopens : c.Opens
        · by_cases htraced : c.Traced <;>
            simp [hsilent, hopens, htraced, FlagRecord.Right, hr.mpr hopens]
        · have hcall : ¬ r.call = .open_ := fun h => hopens (hr.mp h)
          by_cases htraced : c.Traced <;>
            simp [hsilent, hopens, htraced, FlagRecord.Right, hcall]

/-- **Open records have the flags of their call, and the others have none**, in
the calls of a thread where no flags of the marker file leak. -/
theorem records_right_iff (calls : List Issued) :
    (∀ r ∈ records 0 calls, r.Right) ↔ ¬ Leaks calls := by
  rw [records_right_iff_of_pending]
  simp

/-- `O_WRONLY | O_CREAT | O_APPEND`. -/
def appendFlags : Int32 := 0o1 + 0o100 + 0o2000

/-- The driver opens the marker file, with a data file open already. -/
def openMarker : Issued where
  interposer := writing
  own := quietBut ⟨-1, none⟩
  real := ⟨3, 0⟩
  call := .open_ (.text "/t/crashfuzz.marker")
  flags := appendFlags
  errno := 0
  ret := 3
  errnoAfter := 0
  written := []
  returned := by decide +kernel

/-- Then it writes to the data file. -/
def writeData : Issued where
  interposer := { writing with fdIsMarker := Function.update writing.fdIsMarker 3 true }
  own := quietBut ⟨-1, none⟩
  real := ⟨5, 0⟩
  call := .write 4 ⟨5, true⟩
  flags := 0
  errno := 0
  ret := 5
  errnoAfter := 0
  written := [⟨.write, 4, "/d/a", "", 0, 5, 5, 0⟩]
  returned := by decide +kernel

/-- The write is recorded with the flags of the marker file. -/
theorem appended_flags :
    records 0 [openMarker, writeData] =
        [⟨writeData, ⟨.write, 4, "/d/a", "", 0, 5, 5, 0⟩, appendFlags⟩] ∧
      ¬ ∀ r ∈ records 0 [openMarker, writeData], r.Right := by
  have hrecords : records 0 [openMarker, writeData] =
      [⟨writeData, ⟨.write, 4, "/d/a", "", 0, 5, 5, 0⟩, appendFlags⟩] := rfl
  refine ⟨hrecords, fun h => ?_⟩
  have hright := h _ (hrecords ▸ List.mem_singleton_self _)
  exact absurd hright (by decide)

end CrashFuzz.Shim
