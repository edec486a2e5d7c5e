import CrashFuzz.Lib.Runs
import CrashFuzz.Shim.Capture

/-!
The descriptor table of the interposer when threads open and close at once.

* `Table`: the open files of the kernel, the table, and how far each thread is
  in its call. An `open` is two steps, a `close` is three.
* `Named`, `Closed`: the entry of a descriptor whose `open` returned is that of
  its file; the record of a `close` names the file that was closed.
* `Clean`: what a step must not do while another call on the same descriptor is
  under way.
* `named_of_clean`: both hold in every state of a run of clean steps.
-/

namespace CrashFuzz.Shim

/-- An open file: the argument of its `open` and what `remember_path` resolves
it to. `id` tells two files apart that were opened by the same name. -/
structure OpenFile where
  id : ℕ
  argument : String
  resolved : String
  deriving DecidableEq, Repr

/-- How far a thread is in its call. A `close` that failed closed nothing. -/
inductive Phase where
  | idle
  | opening (fd : ℕ) (file : OpenFile)
  | closing (fd : ℕ) (closed : Option OpenFile)
  | emitted (fd : ℕ) (closed : Option OpenFile)
  deriving DecidableEq, Repr

namespace Phase

/-- The descriptor of an `open` that has not returned. -/
def opens : Phase → Option ℕ
  | .opening fd _ => some fd
  | .idle | .closing _ _ | .emitted _ _ => none

/-- The descriptor of a `close` that is under way. -/
def closes : Phase → Option ℕ
  | .closing fd _ | .emitted fd _ => some fd
  | .idle | .opening _ _ => none

/-- The descriptor of a `close` that closed a file and has yet to read its entry. -/
def reads : Phase → Option ℕ
  | .closing fd (some _) => some fd
  | .idle | .opening _ _ | .closing _ none | .emitted _ _ => none

end Phase

/-- The record of a `close`, with the file that it closed. -/
structure CloseRecord where
  fd : ℕ
  path : String
  closed : Option OpenFile
  deriving DecidableEq, Repr

/-- The descriptors of a process, what the interposer knows of them, and its `n`
threads. -/
structure Table (n : ℕ) where
  /-- The open files of the kernel. -/
  files : ℕ → Option OpenFile
  /-- `fd_paths`. -/
  fdPaths : ℕ → String
  /-- `fd_is_marker`. -/
  fdIsMarker : ℕ → Bool
  threads : Fin n → Phase
  /-- How many files were opened. -/
  opened : ℕ
  records : List CloseRecord

/-- One atomic step of a thread. -/
inductive TableStep (n : ℕ) where
  | open_ (t : Fin n) (fd : ℕ) (argument resolved : String)
  | remember (t : Fin n)
  | close (t : Fin n) (fd : ℕ)
  | emit (t : Fin n)
  | clear (t : Fin n)
  deriving DecidableEq, Repr

namespace Table

variable {n : ℕ} (s : Table n)

/-- A process that inherited some descriptors, of which the table knows nothing. -/
def start (inherited : ℕ → Bool) : Table n where
  files := fun fd => if inherited fd then some ⟨0, "", ""⟩ else none
  fdPaths := fun _ => ""
  fdIsMarker := fun _ => false
  threads := fun _ => .idle
  opened := 0
  records := []

def setThread (t : Fin n) (phase : Phase) : Table n :=
  { s with threads := Function.update s.threads t phase }

/-- The kernel's `open`. -/
def openFile (t : Fin n) (fd : ℕ) (argument resolved : String) : Table n :=
  let file : OpenFile := ⟨s.opened + 1, argument, resolved⟩
  { s.setThread t (.opening fd file) with
    files := Function.update s.files fd (some file)
    opened := s.opened + 1 }

/-- The entry of a descriptor below `MAX_FD` is set. -/
def setEntry (fd : ℕ) (path : String) (isMarker : Bool) : Table n :=
  if fd < maxFd then
    { s with
      fdIsMarker := Function.update s.fdIsMarker fd isMarker
      fdPaths := Function.update s.fdPaths fd path }
  else s

/-- `remember_path`. -/
def remember (t : Fin n) (fd : ℕ) (file : OpenFile) : Table n :=
  (s.setEntry fd file.resolved (pathIsMarker file.argument)).setThread t .idle

/-- The kernel's `close`. -/
def closeFile (t : Fin n) (fd : ℕ) : Table n :=
  { s.setThread t (.closing fd (s.files fd)) with files := Function.update s.files fd none }

/-- `path_for`. -/
def pathFor (fd : ℕ) : String := if fd < maxFd then s.fdPaths fd else ""

/-- `is_marker_fd`. -/
def isMarkerFd (fd : ℕ) : Bool := fd < maxFd && s.fdIsMarker fd

/-- The record of a `close`, unless the descriptor is a marker's. -/
def emitClose (t : Fin n) (fd : ℕ) (closed : Option OpenFile) : Table n :=
  if s.isMarkerFd fd then s.setThread t (.emitted fd closed)
  else { s.setThread t (.emitted fd closed) with
    records := s.records ++ [⟨fd, s.pathFor fd, closed⟩] }

/-- The entry is cleared. -/
def clear (t : Fin n) (fd : ℕ) : Table n := (s.setEntry fd "" false).setThread t .idle

/-- One step; the kernel returns the lowest free descriptor. -/
def step : TableStep n → Option (Table n)
  | .open_ t fd argument resolved =>
      if s.threads t = .idle ∧ s.files fd = none ∧ ∀ fd' < fd, s.files fd' ≠ none then
        some (s.openFile t fd argument resolved)
      else none
  | .remember t =>
      match s.threads t with
      | .opening fd file => some (s.remember t fd file)
      | _ => none
  | .close t fd => if s.threads t = .idle then some (s.closeFile t fd) else none
  | .emit t =>
      match s.threads t with
      | .closing fd closed => some (s.emitClose t fd closed)
      | _ => none
  | .clear t =>
      match s.threads t with
      | .emitted fd _ => some (s.clear t fd)
      | _ => none

/-- The steps of a run. -/
def run (steps : List (TableStep n)) : Option (Table n) := steps.foldlM step s

/-- The entry of a descriptor is that of a file. -/
def Holds (fd : ℕ) (file : OpenFile) : Prop :=
  s.fdPaths fd = file.resolved ∧ s.fdIsMarker fd = pathIsMarker file.resolved

/-- The entry of each descriptor whose `open` has returned is that of its file. -/
def Named : Prop :=
  ∀ fd < maxFd, ∀ file, s.files fd = some file → (∀ t, s.threads t ≠ .opening fd file) →
    s.Holds fd file

/-- The record of each `close` names the file that was closed. -/
def Closed : Prop :=
  ∀ r ∈ s.records, r.fd < maxFd → ∀ file, r.closed = some file → r.path = file.resolved

/-- What a step must not do: an `open` by a name of the marker file that is not
its own, or of another file that is; a table entry made while a `close` of the
descriptor is under way; a `close` of a descriptor whose `open` has not
returned; an entry cleared while another `close` has yet to read it. -/
def Clean : TableStep n → Prop
  | .open_ _ _ argument resolved => pathIsMarker argument = pathIsMarker resolved
  | .remember t => ∀ fd ∈ (s.threads t).opens, ∀ t', (s.threads t').closes ≠ some fd
  | .close _ fd => ∀ t, (s.threads t).opens ≠ some fd
  | .emit _ => True
  | .clear t => ∀ fd ∈ (s.threads t).closes, ∀ t', (s.threads t').reads ≠ some fd

instance : (a : TableStep n) → Decidable (s.Clean a)
  | .open_ _ _ _ _ => inferInstanceAs (Decidable (_ = _))
  | .remember _ | .clear _ => inferInstanceAs (Decidable (∀ fd ∈ (_ : Option ℕ), _))
  | .close _ _ => inferInstanceAs (Decidable (∀ _, _))
  | .emit _ => inferInstanceAs (Decidable True)

/-- Every step of a run is clean. -/
def CleanRun (s : Table n) : List (TableStep n) → Prop
  | [] => True
  | a :: steps => s.Clean a ∧ ∀ m ∈ s.step a, CleanRun m steps

instance : (s : Table n) → (steps : List (TableStep n)) → Decidable (s.CleanRun steps)
  | _, [] => inferInstanceAs (Decidable True)
  | s, a :: steps =>
      have := fun m => instDecidableCleanRun m steps
      inferInstanceAs (Decidable (s.Clean a ∧ ∀ m ∈ s.step a, m.CleanRun steps))

end Table

variable {n : ℕ} {s s' : Table n} {a : TableStep n} {steps : List (TableStep n)}

namespace Table

/-- What one step can do. -/
lemma step_cases (h : s.step a = some s') :
    (∃ t fd argument resolved, a = .open_ t fd argument resolved ∧ s.threads t = .idle ∧
      s.files fd = none ∧ s' = s.openFile t fd argument resolved) ∨
    (∃ t fd file, a = .remember t ∧ s.threads t = .opening fd file ∧
      s' = s.remember t fd file) ∨
    (∃ t fd, a = .close t fd ∧ s.threads t = .idle ∧ s' = s.closeFile t fd) ∨
    (∃ t fd closed, a = .emit t ∧ s.threads t = .closing fd closed ∧
      s' = s.emitClose t fd closed) ∨
    (∃ t fd closed, a = .clear t ∧ s.threads t = .emitted fd closed ∧ s' = s.clear t fd) := by
  cases a with
  | open_ t fd argument resolved =>
      rw [step] at h
      split at h
      · next hguard =>
          exact .inl ⟨t, fd, argument, resolved, rfl, hguard.1, hguard.2.1,
            (Option.some.inj h).symm⟩
      · cases h
  | remember t =>
      rw [step] at h
      split at h
      · next fd file ht => exact .inr (.inl ⟨t, fd, file, rfl, ht, (Option.some.inj h).symm⟩)
      · cases h
  | close t fd =>
      rw [step] at h
      split at h
      · next ht => exact .inr (.inr (.inl ⟨t, fd, rfl, ht, (Option.some.inj h).symm⟩))
      · cases h
  | emit t =>
      rw [step] at h
      split at h
      · next fd closed ht =>
          exact .inr (.inr (.inr (.inl ⟨t, fd, closed, rfl, ht, (Option.some.inj h).symm⟩)))
      · cases h
  | clear t =>
      rw [step] at h
      split at h
      · next fd closed ht =>
          exact .inr (.inr (.inr (.inr ⟨t, fd, closed, rfl, ht, (Option.some.inj h).symm⟩)))
      · cases h

/-! ### The invariant of clean runs -/

/-- The table follows the kernel. -/
structure Follows (s : Table n) : Prop where
  /-- The name of an open file tells whether it is the marker's. -/
  marker : ∀ fd file, s.files fd = some file →
    pathIsMarker file.argument = pathIsMarker file.resolved
  /-- A file that is being opened is open. -/
  opening : ∀ t fd file, s.threads t = .opening fd file → s.files fd = some file
  named : s.Named
  /-- No `close` is under way on a descriptor whose `open` has returned. -/
  settled : ∀ fd file, s.files fd = some file → (∀ t, s.threads t ≠ .opening fd file) →
    ∀ t, (s.threads t).closes ≠ some fd
  /-- The entry of a file is there until its `close` has read it. -/
  closing : ∀ t, ∀ fd < maxFd, ∀ file, s.threads t = .closing fd (some file) → s.Holds fd file
  closed : s.Closed

lemma start_eq {inherited : ℕ → Bool} {fd : ℕ} {file : OpenFile}
    (h : (start inherited : Table n).files fd = some file) : file = ⟨0, "", ""⟩ := by
  have hfiles : (if inherited fd then some (⟨0, "", ""⟩ : OpenFile) else none) = some file := h
  split at hfiles
  · exact (Option.some.inj hfiles).symm
  · cases hfiles

lemma follows_start (inherited : ℕ → Bool) : Follows (start inherited : Table n) where
  marker fd file h := by rw [start_eq h]
  opening _ _ _ h := by cases h
  named fd _ file h _ := by
    rw [start_eq h]
    exact ⟨rfl, (by decide : pathIsMarker "" = false).symm⟩
  settled _ _ _ _ _ := nofun
  closing _ _ _ _ h := by cases h
  closed _ h := absurd h List.not_mem_nil

variable {t : Fin n} {fd fd' : ℕ} {file : OpenFile} {closed : Option OpenFile} {phase : Phase}
  {argument resolved : String}

@[simp] lemma threads_setThread : (s.setThread t phase).threads =
    Function.update s.threads t phase := rfl

@[simp] lemma threads_setEntry {path : String} {isMarker : Bool} :
    (s.setEntry fd path isMarker).threads = s.threads := by
  rw [setEntry]
  split <;> rfl

@[simp] lemma files_setEntry {path : String} {isMarker : Bool} :
    (s.setEntry fd path isMarker).files = s.files := by
  rw [setEntry]
  split <;> rfl

@[simp] lemma records_setEntry {path : String} {isMarker : Bool} :
    (s.setEntry fd path isMarker).records = s.records := by
  rw [setEntry]
  split <;> rfl

/-- The entries of other descriptors stay. -/
lemma holds_setEntry_of_ne {path : String} {isMarker : Bool} (h : fd ≠ fd') :
    (s.setEntry fd' path isMarker).Holds fd file ↔ s.Holds fd file := by
  by_cases hfd : fd' < maxFd
  · simp [setEntry, hfd, Holds, Function.update_of_ne h]
  · rw [setEntry, if_neg hfd]

lemma holds_setEntry_self (hfd : fd < maxFd)
    (hmarker : pathIsMarker argument = pathIsMarker file.resolved) :
    (s.setEntry fd file.resolved (pathIsMarker argument)).Holds fd file := by
  simp [setEntry, hfd, Holds, hmarker]

/-- What holds of every thread holds after the phase of one of them changed, if
it holds of its new phase. -/
lemma forall_update {P : Phase → Prop} (hthreads : s'.threads = Function.update s.threads t phase)
    (hphase : P phase) (h : ∀ t', P (s.threads t')) (t' : Fin n) : P (s'.threads t') := by
  rw [hthreads]
  by_cases heq : t' = t
  · rw [heq, Function.update_self]
    exact hphase
  · rw [Function.update_of_ne heq]
    exact h t'

/-- A descriptor that no thread is opening was not opened by the one that moved on. -/
lemma not_opening (hthreads : s'.threads = Function.update s.threads t phase)
    (ht : s.threads t ≠ .opening fd file) (hne : ∀ t', s'.threads t' ≠ .opening fd file)
    (t' : Fin n) : s.threads t' ≠ .opening fd file := by
  intro h
  by_cases heq : t' = t
  · exact ht (heq ▸ h)
  · refine hne t' ?_
    rw [hthreads, Function.update_of_ne heq, h]

namespace Follows

/-- A thread that opens nothing moved on, and the files stayed. -/
lemma opening_of_update (h : Follows s) (hthreads : s'.threads = Function.update s.threads t phase)
    (hfiles : s'.files = s.files) (hphase : phase.opens = none) :
    ∀ t fd file, s'.threads t = .opening fd file → s'.files fd = some file := by
  rw [hfiles]
  refine forall_update (P := fun q => ∀ fd file, q = .opening fd file → s.files fd = some file)
    hthreads (fun fd file heq => ?_) h.opening
  rw [heq] at hphase
  cases hphase

lemma openFile (h : Follows s) (ht : s.threads t = .idle) (hfree : s.files fd = none)
    (hmarker : pathIsMarker argument = pathIsMarker resolved) :
    Follows (s.openFile t fd argument resolved) := by
  have hthreads : (s.openFile t fd argument resolved).threads =
      Function.update s.threads t (.opening fd ⟨s.opened + 1, argument, resolved⟩) := rfl
  have hself : (s.openFile t fd argument resolved).files fd =
      some ⟨s.opened + 1, argument, resolved⟩ := Function.update_self _ _ _
  have hother : ∀ fd' ≠ fd, (s.openFile t fd argument resolved).files fd' = s.files fd' :=
    fun fd' hne => Function.update_of_ne hne _ _
  -- the file that is being opened is the one whose open has not returned
  have hold : ∀ fd' file, (s.openFile t fd argument resolved).files fd' = some file →
      (∀ t', (s.openFile t fd argument resolved).threads t' ≠ .opening fd' file) →
      s.files fd' = some file ∧ ∀ t', s.threads t' ≠ .opening fd' file := by
    intro fd' file hfile hreturned
    have hne : fd' ≠ fd := by
      rintro rfl
      rw [hself] at hfile
      cases hfile
      exact hreturned t (Function.update_self _ _ _)
    exact ⟨hother fd' hne ▸ hfile, not_opening hthreads (by rw [ht]; exact nofun) hreturned⟩
  refine ⟨fun fd' file hfile => ?_, ?_, fun fd' hfd file hfile hreturned => ?_,
    fun fd' file hfile hreturned => ?_, ?_, h.closed⟩
  · by_cases hne : fd' = fd
    · rw [hne, hself] at hfile
      cases hfile
      exact hmarker
    · exact h.marker fd' file (hother fd' hne ▸ hfile)
  · refine forall_update (P := fun q => ∀ fd' file, q = .opening fd' file →
      (s.openFile t fd argument resolved).files fd' = some file) hthreads
      (fun fd' file heq => ?_) fun t' fd' file ht' => ?_
    · cases heq
      exact hself
    · have hfile := h.opening t' fd' file ht'
      have hne : fd' ≠ fd := by
        rintro rfl
        rw [hfree] at hfile
        cases hfile
      rw [hother fd' hne]
      exact hfile
  · obtain ⟨hfile', hreturned'⟩ := hold fd' file hfile hreturned
    exact h.named fd' hfd file hfile' hreturned'
  · obtain ⟨hfile', hreturned'⟩ := hold fd' file hfile hreturned
    exact forall_update (P := fun q => q.closes ≠ some fd') hthreads nofun
      (h.settled fd' file hfile' hreturned')
  · exact forall_update (P := fun q => ∀ fd' < maxFd, ∀ file, q = .closing fd' (some file) →
      s.Holds fd' file) hthreads (fun _ _ _ => nofun) h.closing

lemma remember (h : Follows s) (ht : s.threads t = .opening fd file)
    (hclean : ∀ t', (s.threads t').closes ≠ some fd) : Follows (s.remember t fd file) := by
  have hthreads : (s.remember t fd file).threads = Function.update s.threads t .idle := by
    rw [Table.remember, threads_setThread, threads_setEntry]
  have hfiles : (s.remember t fd file).files = s.files := files_setEntry
  have hrecords : (s.remember t fd file).records = s.records := records_setEntry
  have hfile := h.opening t fd file ht
  have hreturned : ∀ fd' ≠ fd, ∀ file',
      (∀ t', (s.remember t fd file).threads t' ≠ .opening fd' file') →
        ∀ t', s.threads t' ≠ .opening fd' file' := by
    intro fd' hne file'
    refine not_opening hthreads ?_
    rw [ht]
    exact fun heq => hne (Phase.opening.inj heq).1.symm
  refine ⟨fun fd' file' hf => h.marker fd' file' (hfiles ▸ hf),
    h.opening_of_update hthreads hfiles rfl, fun fd' hfd file' hf hret => ?_,
    fun fd' file' hf hret => ?_, ?_, fun r hr => h.closed r (hrecords ▸ hr)⟩
  · rw [hfiles] at hf
    by_cases hne : fd' = fd
    · obtain rfl : file = file' := by
        rw [hne, hfile] at hf
        exact Option.some.inj hf
      rw [hne] at hfd ⊢
      exact holds_setEntry_self hfd (h.marker fd file hfile)
    · exact (holds_setEntry_of_ne hne).mpr (h.named fd' hfd file' hf (hreturned fd' hne file' hret))
  · rw [hfiles] at hf
    refine forall_update (P := fun q => q.closes ≠ some fd') hthreads nofun fun t' => ?_
    by_cases hne : fd' = fd
    · rw [hne]
      exact hclean t'
    · exact h.settled fd' file' hf (hreturned fd' hne file' hret) t'
  · refine forall_update (P := fun q => ∀ fd' < maxFd, ∀ file', q = .closing fd' (some file') →
      (s.remember t fd file).Holds fd' file') hthreads (fun _ _ _ => nofun)
      fun t' fd' hfd file' ht' => ?_
    have hne : fd' ≠ fd := by
      rintro rfl
      exact hclean t' (by rw [ht']; rfl)
    exact (holds_setEntry_of_ne hne).mpr (h.closing t' fd' hfd file' ht')

lemma closeFile (h : Follows s) (ht : s.threads t = .idle)
    (hclean : ∀ t', (s.threads t').opens ≠ some fd) : Follows (s.closeFile t fd) := by
  have hthreads : (s.closeFile t fd).threads =
      Function.update s.threads t (.closing fd (s.files fd)) := rfl
  have hself : (s.closeFile t fd).files fd = none := Function.update_self _ _ _
  have hother : ∀ fd' ≠ fd, (s.closeFile t fd).files fd' = s.files fd' :=
    fun fd' hne => Function.update_of_ne hne _ _
  have hold : ∀ fd' file, (s.closeFile t fd).files fd' = some file →
      fd' ≠ fd ∧ s.files fd' = some file := by
    intro fd' file hf
    have hne : fd' ≠ fd := by
      rintro rfl
      rw [hself] at hf
      cases hf
    exact ⟨hne, hother fd' hne ▸ hf⟩
  have hreturned : ∀ fd' file', (∀ t', (s.closeFile t fd).threads t' ≠ .opening fd' file') →
      ∀ t', s.threads t' ≠ .opening fd' file' :=
    fun fd' file' => not_opening hthreads (by rw [ht]; exact nofun)
  refine ⟨fun fd' file' hf => h.marker fd' file' (hold fd' file' hf).2, ?_,
    fun fd' hfd file' hf hret => ?_, fun fd' file' hf hret => ?_, ?_, h.closed⟩
  · refine forall_update (P := fun q => ∀ fd' file', q = .opening fd' file' →
      (s.closeFile t fd).files fd' = some file') hthreads (fun _ _ => nofun)
      fun t' fd' file' ht' => ?_
    have hne : fd' ≠ fd := by
      rintro rfl
      exact hclean t' (by rw [ht']; rfl)
    rw [hother fd' hne]
    exact h.opening t' fd' file' ht'
  · exact h.named fd' hfd file' (hold fd' file' hf).2 (hreturned fd' file' hret)
  · obtain ⟨hne, hf'⟩ := hold fd' file' hf
    refine forall_update (P := fun q => q.closes ≠ some fd') hthreads (fun heq => ?_)
      (h.settled fd' file' hf' (hreturned fd' file' hret))
    exact hne (Option.some.inj heq).symm
  · refine forall_update (P := fun q => ∀ fd' < maxFd, ∀ file', q = .closing fd' (some file') →
      s.Holds fd' file') hthreads (fun fd' hfd file' heq => ?_) h.closing
    -- the file had an open that returned, so its entry is there
    obtain ⟨rfl, hf⟩ := Phase.closing.inj heq
    exact h.named fd hfd file' hf fun t' ht' => hclean t' (by rw [ht']; rfl)

lemma emitClose (h : Follows s) (ht : s.threads t = .closing fd closed) :
    Follows (s.emitClose t fd closed) := by
  have hthreads : (s.emitClose t fd closed).threads =
      Function.update s.threads t (.emitted fd closed) := by
    rw [Table.emitClose]
    split <;> rfl
  have hfiles : (s.emitClose t fd closed).files = s.files := by
    rw [Table.emitClose]
    split <;> rfl
  have hholds : ∀ {fd' file'}, (s.emitClose t fd closed).Holds fd' file' ↔ s.Holds fd' file' := by
    intro fd' file'
    rw [Table.emitClose]
    split <;> rfl
  have hreturned : ∀ fd' file', (∀ t', (s.emitClose t fd closed).threads t' ≠ .opening fd' file') →
      ∀ t', s.threads t' ≠ .opening fd' file' :=
    fun fd' file' => not_opening hthreads (by rw [ht]; exact nofun)
  refine ⟨fun fd' file' hf => h.marker fd' file' (hfiles ▸ hf),
    h.opening_of_update hthreads hfiles rfl, fun fd' hfd file' hf hret => ?_,
    fun fd' file' hf hret => ?_, ?_, fun r hr => ?_⟩
  · rw [hfiles] at hf
    exact hholds.mpr (h.named fd' hfd file' hf (hreturned fd' file' hret))
  · rw [hfiles] at hf
    have hsettled := h.settled fd' file' hf (hreturned fd' file' hret)
    refine forall_update (P := fun q => q.closes ≠ some fd') hthreads (fun heq => ?_) hsettled
    exact hsettled t (by rw [ht]; exact heq)
  · refine forall_update (P := fun q => ∀ fd' < maxFd, ∀ file', q = .closing fd' (some file') →
      (s.emitClose t fd closed).Holds fd' file') hthreads (fun _ _ _ => nofun)
      fun t' fd' hfd file' ht' => ?_
    exact hholds.mpr (h.closing t' fd' hfd file' ht')
  · rw [Table.emitClose] at hr
    split at hr
    · exact h.closed r hr
    · rcases List.mem_append.mp hr with hr | hr
      · exact h.closed r hr
      · -- the new record: the entry is still that of the file
        obtain rfl := List.mem_singleton.mp hr
        intro hfd file' hclosed
        have hclosing : s.threads t = .closing fd (some file') := by
          rw [ht]
          exact congrArg (Phase.closing fd) hclosed
        have hlt : fd < maxFd := hfd
        calc s.pathFor fd = s.fdPaths fd := if_pos hlt
          _ = file'.resolved := (h.closing t fd hlt file' hclosing).1

lemma clear (h : Follows s) (ht : s.threads t = .emitted fd closed)
    (hclean : ∀ t', (s.threads t').reads ≠ some fd) : Follows (s.clear t fd) := by
  have hthreads : (s.clear t fd).threads = Function.update s.threads t .idle := by
    rw [Table.clear, threads_setThread, threads_setEntry]
  have hfiles : (s.clear t fd).files = s.files := files_setEntry
  have hrecords : (s.clear t fd).records = s.records := records_setEntry
  have hreturned : ∀ fd' file', (∀ t', (s.clear t fd).threads t' ≠ .opening fd' file') →
      ∀ t', s.threads t' ≠ .opening fd' file' :=
    fun fd' file' => not_opening hthreads (by rw [ht]; exact nofun)
  refine ⟨fun fd' file' hf => h.marker fd' file' (hfiles ▸ hf),
    h.opening_of_update hthreads hfiles rfl, fun fd' hfd file' hf hret => ?_,
    fun fd' file' hf hret => ?_, ?_, fun r hr => h.closed r (hrecords ▸ hr)⟩
  · rw [hfiles] at hf
    have hret' := hreturned fd' file' hret
    have hne : fd' ≠ fd := by
      rintro rfl
      exact h.settled fd' file' hf hret' t (by rw [ht]; rfl)
    exact (holds_setEntry_of_ne hne).mpr (h.named fd' hfd file' hf hret')
  · rw [hfiles] at hf
    exact forall_update (P := fun q => q.closes ≠ some fd') hthreads nofun
      (h.settled fd' file' hf (hreturned fd' file' hret))
  · refine forall_update (P := fun q => ∀ fd' < maxFd, ∀ file', q = .closing fd' (some file') →
      (s.clear t fd).Holds fd' file') hthreads (fun _ _ _ => nofun) fun t' fd' hfd file' ht' => ?_
    have hne : fd' ≠ fd := by
      rintro rfl
      exact hclean t' (by rw [ht']; rfl)
    exact (holds_setEntry_of_ne hne).mpr (h.closing t' fd' hfd file' ht')

/-- One clean step. -/
lemma step (h : Follows s) (hclean : s.Clean a) (hstep : s.step a = some s') : Follows s' := by
  obtain ⟨t, fd, argument, resolved, rfl, ht, hfree, rfl⟩ | ⟨t, fd, file, rfl, ht, rfl⟩ |
    ⟨t, fd, rfl, ht, rfl⟩ | ⟨t, fd, closed, rfl, ht, rfl⟩ | ⟨t, fd, closed, rfl, ht, rfl⟩ :=
      step_cases hstep
  · exact h.openFile ht hfree hclean
  · exact h.remember ht (hclean fd (by rw [ht]; rfl))
  · exact h.closeFile ht hclean
  · exact h.emitClose ht
  · exact h.clear ht (hclean fd (by rw [ht]; rfl))

lemma run (h : Follows s) (hclean : s.CleanRun steps) (hrun : s.run steps = some s') :
    Follows s' := by
  refine Runs.induct CleanRun (fun s a steps m h hclean hm => ?_) h hclean hrun
  exact ⟨h.step hclean.1 hm, hclean.2 m hm⟩

end Follows

/-- **The table names the right file** in every state of a run of clean steps. -/
theorem named_of_clean (inherited : ℕ → Bool) (hclean : (start inherited).CleanRun steps)
    (hrun : (start inherited).run steps = some s) : s.Named ∧ s.Closed :=
  have h := (follows_start inherited).run hclean hrun
  ⟨h.named, h.closed⟩

/-- The standard descriptors. -/
def standard (fd : ℕ) : Bool := fd < 3

/-- A descriptor is closed before another thread opens a file on its number. -/
def reopened : List (TableStep 2) :=
  [.open_ 0 3 "/db/a" "/db/a", .remember 0, .close 0 3, .emit 0, .clear 0,
    .open_ 1 3 "/db/b" "/db/b", .remember 1]

/-- Another thread opens a file on the number that the kernel has just freed. -/
def reused : List (TableStep 2) :=
  [.open_ 0 3 "/db/a" "/db/a", .remember 0, .close 0 3, .open_ 1 3 "/db/b" "/db/b", .remember 1,
    .emit 0, .clear 0]

def after (steps : List (TableStep 2)) : Table 2 :=
  ((start standard).run steps).getD (start standard)

lemma run_after {steps : List (TableStep 2)}
    (h : ((start standard : Table 2).run steps).isSome = true) :
    (start standard).run steps = some (after steps) := by
  obtain ⟨s, hs⟩ := Option.isSome_iff_exists.mp h
  rw [after, hs]
  rfl

/-- The entry and the record are right. -/
theorem reopened_named : (after reopened).Named ∧ (after reopened).Closed :=
  named_of_clean standard (by decide +kernel : (start standard).CleanRun reopened)
    (run_after (by decide +kernel))

/-- The first file is recorded as closed under the name of the second one, and
the descriptor of the second one has lost its name. -/
theorem reused_forgotten :
    (start standard).run reused = some (after reused) ∧
      (after reused).files 3 = some ⟨2, "/db/b", "/db/b"⟩ ∧ (after reused).fdPaths 3 = "" ∧
      (after reused).records = [⟨3, "/db/b", some ⟨1, "/db/a", "/db/a"⟩⟩] ∧
      ¬ (after reused).Named ∧ ¬ (after reused).Closed := by
  have hfile : (after reused).files 3 = some ⟨2, "/db/b", "/db/b"⟩ := by decide +kernel
  have hpath : (after reused).fdPaths 3 = "" := by decide +kernel
  have hrecords : (after reused).records = [⟨3, "/db/b", some ⟨1, "/db/a", "/db/a"⟩⟩] := by
    decide +kernel
  have hidle : ∀ t, (after reused).threads t = .idle := by decide +kernel
  refine ⟨run_after (by decide +kernel), hfile, hpath, hrecords, fun hnamed => ?_,
    fun hclosed => ?_⟩
  · have hheld := (hnamed 3 (by decide) _ hfile fun t => by rw [hidle]; exact nofun).1
    rw [hpath] at hheld
    revert hheld
    decide
  · have hnames := hclosed ⟨3, "/db/b", some ⟨1, "/db/a", "/db/a"⟩⟩
      (by rw [hrecords]; exact List.mem_singleton_self _) (by decide) _ rfl
    revert hnames
    decide

end Table

end CrashFuzz.Shim
