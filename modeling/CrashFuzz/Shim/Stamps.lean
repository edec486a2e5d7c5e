import CrashFuzz.Lib.FileTree
import CrashFuzz.Lib.Ledger
import CrashFuzz.Lib.Runs
import CrashFuzz.Shim.TraceText

/-!
Stamps and trace segments of a tree of processes (`shim/src/shim.c`).

* `World`: process images with their threads, the counters they stamp from, and
  the segments they write to through open descriptions that forks share.
* `World.step`: what a thread or the system does next. A fork shares the counter
  page and the segment; an `exec` runs the constructor again. The calls that are
  traced are about files other than the segments.
* `TotallyOrdered`: what is promised of the records of a run.
* `Meets`: a stamp is taken from a counter that has counted all of them, a
  record goes to the end of its segment, and a constructor truncates a segment
  without records.
* `Inv`: the stamps of a run that meets this are numbers of a `Ledger`
  (`Inv.step`), and in order (`run_totallyOrdered`).
* `Forking.meetsAll`: a run without a preloaded `exec` meets this, if there is a
  page for the counter.
* `stamp_lt_taken`, `construct_loses`: otherwise a stamp is one that was taken
  before, and a segment loses its records.
-/

namespace CrashFuzz.Shim

open FileTree.Volume (splice splice_length)

/-- What a thread is doing, with the stamps it has taken for it. -/
inductive Thread where
  | idle
  | submitted (i : ℕ)
  | completed (i j : ℕ)
  | marked (i : ℕ)
  deriving DecidableEq, Repr

/-- A process image. -/
structure Image where
  /-- `trace_fd`, as the open description it refers to. -/
  traceFd : Option ℕ
  /-- The counter `next_stamp` adds to. -/
  counter : ℕ
  /-- The counter is in a page that forks share. -/
  shared : Bool
  threads : ℕ → Thread

/-- An open description of a segment. -/
structure Description where
  file : ℕ
  position : ℕ

/-- A record, where it went, and the bytes that were written. -/
structure Emission where
  file : ℕ
  position : ℕ
  line : Line
  bytes : List UInt8

/-- What the threads of traced images see of the order of calls. -/
inductive Happening where
  | issued (i : ℕ)
  | returned (i j : ℕ)
  deriving DecidableEq, Repr

/-- The processes of a run, what they share, and what happened so far. -/
structure World where
  images : ℕ → Option Image
  counters : ℕ → ℕ
  nextCounter : ℕ
  descriptions : ℕ → Description
  nextDescription : ℕ
  /-- `trace-<pid>.jsonl`. -/
  files : ℕ → List UInt8
  /-- How many stamps traced images took. -/
  taken : ℕ
  emitted : List Emission
  happened : List Happening

/-- How the constructor of an image ends: without a trace, or with one, and with
a counter page or without. -/
inductive Start where
  | untraced
  | traced (mapped : Bool)
  deriving DecidableEq, Repr

/-- What happens next. -/
inductive Step where
  /-- A thread issues a call that is traced. -/
  | submit (pid tid : ℕ)
  /-- The call returned to the interposer. -/
  | finish (pid tid : ℕ)
  /-- It is recorded and returns to the thread. -/
  | record (pid tid : ℕ) (event : TraceEvent) (flags time : ℕ) (behind : List UInt8)
      (accepted : ℕ)
  /-- It was about the marker file and is not recorded. -/
  | pass (pid tid : ℕ)
  /-- A thread writes a marker. -/
  | mark (pid tid : ℕ)
  | recordMarker (pid tid : ℕ) (text : String) (behind : List UInt8) (accepted : ℕ)
  | fork (pid child : ℕ)
  | exec (pid : ℕ) (start : Start)
  | exit (pid : ℕ)

/-- The bytes of a record, with the end of its line. -/
def lineBytes (line : Line) : List UInt8 := (line.text ++ "\n").toUTF8.toList

/-- What is written of a record: its line, or, where that does not fit, the full
buffer and the bytes behind it. -/
def printed (line : Line) (behind : List UInt8) : List UInt8 :=
  if line.size < recordMax then lineBytes line
  else (lineBytes line).take (recordMax - 1) ++ 0 :: behind.take (line.size - recordMax)

/-- The stamps of a record. -/
def Emission.stamps (e : Emission) : List ℕ :=
  match e.line.record with
  | .event event => [event.index, event.completionIndex]
  | .marker m => [m.index]
  | _ => []

/-- The stamps a thread has taken and not recorded. -/
def Thread.stamps : Thread → List ℕ
  | .idle => []
  | .submitted i => [i]
  | .completed i j => [i, j]
  | .marked i => [i]

namespace World

variable (w : World)

def setImage (pid : ℕ) (image : Option Image) : World :=
  { w with images := Function.update w.images pid image }

def setThread (pid : ℕ) (image : Image) (tid : ℕ) (thread : Thread) : World :=
  w.setImage pid (some { image with threads := Function.update image.threads tid thread })

/-- The stamp `next_stamp` returns. -/
def stamp (image : Image) : ℕ := w.counters image.counter

/-- `next_stamp`. -/
def nextStamp (image : Image) : World :=
  { w with
    counters := Function.update w.counters image.counter
      ((w.counters image.counter + 1) % 2 ^ 64)
    taken := if image.traceFd.isSome then w.taken + 1 else w.taken }

/-- What happens in an image without a trace is not recorded anywhere. -/
def happen (image : Image) (happening : Happening) : World :=
  { w with
    happened := if image.traceFd.isSome then w.happened ++ [happening] else w.happened }

/-- `emit`, with a write that accepts so many bytes. It is not tried again. -/
def emit (image : Image) (line : Line) (behind : List UInt8) (accepted : ℕ) : World :=
  match image.traceFd with
  | none => w
  | some d =>
      let bytes := (printed line behind).take accepted
      let segment := w.descriptions d
      { w with
        files := Function.update w.files segment.file
          (splice (w.files segment.file) segment.position bytes)
        descriptions := Function.update w.descriptions d
          { segment with position := segment.position + bytes.length }
        emitted := w.emitted ++ [⟨segment.file, segment.position, line, bytes⟩] }

/-- `trace_open`, in a new image of a process. -/
def construct (pid : ℕ) : Start → World
  | .untraced =>
      { w with
        images := Function.update w.images pid (some ⟨none, w.nextCounter, false, fun _ => .idle⟩)
        counters := Function.update w.counters w.nextCounter 0
        nextCounter := w.nextCounter + 1 }
  | .traced mapped =>
      let header := lineBytes ⟨.header ⟨traceVersion, pid⟩, 0, 0⟩
      { w with
        images := Function.update w.images pid
          (some ⟨some w.nextDescription, w.nextCounter, mapped, fun _ => .idle⟩)
        counters := Function.update w.counters w.nextCounter 0
        nextCounter := w.nextCounter + 1
        descriptions := Function.update w.descriptions w.nextDescription ⟨pid, header.length⟩
        nextDescription := w.nextDescription + 1
        files := Function.update w.files pid header }

/-- A preloaded process right after its constructor. -/
def start (pid : ℕ) (mapped : Bool) : World :=
  construct
    { images := fun _ => none
      counters := fun _ => 0
      nextCounter := 0
      descriptions := fun _ => ⟨0, 0⟩
      nextDescription := 0
      files := fun _ => []
      taken := 0
      emitted := []
      happened := [] } pid (.traced mapped)

/-- The child of a fork has one thread. It shares a counter page, and has a copy
of the counter of the image otherwise. -/
def forked (image : Image) (child : ℕ) : World :=
  if image.shared then w.setImage child (some { image with threads := fun _ => .idle })
  else
    { w.setImage child (some { image with
        threads := fun _ => .idle
        counter := w.nextCounter }) with
      counters := Function.update w.counters w.nextCounter (w.counters image.counter)
      nextCounter := w.nextCounter + 1 }

/-- The next world, none if the step cannot be taken. -/
def step : Step → Option World
  | .submit pid tid => do
      let image ← w.images pid
      match image.threads tid with
      | .idle =>
          let i := w.stamp image
          return ((w.nextStamp image).setThread pid image tid (.submitted i)).happen image
            (.issued i)
      | _ => none
  | .finish pid tid => do
      let image ← w.images pid
      match image.threads tid with
      | .submitted i =>
          return (w.nextStamp image).setThread pid image tid (.completed i (w.stamp image))
      | _ => none
  | .record pid tid event flags time behind accepted => do
      let image ← w.images pid
      match image.threads tid with
      | .completed i j =>
          let line : Line :=
            ⟨.event { event with index := i, completionIndex := j, threadId := tid }, flags, time⟩
          return ((w.emit image line behind accepted).setThread pid image tid .idle).happen image
            (.returned i j)
      | _ => none
  | .pass pid tid => do
      let image ← w.images pid
      match image.threads tid with
      | .submitted _ => return w.setThread pid image tid .idle
      | _ => none
  | .mark pid tid => do
      let image ← w.images pid
      match image.threads tid with
      | .idle =>
          let i := w.stamp image
          return ((w.nextStamp image).setThread pid image tid (.marked i)).happen image
            (.issued i)
      | _ => none
  | .recordMarker pid tid text behind accepted => do
      let image ← w.images pid
      match image.threads tid with
      | .marked i =>
          let line : Line := ⟨.marker ⟨i, tid, text⟩, 0, 0⟩
          return (w.emit image line behind accepted).setThread pid image tid .idle
      | _ => none
  | .fork pid child => do
      let image ← w.images pid
      if (w.images child).isSome then none
      else return w.forked image child
  | .exec pid start => do
      let _ ← w.images pid
      return w.construct pid start
  | .exit pid => do
      let _ ← w.images pid
      return w.setImage pid none

/-- Steps one after the other. -/
def run (w : World) : List Step → Option World
  | [] => some w
  | s :: steps => do
      let w' ← w.step s
      run w' steps

lemma run_eq_foldlM (w : World) (steps : List Step) :
    w.run steps = steps.foldlM World.step w := by
  induction steps generalizing w with
  | nil => rfl
  | cons s steps ih =>
      rw [List.foldlM_cons, run]
      exact congrArg (w.step s >>= ·) (funext ih)

/-- What a step does, and when it can be taken. -/
inductive Takes (w : World) : Step → World → Prop
  | submit {pid tid image} (himage : w.images pid = some image)
      (hidle : image.threads tid = .idle) :
      Takes w (.submit pid tid)
        (((w.nextStamp image).setThread pid image tid (.submitted (w.stamp image))).happen image
          (.issued (w.stamp image)))
  | finish {pid tid image i} (himage : w.images pid = some image)
      (hsubmitted : image.threads tid = .submitted i) :
      Takes w (.finish pid tid)
        ((w.nextStamp image).setThread pid image tid (.completed i (w.stamp image)))
  | record {pid tid image i j event flags time behind accepted}
      (himage : w.images pid = some image) (hcompleted : image.threads tid = .completed i j) :
      Takes w (.record pid tid event flags time behind accepted)
        (((w.emit image ⟨.event { event with index := i, completionIndex := j, threadId := tid },
          flags, time⟩ behind accepted).setThread pid image tid .idle).happen image
            (.returned i j))
  | pass {pid tid image i} (himage : w.images pid = some image)
      (hsubmitted : image.threads tid = .submitted i) :
      Takes w (.pass pid tid) (w.setThread pid image tid .idle)
  | mark {pid tid image} (himage : w.images pid = some image)
      (hidle : image.threads tid = .idle) :
      Takes w (.mark pid tid)
        (((w.nextStamp image).setThread pid image tid (.marked (w.stamp image))).happen image
          (.issued (w.stamp image)))
  | recordMarker {pid tid image i text behind accepted} (himage : w.images pid = some image)
      (hmarked : image.threads tid = .marked i) :
      Takes w (.recordMarker pid tid text behind accepted)
        ((w.emit image ⟨.marker ⟨i, tid, text⟩, 0, 0⟩ behind accepted).setThread pid image tid
          .idle)
  | fork {pid child image} (himage : w.images pid = some image)
      (hchild : w.images child = none) :
      Takes w (.fork pid child) (w.forked image child)
  | exec {pid start image} (himage : w.images pid = some image) :
      Takes w (.exec pid start) (w.construct pid start)
  | exit {pid image} (himage : w.images pid = some image) :
      Takes w (.exit pid) (w.setImage pid none)

variable {w} in
lemma takes_of_step {s : Step} {w' : World} (hstep : w.step s = some w') : w.Takes s w' := by
  cases s with
  | exec pid start =>
      obtain ⟨image, himage, hstep⟩ := Option.bind_eq_some_iff.mp hstep
      exact Option.some.inj hstep ▸ .exec himage
  | exit pid =>
      obtain ⟨image, himage, hstep⟩ := Option.bind_eq_some_iff.mp hstep
      exact Option.some.inj hstep ▸ .exit himage
  | fork pid child =>
      obtain ⟨image, himage, hstep⟩ := Option.bind_eq_some_iff.mp hstep
      split at hstep
      · cases hstep
      · next hchild =>
          exact Option.some.inj hstep ▸ .fork himage (Option.not_isSome_iff_eq_none.mp hchild)
  | submit pid tid =>
      obtain ⟨image, himage, hstep⟩ := Option.bind_eq_some_iff.mp hstep
      split at hstep
      · next hidle => exact Option.some.inj hstep ▸ .submit himage hidle
      · cases hstep
  | finish pid tid =>
      obtain ⟨image, himage, hstep⟩ := Option.bind_eq_some_iff.mp hstep
      split at hstep
      · next i hsubmitted => exact Option.some.inj hstep ▸ .finish himage hsubmitted
      · cases hstep
  | record pid tid event flags time behind accepted =>
      obtain ⟨image, himage, hstep⟩ := Option.bind_eq_some_iff.mp hstep
      split at hstep
      · next i j hcompleted => exact Option.some.inj hstep ▸ .record himage hcompleted
      · cases hstep
  | pass pid tid =>
      obtain ⟨image, himage, hstep⟩ := Option.bind_eq_some_iff.mp hstep
      split at hstep
      · next i hsubmitted => exact Option.some.inj hstep ▸ .pass himage hsubmitted
      · cases hstep
  | mark pid tid =>
      obtain ⟨image, himage, hstep⟩ := Option.bind_eq_some_iff.mp hstep
      split at hstep
      · next hidle => exact Option.some.inj hstep ▸ .mark himage hidle
      · cases hstep
  | recordMarker pid tid text behind accepted =>
      obtain ⟨image, himage, hstep⟩ := Option.bind_eq_some_iff.mp hstep
      split at hstep
      · next i hmarked => exact Option.some.inj hstep ▸ .recordMarker himage hmarked
      · cases hstep

/-! ### What is promised, and when -/

/-- The stamps of all records. -/
def recorded : List ℕ := w.emitted.flatMap Emission.stamps

/-- The stamps on record are all different, those of one call and of calls one
after the other are in order, and what was written is where it was written. -/
structure TotallyOrdered (w : World) : Prop where
  nodup : w.recorded.Nodup
  ordered : ∀ e ∈ w.emitted, ∀ event, e.line.record = .event event →
    event.index < event.completionIndex
  follows : w.happened.Pairwise fun a b =>
    ∀ i j k, a = .returned i j → b = .issued k → j < k
  kept : ∀ e ∈ w.emitted, e.bytes <+: (w.files e.file).drop e.position

/-- A process that is traced stamps from a counter that has counted every stamp
of the run. -/
def Counted (pid : ℕ) : Prop :=
  ∀ image, w.images pid = some image → image.traceFd.isSome → w.stamp image = w.taken

/-- A process writes its records to the end of its segment. -/
def Appends (pid : ℕ) : Prop :=
  ∀ image d, w.images pid = some image → image.traceFd = some d →
    (w.descriptions d).position = (w.files (w.descriptions d).file).length

/-- The condition on a step: its stamp is from a counter that has counted all of
them, its record goes to the end of the segment, and its constructor truncates no
record. -/
def Meets : Step → Prop
  | .submit pid _ => w.Counted pid
  | .finish pid _ => w.Counted pid
  | .mark pid _ => w.Counted pid
  | .record pid .. => w.Appends pid
  | .recordMarker pid .. => w.Appends pid
  -- the segment of the process is truncated
  | .exec pid (.traced _) => ∀ e ∈ w.emitted, e.file = pid → e.bytes = []
  | _ => True

/-- Every step of a run meets the condition. -/
def MeetsAll (w : World) : List Step → Prop
  | [] => True
  | s :: steps => w.Meets s ∧ ∀ w', w.step s = some w' → w'.MeetsAll steps

/-! ### Stamps as numbers on a ledger -/

/-- The stamps that a thread of a traced process has taken and not recorded. -/
def held (pid tid : ℕ) : List ℕ :=
  match w.images pid with
  | some image => if image.traceFd.isSome then (image.threads tid).stamps else []
  | none => []

/-- The stamps of a run are the numbers of a ledger, and in order. -/
structure Inv (w : World) (l : Ledger (ℕ × ℕ)) : Prop where
  taken : w.taken = l.next
  held : ∀ pid tid, w.held pid tid = l.held (pid, tid)
  recorded : w.recorded = l.recorded
  ordered : ∀ e ∈ w.emitted, ∀ event, e.line.record = .event event →
    event.index < event.completionIndex
  returned_lt : ∀ i j, .returned i j ∈ w.happened → j < w.taken
  follows : w.happened.Pairwise fun a b =>
    ∀ i j k, a = .returned i j → b = .issued k → j < k
  kept : ∀ e ∈ w.emitted, e.bytes <+: (w.files e.file).drop e.position

variable {w} {l : Ledger (ℕ × ℕ)}

lemma Inv.totallyOrdered (h : w.Inv l) : w.TotallyOrdered where
  nodup := h.recorded ▸ l.nodup
  ordered := h.ordered
  follows := h.follows
  kept := h.kept

lemma held_of_traced {pid : ℕ} {image : Image} (himage : w.images pid = some image)
    (htraced : image.traceFd.isSome) (tid : ℕ) :
    w.held pid tid = (image.threads tid).stamps := by
  rw [held, himage]
  exact if_pos htraced

lemma held_of_untraced {pid : ℕ} {image : Image} (himage : w.images pid = some image)
    (huntraced : ¬ image.traceFd.isSome) (tid : ℕ) : w.held pid tid = [] := by
  rw [held, himage]
  exact if_neg huntraced

lemma held_of_none {pid : ℕ} (himage : w.images pid = none) (tid : ℕ) :
    w.held pid tid = [] := by
  rw [held, himage]

/-- A new image holds nothing. -/
lemma held_of_idle {pid : ℕ} {image : Image} (himage : w.images pid = some image)
    (hidle : ∀ tid, image.threads tid = .idle) (tid : ℕ) : w.held pid tid = [] := by
  by_cases htraced : image.traceFd.isSome
  · rw [held_of_traced himage htraced, hidle]
    rfl
  · exact held_of_untraced himage htraced tid

lemma held_congr {w' : World} {pid : ℕ} (himages : w'.images pid = w.images pid) (tid : ℕ) :
    w'.held pid tid = w.held pid tid := by
  rw [held, held, himages]

lemma held_setImage_of_ne {pid p : ℕ} (image : Option Image) (hne : p ≠ pid) (tid : ℕ) :
    (w.setImage pid image).held p tid = w.held p tid :=
  held_congr (Function.update_of_ne hne _ _) tid

lemma setThread_images (w : World) (pid : ℕ) (image : Image) (tid : ℕ) (thread : Thread) :
    (w.setThread pid image tid thread).images pid =
      some { image with threads := Function.update image.threads tid thread } :=
  Function.update_self ..

/-- The other threads hold what they held. -/
lemma held_setThread {pid tid : ℕ} {image : Image} (himage : w.images pid = some image)
    (htraced : image.traceFd.isSome) (thread : Thread) (p t : ℕ) :
    (w.setThread pid image tid thread).held p t =
      Function.update (fun x : ℕ × ℕ => w.held x.1 x.2) (pid, tid) thread.stamps (p, t) := by
  rcases eq_or_ne p pid with rfl | hp
  · have hthreads : (w.setThread p image tid thread).held p t =
        (Function.update image.threads tid thread t).stamps :=
      held_of_traced (setThread_images ..) htraced t
    rcases eq_or_ne t tid with rfl | ht
    · rw [hthreads, Function.update_self, Function.update_self]
    · rw [hthreads, Function.update_of_ne ht,
        Function.update_of_ne fun h => ht (Prod.ext_iff.mp h).2, held_of_traced himage htraced]
  · rw [Function.update_of_ne fun h => hp (Prod.ext_iff.mp h).1]
    exact held_setImage_of_ne _ hp t

lemma held_setThread_untraced {pid tid : ℕ} {image : Image} (himage : w.images pid = some image)
    (huntraced : ¬ image.traceFd.isSome) (thread : Thread) (p t : ℕ) :
    (w.setThread pid image tid thread).held p t = w.held p t := by
  rcases eq_or_ne p pid with rfl | hp
  · rw [held_of_untraced (setThread_images ..) huntraced, held_of_untraced himage huntraced]
  · exact held_setImage_of_ne _ hp t

/-! ### Records -/

section Emit

variable (w) (image : Image) (line : Line) (behind : List UInt8) (accepted : ℕ)

lemma emit_images : (w.emit image line behind accepted).images = w.images := by
  unfold emit
  split <;> rfl

lemma emit_taken : (w.emit image line behind accepted).taken = w.taken := by
  unfold emit
  split <;> rfl

lemma emit_happened : (w.emit image line behind accepted).happened = w.happened := by
  unfold emit
  split <;> rfl

end Emit

lemma emit_untraced {image : Image} (huntraced : image.traceFd = none) (line : Line)
    (behind : List UInt8) (accepted : ℕ) : w.emit image line behind accepted = w := by
  rw [emit, huntraced]

/-- A record goes behind everything in its segment. -/
lemma emit_appends {pid d : ℕ} {image : Image} (himage : w.images pid = some image)
    (happends : w.Appends pid) (hfd : image.traceFd = some d) (line : Line) (behind : List UInt8)
    (accepted : ℕ) :
    ∃ e : Emission, e.line = line ∧ e.position = (w.files e.file).length ∧
      (w.emit image line behind accepted).emitted = w.emitted ++ [e] ∧
      (w.emit image line behind accepted).files =
        Function.update w.files e.file (w.files e.file ++ e.bytes) := by
  let segment := w.descriptions d
  have hposition := happends image d himage hfd
  refine ⟨⟨segment.file, segment.position, line, (printed line behind).take accepted⟩,
    rfl, hposition, ?_, ?_⟩
  · rw [emit, hfd]
  · rw [emit, hfd, ← splice_length, ← hposition]

lemma kept_append {files : ℕ → List UInt8} {e : Emission}
    (hkept : e.bytes <+: (files e.file).drop e.position) (file : ℕ) (bytes : List UInt8) :
    e.bytes <+: (Function.update files file (files file ++ bytes) e.file).drop e.position := by
  rcases eq_or_ne e.file file with rfl | hne
  · rw [Function.update_self, List.drop_append]
    exact hkept.trans (List.prefix_append _ _)
  · rw [Function.update_of_ne hne]
    exact hkept

lemma setThread_emitted (w : World) (pid : ℕ) (image : Image) (tid : ℕ) (thread : Thread) :
    (w.setThread pid image tid thread).emitted = w.emitted := rfl

/-! ### Steps -/

namespace Inv

/-- Nothing is drawn or recorded, and some threads are gone. -/
lemma drop (h : w.Inv l) {w' : World} (gone : ℕ × ℕ → Prop) [DecidablePred gone]
    (htaken : w'.taken = w.taken)
    (hheld : ∀ pid tid, w'.held pid tid = if gone (pid, tid) then [] else w.held pid tid)
    (hemitted : w'.emitted = w.emitted) (hhappened : w'.happened = w.happened)
    (hkept : ∀ e ∈ w.emitted, e.bytes <+: (w'.files e.file).drop e.position) :
    w'.Inv (l.drop gone) where
  taken := htaken.trans h.taken
  held pid tid := by rw [hheld, h.held]; rfl
  recorded := by rw [World.recorded, hemitted]; exact h.recorded
  ordered := by rw [hemitted]; exact h.ordered
  returned_lt := by rw [hhappened, htaken]; exact h.returned_lt
  follows := by rw [hhappened]; exact h.follows
  kept := by rw [hemitted]; exact hkept

/-- Nothing that is traced changes. -/
lemma untouched (h : w.Inv l) {w' : World} (htaken : w'.taken = w.taken)
    (hheld : ∀ pid tid, w'.held pid tid = w.held pid tid) (hemitted : w'.emitted = w.emitted)
    (hhappened : w'.happened = w.happened) (hfiles : w'.files = w.files) : w'.Inv l where
  taken := htaken.trans h.taken
  held pid tid := (hheld pid tid).trans (h.held pid tid)
  recorded := by rw [World.recorded, hemitted]; exact h.recorded
  ordered := by rw [hemitted]; exact h.ordered
  returned_lt := by rw [hhappened, htaken]; exact h.returned_lt
  follows := by rw [hhappened]; exact h.follows
  kept := by rw [hemitted, hfiles]; exact h.kept

variable {pid tid : ℕ} {image : Image} (himage : w.images pid = some image)

/-- A call is issued after the calls that returned. -/
lemma happen (h : w.Inv l) (image : Image) {happening : Happening}
    (hissued : image.traceFd.isSome → ∀ i, happening = .issued i → w.taken ≤ i)
    (hreturned : image.traceFd.isSome → ∀ i j, happening = .returned i j → j < w.taken) :
    (w.happen image happening).Inv l := by
  by_cases htraced : image.traceFd.isSome
  · have hhappened : (w.happen image happening).happened = w.happened ++ [happening] :=
      if_pos htraced
    refine ⟨h.taken, h.held, h.recorded, h.ordered, ?_, ?_, h.kept⟩
    · rw [hhappened]
      intro i j hmem
      rcases List.mem_append.mp hmem with hmem | hmem
      · exact h.returned_lt i j hmem
      · exact hreturned htraced i j (List.mem_singleton.mp hmem).symm
    · rw [hhappened]
      refine List.pairwise_append.mpr ⟨h.follows, List.pairwise_singleton _ _, ?_⟩
      rintro a ha b hb i j k rfl rfl
      calc j < w.taken := h.returned_lt i j ha
        _ ≤ k := hissued htraced k (List.mem_singleton.mp hb).symm
  · exact h.untouched rfl (fun _ _ => rfl) rfl (if_neg htraced) rfl

include himage in
/-- A thread takes the next stamp. -/
lemma nextStamp (h : w.Inv l) (hcounted : w.Counted pid) {thread : Thread}
    (hthread : thread.stamps = (image.threads tid).stamps ++ [w.stamp image]) :
    ∃ l', ((w.nextStamp image).setThread pid image tid thread).Inv l' := by
  by_cases htraced : image.traceFd.isSome
  · -- the counter has counted every stamp, so the one it gives is new
    have hstamps : thread.stamps = l.held (pid, tid) ++ [l.next] := by
      rw [hthread, ← held_of_traced himage htraced, h.held, hcounted image himage htraced, h.taken]
    have htaken : (w.nextStamp image).taken = w.taken + 1 := if_pos htraced
    refine ⟨l.draw (pid, tid), ?_, ?_, h.recorded, h.ordered, ?_, h.follows, h.kept⟩
    · exact htaken.trans (congrArg (· + 1) h.taken)
    · intro p t
      have hheld : (fun x : ℕ × ℕ => (w.nextStamp image).held x.1 x.2) = l.held :=
        funext fun x => h.held x.1 x.2
      have himage' : (w.nextStamp image).images pid = some image := himage
      rw [held_setThread himage' htraced, hheld, hstamps]
      rfl
    · intro i j hmem
      calc j < w.taken := h.returned_lt i j hmem
        _ < w.taken + 1 := Nat.lt_succ_self _
        _ = (w.nextStamp image).taken := htaken.symm
  · exact ⟨l, h.untouched (if_neg htraced) (held_setThread_untraced himage htraced thread)
      rfl rfl rfl⟩

include himage in
/-- A thread gives up the stamps it has taken. -/
lemma idle (h : w.Inv l) :
    (w.setThread pid image tid .idle).Inv (l.drop (· = (pid, tid))) := by
  refine h.drop _ rfl ?_ rfl rfl h.kept
  intro p t
  by_cases htraced : image.traceFd.isSome
  · rw [held_setThread himage htraced]
    exact Function.update_apply ..
  · rw [held_setThread_untraced himage htraced]
    split
    · next hgone =>
        obtain ⟨rfl, rfl⟩ := Prod.ext_iff.mp hgone
        exact held_of_untraced himage htraced _
    · rfl

include himage in
/-- A thread records the stamps it has taken. -/
lemma emit (h : w.Inv l) (happends : w.Appends pid) {line : Line} (behind : List UInt8)
    (accepted : ℕ)
    (hstamps : ∀ e : Emission, e.line = line → e.stamps = (image.threads tid).stamps)
    (hordered : image.traceFd.isSome → ∀ event, line.record = .event event →
      event.index < event.completionIndex) :
    ∃ l', ((w.emit image line behind accepted).setThread pid image tid .idle).Inv l' := by
  cases hfd : image.traceFd with
  | none =>
      rw [emit_untraced hfd]
      exact ⟨_, h.idle himage⟩
  | some d =>
      have htraced : image.traceFd.isSome := by rw [hfd]; rfl
      obtain ⟨e, hline, hposition, hemitted, hfiles⟩ :=
        emit_appends himage happends hfd line behind accepted
      have himage' : (w.emit image line behind accepted).images pid = some image :=
        (congrFun (emit_images ..) pid).trans himage
      -- the stamps the thread held move to the end of the record
      refine ⟨l.record (pid, tid), ?_, ?_, ?_, ?_, ?_, ?_, ?_⟩
      · exact (emit_taken ..).trans h.taken
      · intro p t
        rw [held_setThread himage' htraced, Function.update_apply]
        have hheld : (w.emit image line behind accepted).held p t = w.held p t :=
          held_congr (congrFun (emit_images ..) p) t
        rw [hheld, h.held]
        rfl
      · have hrecorded := hstamps e hline
        rw [← held_of_traced himage htraced, h.held] at hrecorded
        rw [World.recorded, setThread_emitted, hemitted, List.flatMap_append,
          List.flatMap_singleton, hrecorded]
        exact congrArg (· ++ l.held (pid, tid)) h.recorded
      · rw [setThread_emitted, hemitted]
        intro e' he
        rcases List.mem_append.mp he with he | he
        · exact h.ordered e' he
        · rw [List.mem_singleton.mp he, hline]
          exact hordered htraced
      · exact (emit_happened ..).symm ▸ (emit_taken ..).symm ▸ h.returned_lt
      · exact (emit_happened ..).symm ▸ h.follows
      · rw [setThread_emitted, hemitted]
        intro e' he
        show e'.bytes <+: ((w.emit image line behind accepted).files e'.file).drop e'.position
        rw [hfiles]
        -- the write is at the end of its segment, so it overwrites no record
        rcases List.mem_append.mp he with he | he
        · exact kept_append (h.kept e' he) _ _
        · rw [List.mem_singleton.mp he, hposition, Function.update_self, List.drop_left]

/-- The threads of an image that ends are gone. -/
lemma gone (h : w.Inv l) {w' : World} (pid : ℕ) (htaken : w'.taken = w.taken)
    (hself : ∀ tid, w'.held pid tid = []) (hothers : ∀ p ≠ pid, w'.images p = w.images p)
    (hemitted : w'.emitted = w.emitted) (hhappened : w'.happened = w.happened)
    (hkept : ∀ e ∈ w.emitted, e.bytes <+: (w'.files e.file).drop e.position) :
    w'.Inv (l.drop (·.1 = pid)) := by
  refine h.drop _ htaken ?_ hemitted hhappened hkept
  intro p t
  split
  · next hp =>
      obtain rfl : p = pid := hp
      exact hself t
  · next hp => exact held_congr (hothers p hp) t

/-- The constructor keeps the other segments. -/
lemma construct (h : w.Inv l) (pid : ℕ) {start : Start} (hmeets : w.Meets (.exec pid start)) :
    (w.construct pid start).Inv (l.drop (·.1 = pid)) := by
  have hself : ∀ tid, (w.construct pid start).held pid tid = [] := by
    intro tid
    cases start with
    | untraced => exact held_of_idle (Function.update_self ..) (fun _ => rfl) tid
    | traced mapped => exact held_of_idle (Function.update_self ..) (fun _ => rfl) tid
  cases start with
  | untraced =>
      exact h.gone pid rfl hself (fun p hp => Function.update_of_ne hp _ _) rfl rfl h.kept
  | traced mapped =>
      refine h.gone pid rfl hself (fun p hp => Function.update_of_ne hp _ _) rfl rfl ?_
      -- `O_TRUNC` empties the segment of this process, where nothing is kept
      intro e he
      by_cases hfile : e.file = pid
      · rw [hmeets e he hfile]
        exact List.nil_prefix
      · have hsame : (w.construct pid (.traced mapped)).files e.file = w.files e.file :=
          Function.update_of_ne hfile _ _
        rw [hsame]
        exact h.kept e he

/-- The child of a fork holds nothing. -/
lemma forked (h : w.Inv l) {child : ℕ} (hchild : w.images child = none) :
    (w.forked image child).Inv l := by
  have hheld : ∀ counter p t,
      (w.setImage child (some { image with threads := fun _ => .idle, counter := counter })).held
        p t = w.held p t := by
    intro counter p t
    rcases eq_or_ne p child with rfl | hp
    · rw [held_of_none hchild]
      exact held_of_idle (Function.update_self ..) (fun _ => rfl) t
    · exact held_setImage_of_ne _ hp t
  unfold World.forked
  split
  · exact h.untouched rfl (hheld image.counter) rfl rfl rfl
  · exact h.untouched rfl (hheld w.nextCounter) rfl rfl rfl

include himage in
/-- A thread issues a call or a marker. -/
lemma issue (h : w.Inv l) (hcounted : w.Counted pid) {thread : Thread}
    (hthread : thread.stamps = (image.threads tid).stamps ++ [w.stamp image]) :
    ∃ l', (((w.nextStamp image).setThread pid image tid thread).happen image
      (.issued (w.stamp image))).Inv l' := by
  have hissued : (w.happen image (.issued (w.stamp image))).Inv l := by
    refine h.happen image ?_ ?_
    · rintro htraced i heq
      obtain rfl := Happening.issued.inj heq
      exact (hcounted image himage htraced).ge
    · rintro - i j heq
      cases heq
  have himage' : (w.happen image (.issued (w.stamp image))).images pid = some image := himage
  exact hissued.nextStamp himage' hcounted hthread

include himage in
/-- A call returns to the thread. -/
lemma finish (h : w.Inv l) (happends : w.Appends pid) {i j : ℕ} {event : TraceEvent}
    {flags time : ℕ} (behind : List UInt8) (accepted : ℕ)
    (hcompleted : image.threads tid = .completed i j) (hindex : event.index = i)
    (hcompletion : event.completionIndex = j) :
    ∃ l', (((w.emit image ⟨.event event, flags, time⟩ behind accepted).setThread pid image tid
      .idle).happen image (.returned i j)).Inv l' := by
  have hheld : image.traceFd.isSome → [i, j] = l.held (pid, tid) := by
    intro htraced
    rw [← h.held, held_of_traced himage htraced, hcompleted]
    rfl
  -- a thread draws its stamps in order, so the call's is before its return's
  have hlt : image.traceFd.isSome → i < j := by
    intro htraced
    have hsorted := hheld htraced ▸ l.sorted (pid, tid)
    exact List.rel_of_pairwise_cons hsorted List.mem_cons_self
  obtain ⟨l', h'⟩ : ∃ l', ((w.emit image ⟨.event event, flags, time⟩ behind accepted).setThread pid
      image tid .idle).Inv l' := by
    refine h.emit himage happends behind accepted ?_ ?_
    · intro e hline
      rw [Emission.stamps, hline, hcompleted, ← hindex, ← hcompletion]
      rfl
    · rintro htraced event' heq
      obtain rfl := RawRecord.event.inj heq
      rw [hindex, hcompletion]
      exact hlt htraced
  refine ⟨l', h'.happen image ?_ ?_⟩
  · rintro - k heq
    cases heq
  · rintro htraced i' j' heq
    obtain ⟨rfl, rfl⟩ := Happening.returned.inj heq
    have hmem : j ∈ l.held (pid, tid) :=
      hheld htraced ▸ List.mem_cons_of_mem _ (List.mem_singleton_self _)
    calc j < l.next := l.held_lt (pid, tid) j hmem
      _ = w.taken := h.taken.symm
      _ = _ := (emit_taken ..).symm

/-- Every step that meets the condition keeps the stamps in order. -/
theorem step (h : w.Inv l) {s : Step} (hmeets : w.Meets s) {w' : World}
    (hstep : w.step s = some w') : ∃ l', w'.Inv l' := by
  cases takes_of_step hstep with
  | submit himage hidle => exact h.issue himage hmeets (by rw [hidle]; rfl)
  | finish himage hsubmitted => exact h.nextStamp himage hmeets (by rw [hsubmitted]; rfl)
  | record himage hcompleted => exact h.finish himage hmeets _ _ hcompleted rfl rfl
  | pass himage hsubmitted => exact ⟨_, h.idle himage⟩
  | mark himage hidle => exact h.issue himage hmeets (by rw [hidle]; rfl)
  | recordMarker himage hmarked =>
      refine h.emit himage hmeets _ _ ?_ ?_
      · intro e hline
        rw [Emission.stamps, hline, hmarked]
        rfl
      · rintro - event heq
        cases heq
  | fork himage hchild => exact ⟨l, h.forked hchild⟩
  | exec himage => exact ⟨_, h.construct _ hmeets⟩
  | exit himage =>
      exact ⟨_, h.gone _ rfl (held_of_none (Function.update_self ..))
        (fun p hp => Function.update_of_ne hp _ _) rfl rfl h.kept⟩

/-- Nothing is stamped before the constructor is done. -/
lemma start (pid : ℕ) (mapped : Bool) : (World.start pid mapped).Inv Ledger.empty where
  taken := rfl
  held p tid := by
    rcases eq_or_ne p pid with rfl | hp
    · exact held_of_idle (Function.update_self ..) (fun _ => rfl) tid
    · exact held_of_none (Function.update_of_ne hp _ _) tid
  recorded := rfl
  ordered := List.forall_mem_nil _
  returned_lt _ _ hmem := absurd hmem List.not_mem_nil
  follows := List.Pairwise.nil
  kept := List.forall_mem_nil _

theorem run (h : w.Inv l) {steps : List Step} (hmeets : w.MeetsAll steps) {w' : World}
    (hrun : w.run steps = some w') : ∃ l', w'.Inv l' := by
  rw [run_eq_foldlM] at hrun
  refine Runs.induct (P := fun w => ∃ l, w.Inv l) MeetsAll ?_ ⟨l, h⟩ hmeets hrun
  rintro w s steps w₁ ⟨l, h⟩ hmeets hstep
  exact ⟨h.step hmeets.1 hstep, hmeets.2 w₁ hstep⟩

end Inv

/-! ### Runs without a preloaded `exec` -/

lemma nextStamp_counters (w : World) (image : Image) :
    (w.nextStamp image).counters = Function.update w.counters image.counter
      ((w.counters image.counter + 1) % 2 ^ 64) := rfl

/-- No image but the first is preloaded by an `exec`. -/
def OnlyForks (steps : List Step) : Prop :=
  ∀ s ∈ steps, ∀ pid mapped, s ≠ .exec pid (.traced mapped)

/-- The image stamps from the first page and writes to the first segment, or is
not traced. -/
def Joined (image : Image) : Prop :=
  (image.traceFd = some 0 ∧ image.counter = 0 ∧ image.shared = true) ∨
    (image.traceFd = none ∧ image.counter ≠ 0)

/-- All traced processes stamp from one page, so many times at most, and write to
one segment, to its end. -/
structure Forking (n : ℕ) (w : World) : Prop where
  images : ∀ pid image, w.images pid = some image → Joined image
  counted : w.counters 0 = w.taken
  nextCounter : 0 < w.nextCounter
  appends : (w.descriptions 0).position = (w.files (w.descriptions 0).file).length
  bound : w.taken ≤ n

namespace Forking

variable {n : ℕ}

lemma counts (h : w.Forking n) (pid : ℕ) : w.Counted pid := by
  intro image himage htraced
  rcases h.images pid image himage with ⟨-, hcounter, -⟩ | ⟨hfd, -⟩
  · rw [stamp, hcounter]
    exact h.counted
  · rw [hfd] at htraced
    cases htraced

lemma appending (h : w.Forking n) (pid : ℕ) : w.Appends pid := by
  intro image d himage hfd
  rcases h.images pid image himage with ⟨hfd', -, -⟩ | ⟨hfd', -⟩
  · obtain rfl : d = 0 := Option.some.inj (hfd.symm.trans hfd')
    exact h.appends
  · cases hfd.symm.trans hfd'

/-- A step that is no preloaded `exec` meets the condition. -/
lemma meets (h : w.Forking n) {s : Step} (hforks : ∀ pid mapped, s ≠ .exec pid (.traced mapped)) :
    w.Meets s := by
  cases s with
  | submit pid tid => exact h.counts pid
  | finish pid tid => exact h.counts pid
  | mark pid tid => exact h.counts pid
  | record pid => exact h.appending pid
  | recordMarker pid => exact h.appending pid
  | exec pid start =>
      cases start with
      | untraced => trivial
      | traced mapped => exact absurd rfl (hforks pid mapped)
  | pass pid tid => trivial
  | fork pid child => trivial
  | exit pid => trivial

/-- The images of a world where one is set. -/
lemma images_update (h : w.Forking n) {pid : ℕ} {image : Option Image}
    (hjoined : ∀ im, image = some im → Joined im) (p : ℕ) (im : Image)
    (him : Function.update w.images pid image p = some im) : Joined im := by
  rcases eq_or_ne p pid with rfl | hp
  · rw [Function.update_self] at him
    exact hjoined im him
  · rw [Function.update_of_ne hp] at him
    exact h.images p im him

lemma setImage (h : w.Forking n) (pid : ℕ) {image : Option Image}
    (hjoined : ∀ im, image = some im → Joined im) : (w.setImage pid image).Forking n :=
  ⟨h.images_update hjoined, h.counted, h.nextCounter, h.appends, h.bound⟩

lemma setThread (h : w.Forking n) (pid : ℕ) {image : Image} (hjoined : Joined image) (tid : ℕ)
    (thread : Thread) : (w.setThread pid image tid thread).Forking n := by
  refine h.setImage pid fun im him => ?_
  obtain rfl := Option.some.inj him
  exact hjoined

lemma happen (h : w.Forking n) (image : Image) (happening : Happening) :
    (w.happen image happening).Forking n :=
  ⟨h.images, h.counted, h.nextCounter, h.appends, h.bound⟩

lemma nextStamp (h : w.Forking n) (hn : n + 1 < 2 ^ 64) {image : Image}
    (hjoined : Joined image) : (w.nextStamp image).Forking (n + 1) := by
  have hbound : w.taken + 1 < 2 ^ 64 := lt_of_le_of_lt (Nat.succ_le_succ h.bound) hn
  have htaken : (w.nextStamp image).taken ≤ n + 1 := by
    rw [World.nextStamp]
    split
    · exact Nat.succ_le_succ h.bound
    · exact Nat.le_succ_of_le h.bound
  refine ⟨h.images, ?_, h.nextCounter, h.appends, htaken⟩
  -- only a traced image counts on the first page
  rcases hjoined with ⟨hfd, hcounter, -⟩ | ⟨hfd, hcounter⟩
  · calc (w.nextStamp image).counters 0
        = (w.counters 0 + 1) % 2 ^ 64 := by
          rw [nextStamp_counters, hcounter, Function.update_self]
      _ = w.taken + 1 := by rw [h.counted, Nat.mod_eq_of_lt hbound]
      _ = (w.nextStamp image).taken := by rw [World.nextStamp, hfd]; rfl
  · calc (w.nextStamp image).counters 0
        = w.counters 0 := by rw [nextStamp_counters, Function.update_of_ne hcounter.symm]
      _ = w.taken := h.counted
      _ = (w.nextStamp image).taken := by rw [World.nextStamp, hfd]; rfl

lemma emit (h : w.Forking n) {image : Image} (hjoined : Joined image) (line : Line)
    (behind : List UInt8) (accepted : ℕ) : (w.emit image line behind accepted).Forking n := by
  rcases hjoined with ⟨hfd, -, -⟩ | ⟨hfd, -⟩
  · rw [World.emit, hfd]
    refine ⟨h.images, h.counted, h.nextCounter, ?_, h.bound⟩
    simp only [Function.update_self, h.appends, splice_length, List.length_append]
  · rw [emit_untraced hfd]
    exact h

lemma forked (h : w.Forking n) {image : Image} (hjoined : Joined image) (child : ℕ) :
    (w.forked image child).Forking n := by
  unfold World.forked
  split
  · refine h.setImage child fun im him => ?_
    obtain rfl := Option.some.inj him
    exact hjoined
  · -- a page that is not shared is that of an image without a trace
    next hshared =>
      have hfd : image.traceFd = none := by
        rcases hjoined with ⟨-, -, hs⟩ | ⟨hfd, -⟩
        · exact absurd hs hshared
        · exact hfd
      refine ⟨h.images_update ?_, ?_, Nat.succ_pos _, h.appends, h.bound⟩
      · intro im him
        obtain rfl := Option.some.inj him
        exact .inr ⟨hfd, h.nextCounter.ne'⟩
      · exact (Function.update_of_ne h.nextCounter.ne ..).trans h.counted

/-- An image that is not traced has a counter of its own. -/
lemma construct (h : w.Forking n) (pid : ℕ) : (w.construct pid .untraced).Forking n := by
  refine ⟨h.images_update ?_, ?_, Nat.succ_pos _, h.appends, h.bound⟩
  · intro im him
    obtain rfl := Option.some.inj him
    exact .inr ⟨rfl, h.nextCounter.ne'⟩
  · exact (Function.update_of_ne h.nextCounter.ne ..).trans h.counted

lemma mono (h : w.Forking n) : w.Forking (n + 1) :=
  ⟨h.images, h.counted, h.nextCounter, h.appends, Nat.le_succ_of_le h.bound⟩

theorem step (h : w.Forking n) (hn : n + 1 < 2 ^ 64) {s : Step}
    (hforks : ∀ pid mapped, s ≠ .exec pid (.traced mapped)) {w' : World}
    (hstep : w.step s = some w') : w'.Forking (n + 1) := by
  cases takes_of_step hstep with
  | submit himage =>
      have hjoined := h.images _ _ himage
      exact ((h.nextStamp hn hjoined).setThread _ hjoined _ _).happen _ _
  | finish himage =>
      have hjoined := h.images _ _ himage
      exact (h.nextStamp hn hjoined).setThread _ hjoined _ _
  | record himage =>
      have hjoined := h.images _ _ himage
      exact ((h.mono.emit hjoined _ _ _).setThread _ hjoined _ _).happen _ _
  | pass himage => exact h.mono.setThread _ (h.images _ _ himage) _ _
  | mark himage =>
      have hjoined := h.images _ _ himage
      exact ((h.nextStamp hn hjoined).setThread _ hjoined _ _).happen _ _
  | recordMarker himage =>
      have hjoined := h.images _ _ himage
      exact (h.mono.emit hjoined _ _ _).setThread _ hjoined _ _
  | fork himage => exact h.mono.forked (h.images _ _ himage) _
  | @exec pid start =>
      cases start with
      | untraced => exact h.mono.construct pid
      | traced mapped => exact absurd rfl (hforks pid mapped)
  | exit himage => exact h.mono.setImage _ fun im him => nomatch him

lemma start (pid : ℕ) : (World.start pid true).Forking 0 where
  images p im him := by
    rcases eq_or_ne p pid with rfl | hp
    · obtain rfl := Option.some.inj ((Function.update_self p _ _).symm.trans him)
      exact .inl ⟨rfl, rfl, rfl⟩
    · cases (Function.update_of_ne hp _ _).symm.trans him
  counted := rfl
  nextCounter := Nat.one_pos
  appends := by
    have hfile : (World.start pid true).files pid =
        lineBytes ⟨.header ⟨traceVersion, pid⟩, 0, 0⟩ :=
      Function.update_self ..
    exact congrArg List.length hfile.symm
  bound := le_rfl

/-- A run that only forks meets the condition up to the last stamp. -/
theorem meetsAll (h : w.Forking n) {steps : List Step} (hforks : OnlyForks steps)
    (hn : n + steps.length < 2 ^ 64) : w.MeetsAll steps := by
  induction steps generalizing w n with
  | nil => trivial
  | cons s steps ih =>
      rw [List.length_cons] at hn
      have hs := hforks s List.mem_cons_self
      refine ⟨h.meets hs, fun w' hstep => ?_⟩
      refine ih (h.step (by omega) hs hstep) ?_ (by omega)
      exact fun s' hs' => hforks s' (List.mem_cons_of_mem _ hs')

end Forking

/-! ### Runs -/

/-- The stamps on record are in order in every run from the constructor of a
preloaded process on whose steps all meet the condition. -/
theorem run_totallyOrdered (pid : ℕ) (mapped : Bool) {steps : List Step} {w : World}
    (hmeets : (start pid mapped).MeetsAll steps) (hrun : (start pid mapped).run steps = some w) :
    w.TotallyOrdered := by
  obtain ⟨l, hinv⟩ := (Inv.start pid mapped).run hmeets hrun
  exact hinv.totallyOrdered

/-- A write of four bytes. -/
def fourBytes (path : String) : TraceEvent where
  index := 0
  completionIndex := 0
  call := .write
  fd := 3
  threadId := 0
  path := path
  path2 := ""
  offset := 0
  length := 4
  returnValue := 4
  errno := 0
  digest := ""

/-- A process and its child write at the same time. -/
def forkedWriters : List Step :=
  [.fork 1 2, .submit 1 1, .submit 2 2, .finish 2 2, .finish 1 1,
    .record 2 2 (fourBytes "/d/child.bin") 0 0 [] recordMax,
    .record 1 1 (fourBytes "/d/parent.bin") 0 0 [] recordMax]

theorem forkedWriters_ordered :
    ∃ w, (start 1 true).run forkedWriters = some w ∧ w.recorded = [1, 2, 0, 3] ∧
      w.TotallyOrdered := by
  have hforks : OnlyForks forkedWriters := by
    rintro s hs pid mapped rfl
    simp [forkedWriters] at hs
  have hmeets := (Forking.start 1).meetsAll hforks (by decide)
  exact ⟨_, rfl, rfl, run_totallyOrdered 1 true hmeets rfl⟩

/-- A process and a child that is preloaded by an `exec` write one after the
other. -/
def execedWriters : List Step :=
  [.submit 1 1, .finish 1 1, .record 1 1 (fourBytes "/d/parent.bin") 0 0 [] recordMax,
    .fork 1 2, .exec 2 (.traced true),
    .submit 2 2, .finish 2 2, .record 2 2 (fourBytes "/d/child.bin") 0 0 [] recordMax]

theorem execedWriters_repeat :
    ∃ w, (start 1 true).run execedWriters = some w ∧ w.recorded = [0, 1, 0, 1] ∧
      ¬ w.TotallyOrdered := by
  refine ⟨_, rfl, rfl, ?_⟩
  intro hordered
  have hnodup : [0, 1, 0, 1].Nodup := hordered.nodup
  exact absurd hnodup (by decide)

/-! ### Stamps and records that a step spoils -/

/-- Counters are told apart by being traced, and a traced one has not counted
more than there was. -/
structure Allotted (w : World) : Prop where
  lt : ∀ pid image, w.images pid = some image → image.counter < w.nextCounter
  le : ∀ pid image, w.images pid = some image → image.traceFd.isSome →
    w.counters image.counter ≤ w.taken
  apart : ∀ pid image pid' image', w.images pid = some image → w.images pid' = some image' →
    image.counter = image'.counter → image.traceFd.isSome = image'.traceFd.isSome

namespace Allotted

/-- An image of a world where one is set shares its counter with one from
before. -/
lemma of_update (h : w.Allotted) {w' : World} {pid p : ℕ} {image : Image} {new : Option Image}
    (himages : w'.images = Function.update w.images pid new) (himage : w.images p = some image)
    (hnew : ∀ im, new = some im → im.counter = image.counter ∧ im.traceFd = image.traceFd)
    (hcounters : w'.counters = w.counters) (hnext : w'.nextCounter = w.nextCounter)
    (htaken : w'.taken = w.taken) : w'.Allotted := by
  -- each image counts where one of before counted
  have hold : ∀ q im, w'.images q = some im → ∃ q₀ im₀, w.images q₀ = some im₀ ∧
      im.counter = im₀.counter ∧ im.traceFd = im₀.traceFd := by
    intro q im him
    rw [himages] at him
    rcases eq_or_ne q pid with rfl | hq
    · rw [Function.update_self] at him
      exact ⟨p, image, himage, hnew im him⟩
    · rw [Function.update_of_ne hq] at him
      exact ⟨q, im, him, rfl, rfl⟩
  refine ⟨?_, ?_, ?_⟩
  · intro q im him
    obtain ⟨q₀, im₀, him₀, hcounter, -⟩ := hold q im him
    rw [hcounter, hnext]
    exact h.lt q₀ im₀ him₀
  · intro q im him htraced
    obtain ⟨q₀, im₀, him₀, hcounter, hfd⟩ := hold q im him
    rw [hcounter, hcounters, htaken]
    exact h.le q₀ im₀ him₀ (hfd ▸ htraced)
  · intro q im q' im' him him' heq
    obtain ⟨q₀, im₀, him₀, hcounter, hfd⟩ := hold q im him
    obtain ⟨q₁, im₁, him₁, hcounter', hfd'⟩ := hold q' im' him'
    rw [hfd, hfd']
    exact h.apart q₀ im₀ q₁ im₁ him₀ him₁ (hcounter ▸ hcounter' ▸ heq)

/-- A new counter starts at most where the others are. -/
lemma of_new (h : w.Allotted) {w' : World} {pid value : ℕ} {image : Image}
    (himages : w'.images = Function.update w.images pid (some image))
    (hcounter : image.counter = w.nextCounter) (hvalue : image.traceFd.isSome → value ≤ w.taken)
    (hcounters : w'.counters = Function.update w.counters w.nextCounter value)
    (hnext : w'.nextCounter = w.nextCounter + 1) (htaken : w'.taken = w.taken) :
    w'.Allotted := by
  -- the older images have older counters
  have hcases : ∀ q im, w'.images q = some im →
      im = image ∨ (w.images q = some im ∧ im.counter ≠ w.nextCounter) := by
    intro q im him
    rw [himages] at him
    rcases eq_or_ne q pid with rfl | hq
    · rw [Function.update_self] at him
      exact .inl (Option.some.inj him).symm
    · rw [Function.update_of_ne hq] at him
      exact .inr ⟨him, (h.lt q im him).ne⟩
  refine ⟨?_, ?_, ?_⟩
  · intro q im him
    rw [hnext]
    rcases hcases q im him with rfl | ⟨him, -⟩
    · exact hcounter ▸ Nat.lt_succ_self _
    · exact Nat.lt_succ_of_lt (h.lt q im him)
  · intro q im him htraced
    rw [hcounters, htaken]
    rcases hcases q im him with rfl | ⟨him, hne⟩
    · rw [hcounter, Function.update_self]
      exact hvalue htraced
    · rw [Function.update_of_ne hne]
      exact h.le q im him htraced
  · intro q im q' im' him him' heq
    rcases hcases q im him with rfl | ⟨him, hne⟩ <;>
      rcases hcases q' im' him' with rfl | ⟨him', hne'⟩
    · rfl
    · exact absurd (heq.symm.trans hcounter) hne'
    · exact absurd (heq.trans hcounter) hne
    · exact h.apart q im q' im' him him' heq

lemma nextStamp (h : w.Allotted) {pid : ℕ} {image : Image} (himage : w.images pid = some image) :
    (w.nextStamp image).Allotted := by
  refine ⟨h.lt, ?_, h.apart⟩
  intro q im him htraced
  rw [nextStamp_counters]
  -- images on one counter are traced alike: its stamp counts for all of them
  rcases eq_or_ne im.counter image.counter with heq | hne
  · have htraced' : image.traceFd.isSome := h.apart q im pid image him himage heq ▸ htraced
    have htaken : (w.nextStamp image).taken = w.taken + 1 := if_pos htraced'
    rw [heq, Function.update_self, htaken]
    calc (w.counters image.counter + 1) % 2 ^ 64
        ≤ w.counters image.counter + 1 := Nat.mod_le _ _
      _ ≤ w.taken + 1 := Nat.succ_le_succ (h.le pid image himage htraced')
  · rw [Function.update_of_ne hne]
    have hle : w.taken ≤ (w.nextStamp image).taken := by
      rw [World.nextStamp]
      split
      · exact Nat.le_succ _
      · exact le_rfl
    exact (h.le q im him htraced).trans hle

lemma setThread (h : w.Allotted) {pid : ℕ} {image : Image} (himage : w.images pid = some image)
    (tid : ℕ) (thread : Thread) : (w.setThread pid image tid thread).Allotted := by
  refine h.of_update rfl himage ?_ rfl rfl rfl
  intro im him
  obtain rfl := Option.some.inj him
  exact ⟨rfl, rfl⟩

lemma happen (h : w.Allotted) (image : Image) (happening : Happening) :
    (w.happen image happening).Allotted :=
  ⟨h.lt, h.le, h.apart⟩

lemma emit (h : w.Allotted) (image : Image) (line : Line) (behind : List UInt8)
    (accepted : ℕ) : (w.emit image line behind accepted).Allotted := by
  unfold World.emit
  split
  · exact h
  · exact ⟨h.lt, h.le, h.apart⟩

lemma forked (h : w.Allotted) {pid : ℕ} {image : Image} (himage : w.images pid = some image)
    (child : ℕ) : (w.forked image child).Allotted := by
  unfold World.forked
  split
  · refine h.of_update rfl himage ?_ rfl rfl rfl
    intro im him
    obtain rfl := Option.some.inj him
    exact ⟨rfl, rfl⟩
  · exact h.of_new rfl rfl (h.le pid image himage) rfl rfl rfl

lemma construct (h : w.Allotted) (pid : ℕ) (start : Start) : (w.construct pid start).Allotted := by
  cases start with
  | untraced => exact h.of_new rfl rfl (fun _ => Nat.zero_le _) rfl rfl rfl
  | traced mapped => exact h.of_new rfl rfl (fun _ => Nat.zero_le _) rfl rfl rfl

theorem step (h : w.Allotted) {s : Step} {w' : World} (hstep : w.step s = some w') :
    w'.Allotted := by
  cases takes_of_step hstep with
  | submit himage => exact ((h.nextStamp himage).setThread himage _ _).happen _ _
  | finish himage => exact (h.nextStamp himage).setThread himage _ _
  | @record pid tid image _ _ _ _ _ _ _ himage =>
      exact ((h.emit image _ _ _).setThread ((congrFun (emit_images ..) pid).trans himage) _
        _).happen _ _
  | pass himage => exact h.setThread himage _ _
  | mark himage => exact ((h.nextStamp himage).setThread himage _ _).happen _ _
  | @recordMarker pid tid image _ _ _ _ himage =>
      exact (h.emit image _ _ _).setThread ((congrFun (emit_images ..) pid).trans himage) _ _
  | fork himage => exact h.forked himage _
  | exec himage => exact h.construct _ _
  | exit himage => exact h.of_update rfl himage (fun im him => nomatch him) rfl rfl rfl

theorem run (h : w.Allotted) {steps : List Step} {w' : World} (hrun : w.run steps = some w') :
    w'.Allotted := by
  rw [run_eq_foldlM] at hrun
  exact Runs.invariant (fun _ _ _ h hstep => h.step hstep) h hrun

lemma start (pid : ℕ) (mapped : Bool) : (World.start pid mapped).Allotted := by
  refine construct ⟨?_, ?_, ?_⟩ pid (.traced mapped)
  · intro q im him
    cases him
  · intro q im him
    cases him
  · intro q im q' im' him
    cases him

end Allotted

/-- A stamp from a counter that has not counted all of them is one of those that
were taken before. -/
theorem stamp_lt_taken {first : ℕ} {mapped : Bool} {steps : List Step}
    (hrun : (start first mapped).run steps = some w) {pid : ℕ} {image : Image}
    (himage : w.images pid = some image) (htraced : image.traceFd.isSome)
    (hcount : w.stamp image ≠ w.taken) : w.stamp image < w.taken :=
  lt_of_le_of_ne (((Allotted.start first mapped).run hrun).le pid image himage htraced) hcount

/-- What an image wrote to its segment behind the header is lost when the process
is preloaded again. -/
theorem construct_loses (w : World) (pid : ℕ) (mapped : Bool) {e : Emission} (hfile : e.file = pid)
    (hposition : (lineBytes ⟨.header ⟨traceVersion, pid⟩, 0, 0⟩).length ≤ e.position)
    (hbytes : e.bytes ≠ []) :
    ¬ e.bytes <+: ((w.construct pid (.traced mapped)).files e.file).drop e.position := by
  have hheader : (w.construct pid (.traced mapped)).files e.file =
      lineBytes ⟨.header ⟨traceVersion, pid⟩, 0, 0⟩ := by
    rw [hfile]
    exact Function.update_self ..
  rw [hheader, List.drop_eq_nil_of_le hposition, List.prefix_nil]
  exact hbytes

end World

end CrashFuzz.Shim
