import CrashFuzz.Shim.Follows
import CrashFuzz.Shim.TraceText

/-!
Capture, then replay: when a replayed trace reproduces the file tree that the
recorded run left behind.

* `Recorded`: the runs of calls whose records say what they did.
* `reproduces`: their traces parse and replay, and the tree is reproduced
  exactly when each file in it is in a record; `reproduces_protocol` is a run
  for which it is.
* `stale_descriptor`: a run with a record that names the wrong file.
-/

namespace CrashFuzz.Shim

open PosixPath FileTree

/-! ### Runs -/

/-- A session of calls whose records say what they do, with the files that are
in no record. -/
inductive Recorded (options : ReplayOptions) (p : Process) (disk : Disk) : Session → Finset ℕ → Prop
  | start : Recorded options p disk (Session.start disk) ∅
  | step {s s' : Session} {u : Finset ℕ} (call : Call) : Recorded options p disk s u →
      InScope options p s call → Faithful p s call → s.step p call = .ok s' →
      Recorded options p disk s' (unrecorded p s u call)

variable {options : ReplayOptions} {p : Process} {s s' : Session} {u : Finset ℕ}
  {store : Store} {image image' : Disk} {loc b c : List Chars} {path : String} {i fd : ℕ}

/-- A full call takes back no record and no payload. -/
lemma mono_of_step {call : Call} (hstep : s.step p call = .ok s') :
    s.events ⊆ s'.events ∧ s.cas ⊆ s'.cas := by
  cases call with
  | open_ path access creat trunc fd =>
      rw [Session.step, Session.open_, bind_eq_ok] at hstep
      obtain ⟨machine, -, heq⟩ := hstep
      cases heq
      split <;> simp
  | write fd payload =>
      rw [Session.step, Session.write, bind_eq_ok] at hstep
      obtain ⟨machine, -, heq⟩ := hstep
      cases heq
      split
      · simp
      · exact ⟨by simp, cas_subset_emitWrite⟩
  | pwrite fd payload offset =>
      rw [Session.step, Session.pwrite, bind_eq_ok] at hstep
      obtain ⟨machine, -, heq⟩ := hstep
      cases heq
      exact ⟨by simp, cas_subset_emitWrite⟩
  | writev fd buffers =>
      rw [Session.step, Session.writev, bind_eq_ok] at hstep
      obtain ⟨machine, -, heq⟩ := hstep
      cases heq
      split
      · exact ⟨by simp, cas_subset_emitWrite⟩
      · simp
  | ftruncate | truncate | mkdir | link | rename | unlink =>
      simp only [Session.step, Session.ftruncate, Session.truncate, Session.mkdir, Session.link,
        Session.rename, Session.unlink, bind_eq_ok] at hstep
      obtain ⟨machine, -, heq⟩ := hstep
      cases heq
      simp
  | close fd =>
      rw [Session.step, Session.close, bind_eq_ok] at hstep
      obtain ⟨machine, -, heq⟩ := hstep
      cases heq
      split <;> simp

/-- The run lemma: the replay of a whole recording mirrors the live tree. -/
lemma Recorded.follows {disk : Disk} (hrec : Recorded options p disk s u)
    (hdisk : EmptyDir options.root disk) (himage : EmptyDir options.target image)
    (hstore : Keeps options store s.cas) : Follows options store image s u := by
  induction hrec with
  | start =>
      refine ⟨List.Pairwise.nil, by simp [Session.events, Session.start],
        by simp [Session.events, Session.start], by simp [Session.start], id, image, rfl, ?_⟩
      exact Mirrors.start hdisk.wf himage.wf hdisk.dir himage.dir hdisk.empty himage.empty
  | step call hrec hscope hfaithful hstep ih =>
      have hkeeps := fun entry hentry => hstore entry ((mono_of_step hstep).2 hentry)
      exact (ih hkeeps).step hscope hfaithful hstep hstore

/-- **Capture, then replay**: after every run of calls whose records say what
they did, the parsed trace replays without an error into an empty directory.
What it leaves there looks like the tree below `rootDir` exactly when each file
in that tree was, after the `open` that made it, the operand of a record. -/
theorem reproduces {disk : Disk} {parseLine : String → Except Thrown RawRecord}
    (hrec : Recorded options p disk s u) (hdisk : EmptyDir options.root disk)
    (himage : EmptyDir options.target image)
    (hplain : ∀ line ∈ headerLine p :: s.lines, line.Plain)
    (hread : ∀ line ∈ headerLine p :: s.lines, line.Plain →
      parseLine line.text = .ok line.record)
    (hstore : Keeps options store s.cas) :
    ∃ trace image', parseTrace parseLine (s.traceText p) = .ok trace ∧
      runCalls options.cwd.toList store image (replayTrace options trace) = .ok image' ∧
      (SameTree options.root options.target s.disk image' ↔
        ∀ i, Named options.root s.disk i → i ∉ u) := by
  have hfollows := hrec.follows hdisk himage hstore
  obtain ⟨m, image', hrun, hmirrors⟩ := hfollows.mirrored
  obtain ⟨trace, htrace, hevents⟩ := parseTrace_traceText hplain hread
    (hfollows.ascending.imp le_of_lt)
  have hcalls : (s.events.flatMap fun e =>
      if e.returnValue < 0 then [] else applySelected options e none) =
        s.events.flatMap fun e => applySelected options e none :=
    List.flatMap_congr fun e he => if_neg (not_lt.mpr (hfollows.succeeded e he))
  refine ⟨trace, image', htrace, ?_, hmirrors.sameTree_iff⟩
  rw [replayTrace, himage.runCalls_cons, hevents, hcalls, hrun]

/-! ### A run that is reproduced, and one that is not -/

/-- The session after some calls; one that fails changes nothing. -/
def Session.after (p : Process) (s : Session) (calls : List Call) : Session :=
  calls.foldl (fun s call => (s.step p call).toOption.getD s) s

lemma eq_ok_getD {α : Type} {x : Except Errno α} {a : α} (h : x.isOk = true) :
    x = .ok (x.toOption.getD a) := by
  cases x with
  | ok b => rfl
  | error e => simp [Except.isOk, Except.toBool] at h

/-- A run of calls that all succeed. -/
lemma foldlM_step {calls : List Call} (hok : (calls.foldlM (Session.step p) s).isOk = true) :
    calls.foldlM (Session.step p) s = .ok (s.after p calls) := by
  induction calls generalizing s with
  | nil => rfl
  | cons call calls ih =>
      rw [List.foldlM_cons] at hok ⊢
      rw [Session.after, List.foldl_cons]
      cases hstep : s.step p call with
      | ok s' =>
          rw [hstep] at hok
          exact ih hok
      | error e => simp [hstep, bind, Except.bind, Except.isOk, Except.toBool] at hok

/-- One more call that succeeds. -/
lemma Recorded.snoc {disk : Disk} {calls : List Call} (call : Call)
    (hrec : Recorded options p disk ((Session.start disk).after p calls) u)
    (hscope : InScope options p ((Session.start disk).after p calls) call)
    (hfaithful : Faithful p ((Session.start disk).after p calls) call)
    (hok : (((Session.start disk).after p calls).step p call).isOk = true) :
    Recorded options p disk ((Session.start disk).after p (calls ++ [call]))
      (unrecorded p ((Session.start disk).after p calls) u call) := by
  refine hrec.step call hscope hfaithful ?_
  rw [eq_ok_getD hok, Session.after, Session.after, List.foldl_append]
  rfl

/-- A reader of some lines, whose first characters tell them apart. -/
def readBack (lines : List Line) (text : String) : Except Thrown RawRecord :=
  match lines.find? (·.text = text) with
  | some line => .ok line.record
  | none => .error .syntaxError

lemma readBack_text {lines : List Line} {line : Line}
    (hnodup : (lines.map fun line => line.chars.take 22).Nodup)
    (hmem : line ∈ lines) : readBack lines line.text = .ok line.record := by
  have hfind : lines.find? (·.text = line.text) = some line := by
    cases hfind : lines.find? (·.text = line.text) with
    | none => exact absurd hmem fun hmem => by simpa using List.find?_eq_none.mp hfind line hmem
    | some other =>
        have htext : other.text = line.text := by simpa using List.find?_some hfind
        have hchars : other.chars.take 22 = line.chars.take 22 := by
          rw [String.ofList_injective htext]
        rw [List.inj_on_of_nodup_map hnodup (List.mem_of_find?_eq_some hfind) hmem hchars]
  rw [readBack, hfind]

/-- The store that replay finds. -/
def storeOf (options : ReplayOptions) (cas : List (String × List UInt8)) : Store := fun object =>
  (cas.find? fun entry => join options.casDir.toList entry.1.toList = object).map (·.2)

instance (payload : List UInt8) : Decidable (s.Distinct p payload) :=
  inferInstanceAs (Decidable (∀ entry ∈ s.cas, _))

/-- Options of a replay of `/live` into `/image`. -/
def captureOptions : ReplayOptions := ⟨"/cas", "/live", "/image", "/"⟩

/-- A process that writes `a` and `b`. -/
def liveProcess : Process where
  pid := 7
  tid := 7
  cwd := "/live"
  sha256 := fun payload =>
    if payload = [97] then "ca978112ca1bbdcafac231b39a23dc4da786eff8147c4e72b9807785afee48bb"
    else "3e23e8160039594a33894f6564e1b1348bbd7a0088d42c4acb73eeaed59c009d"
  wallTime := fun completion => completion

/-- An empty `/live`. -/
def liveDisk : Disk := freshDisk "live".toList

/-- A file is written under a temporary name and moved into a new directory. -/
def protocolSession : Session := (Session.start liveDisk).after liveProcess
  [.open_ "/live/f.tmp" .readWrite true true 3, .write 3 [97], .pwrite 3 [98] 1, .close 3,
    .mkdir "d", .rename "f.tmp" "d/f"]

lemma recorded_protocol : Recorded captureOptions liveProcess liveDisk protocolSession ∅ := by
  have hown : ∀ s : Session, (∃ i position access, s.fds 3 = some (.file i position access) ∧
      s.disk.node (PosixPath.resolve liveProcess.cwd.toList (s.fdPaths 3).toList) =
        some (.file i)) → s.NamesOwn liveProcess 3 := fun s h => ⟨by decide, h⟩
  have h₀ : Recorded captureOptions liveProcess liveDisk
      ((Session.start liveDisk).after liveProcess []) ∅ := .start
  have h₁ := h₀.snoc (.open_ "/live/f.tmp" .readWrite true true 3) ⟨by decide, by decide⟩
    (fun _ i hi => absurd (hi.symm.trans (by decide : _ = none)) (by simp)) (by decide +kernel)
  have h₂ := h₁.snoc (.write 3 [97]) (show Session.Distinct _ _ _ by decide +kernel)
    ⟨by decide +kernel, hown _ ⟨0, 0, .readWrite, by decide +kernel, by decide +kernel⟩⟩
    (by decide +kernel)
  have h₃ := h₂.snoc (.pwrite 3 [98] 1) (show Session.Distinct _ _ _ by decide +kernel)
    (hown _ ⟨0, 1, .readWrite, by decide +kernel, by decide +kernel⟩) (by decide +kernel)
  have h₄ := h₃.snoc (.close 3) trivial trivial (by decide +kernel)
  have h₅ := h₄.snoc (.mkdir "d") ⟨by decide, by decide⟩ trivial (by decide +kernel)
  have h₆ := h₅.snoc (.rename "f.tmp" "d/f") ⟨⟨by decide, by decide⟩, by decide, by decide⟩
    ⟨0, by decide +kernel⟩ (by decide +kernel)
  convert h₆ using 1
  · rfl
  · decide +kernel

/-- Its replay leaves the same tree. -/
theorem reproduces_protocol : ∃ trace image',
    parseTrace (readBack (headerLine liveProcess :: protocolSession.lines))
      (protocolSession.traceText liveProcess) = .ok trace ∧
    runCalls captureOptions.cwd.toList (storeOf captureOptions protocolSession.cas)
      (freshDisk "image".toList) (replayTrace captureOptions trace) = .ok image' ∧
    SameTree captureOptions.root captureOptions.target protocolSession.disk image' := by
  have hroot : EmptyDir captureOptions.root liveDisk := by
    rw [show captureOptions.root = ["live".toList] by decide]
    exact emptyDir_freshDisk _
  have htarget : EmptyDir captureOptions.target (freshDisk "image".toList) := by
    rw [show captureOptions.target = ["image".toList] by decide]
    exact emptyDir_freshDisk _
  have hnodup : ((headerLine liveProcess :: protocolSession.lines).map
      fun line => line.chars.take 22).Nodup := by
    decide +kernel
  have hstore : Keeps captureOptions (storeOf captureOptions protocolSession.cas)
      protocolSession.cas := by
    unfold Keeps
    decide +kernel
  obtain ⟨trace, image', htrace, hrun, hsame⟩ := reproduces recorded_protocol hroot htarget
    (by decide +kernel) (fun line hline _ => readBack_text hnodup hline) hstore
  exact ⟨trace, image', htrace, hrun, hsame.mpr fun i _ => Finset.notMem_empty i⟩

/-- A file is renamed while a descriptor on it stays open, and written again. -/
def staleCalls : List Call :=
  [.open_ "/live/f.tmp" .readWrite true true 3, .write 3 [97], .rename "f.tmp" "f", .write 3 [98],
    .close 3]

def staleSession : Session := (Session.start liveDisk).after liveProcess staleCalls

/-- What its replay leaves. -/
def staleImage : Disk :=
  (runCalls captureOptions.cwd.toList (storeOf captureOptions staleSession.cas)
    (freshDisk "image".toList) (replayTrace captureOptions
      ⟨⟨traceVersion, 7⟩, staleSession.events, []⟩)).toOption.getD (freshDisk "image".toList)

/-- The second write is recorded under the path the descriptor was opened with,
where replay makes another file. -/
theorem stale_descriptor :
    staleCalls.foldlM (Session.step liveProcess) (Session.start liveDisk) = .ok staleSession ∧
    (∃ trace, parseTrace (readBack (headerLine liveProcess :: staleSession.lines))
        (staleSession.traceText liveProcess) = .ok trace ∧
      runCalls captureOptions.cwd.toList (storeOf captureOptions staleSession.cas)
        (freshDisk "image".toList) (replayTrace captureOptions trace) = .ok staleImage) ∧
    staleSession.disk.contents ["live".toList, "f".toList] = some (some [97, 98]) ∧
    staleImage.contents ["image".toList, "f".toList] = some (some [97]) ∧
    staleSession.disk.contents ["live".toList, "f.tmp".toList] = none ∧
    staleImage.contents ["image".toList, "f.tmp".toList] = some (some [0, 98]) ∧
    ¬ SameTree captureOptions.root captureOptions.target staleSession.disk staleImage := by
  have hnodup : ((headerLine liveProcess :: staleSession.lines).map
      fun line => line.chars.take 22).Nodup := by
    decide +kernel
  have hasc : staleSession.events.Pairwise (·.index ≤ ·.index) := by decide +kernel
  obtain ⟨trace, htrace, hevents⟩ := parseTrace_traceText (p := liveProcess) (s := staleSession)
    (by decide +kernel) (fun line hline _ => readBack_text hnodup hline) hasc
  have hreplay : replayTrace captureOptions trace =
      replayTrace captureOptions ⟨⟨traceVersion, 7⟩, staleSession.events, []⟩ := by
    rw [replayTrace, hevents]
    rfl
  have hlive : staleSession.disk.contents ["live".toList, "f.tmp".toList] = none := by
    decide +kernel
  have himages : staleImage.contents ["image".toList, "f".toList] = some (some [97]) ∧
      staleImage.contents ["image".toList, "f.tmp".toList] = some (some [0, 98]) := by
    decide +kernel
  obtain ⟨himage, himage'⟩ := himages
  refine ⟨foldlM_step (by decide +kernel), ⟨trace, htrace, ?_⟩, by decide +kernel, himage, hlive,
    himage', fun h => ?_⟩
  · rw [hreplay]
    exact eq_ok_getD (by decide +kernel)
  · have hsame := h ["f.tmp".toList]
    rw [show captureOptions.root ++ ["f.tmp".toList] = ["live".toList, "f.tmp".toList] by decide,
      show captureOptions.target ++ ["f.tmp".toList] = ["image".toList, "f.tmp".toList] by decide,
      hlive, himage'] at hsame
    cases hsame

end CrashFuzz.Shim
