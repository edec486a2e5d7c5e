import CrashFuzz.Lib.Words
import CrashFuzz.Shim.Capture

/-!
The text of a trace, and what the reader makes of it.

* `Line.pieces`: a record as `emit_event`, `emit_marker` and the constructor of
  the interposer print it. Strings are printed as they are, without escapes.
* `Line.Plain`: the record fits its buffer, its strings need no escapes and its
  numbers are exact in JavaScript.
* `parseTrace_traceText`: a trace of plain records is read as it was recorded.
-/

namespace CrashFuzz.Shim

/-! ### Printing -/

/-- The name a call is recorded under. -/
def callText : CallName → String
  | .open_ => "open"
  | .close => "close"
  | .write => "write"
  | .pwrite => "pwrite"
  | .writev => "writev"
  | .fsync => "fsync"
  | .fdatasync => "fdatasync"
  | .syncFileRange => "sync_file_range"
  | .ftruncate => "ftruncate"
  | .truncate => "truncate"
  | .mkdir => "mkdir"
  | .unlink => "unlink"
  | .link => "link"
  | .rename => "rename"

/-- The pieces of a record, as they are printed one after the other. -/
def Line.pieces (line : Line) : List String :=
  match line.record with
  | .header h =>
      ["\x7b\"rec\":\"header\",\"v\":", toString h.version, ",\"pid\":", toString h.pid, "\x7d"]
  | .event e =>
      ["\x7b\"rec\":\"event\",\"i\":", toString e.index, ",\"j\":", toString e.completionIndex,
        ",\"call\":\"", callText e.call, "\",\"fd\":", toString e.fd, ",\"tid\":",
        toString e.threadId, ",\"path\":\"", e.path, "\",\"path2\":\"", e.path2, "\",\"off\":",
        toString e.offset, ",\"len\":", toString e.length, ",\"ret\":", toString e.returnValue,
        ",\"err\":", toString e.errno, ",\"flags\":", toString line.flags, ",\"t\":",
        toString line.time, ",\"dig\":\"", e.digest, "\"\x7d"]
  | .marker m =>
      ["\x7b\"rec\":\"marker\",\"i\":", toString m.index, ",\"tid\":", toString m.threadId,
        ",\"text\":\"", m.text, "\"\x7d"]
  | .other => []

/-- The characters of a record. -/
def Line.chars (line : Line) : List Char := line.pieces.flatMap String.toList

/-- A record as it is printed. -/
def Line.text (line : Line) : String := String.ofList line.chars

@[simp] lemma Line.toList_text (line : Line) : line.text.toList = line.chars :=
  String.toList_ofList

/-- The header of a trace. -/
def headerLine (p : Process) : Line := ⟨.header ⟨traceVersion, p.pid⟩, 0, 0⟩

/-- The lines of a trace, each of them ended. -/
def textOf (lines : List Line) : String :=
  String.ofList (lines.flatMap fun line => line.chars ++ ['\n'])

/-- The trace file of a session. -/
def Session.traceText (p : Process) (s : Session) : String := textOf (headerLine p :: s.lines)

/-! ### Plain records -/

/-- A string that stands for itself between quotes in JSON. -/
def PlainText (text : String) : Prop :=
  ∀ c ∈ text.toList, 0x20 ≤ c.toNat ∧ c ≠ '"' ∧ c ≠ '\\'

/-- A number that JavaScript represents exactly. -/
def SafeInteger (n : ℤ) : Prop := n.natAbs < 2 ^ 53

/-- The number of bytes of a record, with the end of its line. -/
def Line.size (line : Line) : ℕ := (line.chars.map Char.utf8Size).sum + 1

/-- A record that fits its buffer and says what it should. -/
def Line.Plain (line : Line) : Prop :=
  line.size < recordMax ∧
    match line.record with
    | .header h => SafeInteger h.pid
    | .event e => (PlainText e.path ∧ PlainText e.path2 ∧ PlainText e.digest) ∧
        SafeInteger e.index ∧ SafeInteger e.completionIndex ∧ SafeInteger e.fd ∧
        SafeInteger e.threadId ∧ SafeInteger e.offset ∧ SafeInteger e.length ∧
        SafeInteger e.returnValue
    | .marker m => PlainText m.text ∧ SafeInteger m.index ∧ SafeInteger m.threadId
    | .other => False

-- not by trying every character
instance (text : String) : Decidable (PlainText text) :=
  List.decidableBAll _ text.toList

instance (n : ℤ) : Decidable (SafeInteger n) := inferInstanceAs (Decidable (_ < _))

instance : DecidablePred Line.Plain := fun line =>
  match line with
  | ⟨.header _, _, _⟩ => inferInstanceAs (Decidable (_ ∧ _))
  | ⟨.event _, _, _⟩ => inferInstanceAs (Decidable (_ ∧ _))
  | ⟨.marker _, _, _⟩ => inferInstanceAs (Decidable (_ ∧ _))
  | ⟨.other, _, _⟩ => inferInstanceAs (Decidable (_ ∧ False))

/-- Every character is one that JSON allows in a string. -/
def Printable (text : List Char) : Prop := ∀ c ∈ text, 0x20 ≤ c.toNat

instance : DecidablePred Printable := fun text => List.decidableBAll _ text

lemma PlainText.printable {text : String} (h : PlainText text) : Printable text.toList :=
  fun c hc => (h c hc).1

lemma printable_nat (n : ℕ) : Printable (toString n).toList := by
  intro c hc
  rw [show toString n = n.repr from rfl, Nat.toList_repr] at hc
  have hdigit := Nat.isDigit_of_mem_toDigits (by decide) (by decide) hc
  rw [Char.isDigit, Bool.and_eq_true, decide_eq_true_eq, decide_eq_true_eq] at hdigit
  have hle : (48 : UInt32).toNat ≤ c.val.toNat := UInt32.le_iff_toNat_le.mp hdigit.1
  exact le_trans (by decide) hle

lemma printable_int (n : ℤ) : Printable (toString n).toList := by
  cases n with
  | ofNat n => exact printable_nat n
  | negSucc n =>
      intro c hc
      rw [show toString (Int.negSucc n) = "-" ++ toString (n + 1) from rfl, String.toList_append,
        List.mem_append] at hc
      rcases hc with hc | hc
      · obtain rfl : c = '-' := by simpa using hc
        decide
      · exact printable_nat _ c hc

lemma printable_callText (call : CallName) : Printable (callText call).toList := by
  cases call <;> decide

/-- All texts of a record need no escapes. -/
def Line.PlainTexts (line : Line) : Prop :=
  match line.record with
  | .header _ => True
  | .event e => PlainText e.path ∧ PlainText e.path2 ∧ PlainText e.digest
  | .marker m => PlainText m.text
  | .other => True

lemma Line.Plain.texts {line : Line} (h : line.Plain) : line.PlainTexts := by
  obtain ⟨-, h⟩ := h
  rw [Line.PlainTexts]
  cases hrec : line.record with
  | header => trivial
  | event e =>
      simp only [hrec] at h
      exact h.1
  | marker m =>
      simp only [hrec] at h
      exact h.1
  | other => trivial

/-- What is printed stays on one line. -/
lemma Line.PlainTexts.printable {line : Line} (h : line.PlainTexts) : Printable line.chars := by
  have hpieces : ∀ piece ∈ line.pieces, Printable piece.toList := by
    rw [Line.PlainTexts] at h
    rw [Line.pieces]
    cases hrec : line.record with
    | header header =>
        simp only [List.forall_mem_cons, printable_nat, printable_int]
        decide
    | event e =>
        simp only [hrec] at h
        simp only [List.forall_mem_cons, printable_nat, printable_int, printable_callText,
          h.1.printable, h.2.1.printable, h.2.2.printable]
        decide
    | marker m =>
        simp only [hrec] at h
        simp only [List.forall_mem_cons, printable_nat, printable_int, h.printable]
        decide
    | other => simp
  intro c hc
  obtain ⟨piece, hpiece, hc⟩ := List.mem_flatMap.mp hc
  exact hpieces piece hpiece c hc

lemma Line.PlainTexts.newline_notMem {line : Line} (h : line.PlainTexts) : '\n' ∉ line.chars :=
  fun hmem => absurd (h.printable _ hmem) (by decide)

/-- A record is not blank. -/
lemma Line.not_blank {line : Line} (h : line.record ≠ .other) :
    line.chars.all isTrimmed = false := by
  have hbrace : '\x7b' ∈ line.chars := by
    rw [Line.chars, Line.pieces]
    cases hrec : line.record with
    | header | event | marker => simp
    | other => exact absurd hrec h
  rw [List.all_eq_false]
  exact ⟨_, hbrace, by decide⟩

lemma Line.Plain.ne_other {line : Line} (h : line.Plain) : line.record ≠ .other := by
  intro hrec
  simpa [hrec] using h.2

/-! ### Reading -/

/-- The reader finds the lines again, if none of them is blank or more than one. -/
lemma nonBlankLines_textOf {lines : List Line}
    (h : ∀ line ∈ lines, '\n' ∉ line.chars ∧ line.chars.all isTrimmed = false) :
    nonBlankLines (textOf lines) = lines.map Line.text := by
  have hchars : ∀ l ∈ lines.map Line.chars, '\n' ∉ l ∧ (!l.all isTrimmed) = true := by
    rintro l hl
    obtain ⟨line, hline, rfl⟩ := List.mem_map.mp hl
    obtain ⟨hnewline, hblank⟩ := h line hline
    exact ⟨hnewline, by rw [hblank, Bool.not_false]⟩
  have htext : (textOf lines).toList = (lines.map Line.chars).flatMap (· ++ ['\n']) := by
    rw [textOf, String.toList_ofList, List.flatMap_map]
  rw [nonBlankLines, htext, Words.splitOn_flatMap_ended fun l hl => (hchars l hl).1,
    List.filter_append, List.filter_eq_self.mpr fun l hl => (hchars l hl).2, List.map_append,
    List.map_map]
  exact List.append_nil _

variable {p : Process} {s : Session} {parseLine : String → Except Thrown RawRecord}

/-- Reading lines one by one. -/
lemma mapM_text {lines : List Line}
    (hread : ∀ line ∈ lines, parseLine line.text = .ok line.record) :
    (lines.map Line.text).mapM parseLine = .ok (lines.map Line.record) := by
  rw [mapM_ok_iff, List.forall₂_map_left_iff, List.forall₂_map_right_iff, List.forall₂_same]
  exact hread

/-- The trace of some records. -/
def traceOf (p : Process) (lines : List Line) : Trace where
  header := ⟨traceVersion, p.pid⟩
  events := ((lines.map Line.record).filterMap RawRecord.event?).insertionSort (·.index ≤ ·.index)
  markers :=
    ((lines.map Line.record).filterMap RawRecord.marker?).insertionSort (·.index ≤ ·.index)

/-- Records that are read one by one make up their trace. -/
lemma parseTrace_textOf {lines : List Line}
    (hline : ∀ line ∈ headerLine p :: lines,
      '\n' ∉ line.chars ∧ line.chars.all isTrimmed = false)
    (hread : ∀ line ∈ headerLine p :: lines, parseLine line.text = .ok line.record) :
    parseTrace parseLine (textOf (headerLine p :: lines)) = .ok (traceOf p lines) := by
  rw [parseTrace, nonBlankLines_textOf hline, mapM_text hread]
  rfl

/-- **What the reader makes of a captured trace**: with plain records that it
reads one by one, the recorded events in their order. -/
theorem parseTrace_traceText (hplain : ∀ line ∈ headerLine p :: s.lines, line.Plain)
    (hread : ∀ line ∈ headerLine p :: s.lines, line.Plain →
      parseLine line.text = .ok line.record)
    (hasc : s.events.Pairwise (·.index ≤ ·.index)) :
    ∃ trace, parseTrace parseLine (s.traceText p) = .ok trace ∧ trace.events = s.events := by
  have hline : ∀ line ∈ headerLine p :: s.lines,
      '\n' ∉ line.chars ∧ line.chars.all isTrimmed = false := by
    intro line hline
    exact ⟨(hplain line hline).texts.newline_notMem, Line.not_blank (hplain line hline).ne_other⟩
  refine ⟨_, parseTrace_textOf hline fun line hline => hread line hline (hplain line hline), ?_⟩
  rw [traceOf, List.filterMap_map]
  exact hasc.insertionSort_eq

end CrashFuzz.Shim
