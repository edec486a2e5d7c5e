import Mathlib.Data.List.Sort
import CrashFuzz.Lib.PosixPath

/-!
Reader for trace format v1 (`core/src/trace/reader.ts`).

* `CallName`, `TraceEvent`, `TraceMarker`, `Trace`: the data the shim records.
* `parseTrace`: one JSON record per non-blank line, a header of the supported
  version, then events and markers, each sorted by submission stamp. Reading
  one line (`JSON.parse` and the field reads of `toEvent`) is the parameter
  `parseLine`, so that what is proved here holds for any line reader.
* `joinLines`: lines as they are written; they are found again.
* `Trace.WellStamped`: what the stamps of a captured trace promise; the events of a
  parsed trace with unique stamps are sorted so (`parseTrace_strictSorted`).
-/

namespace CrashFuzz

/-- `CallName`: the calls the shim records, normalized across symbol variants. -/
inductive CallName where
  | open_ | close | write | pwrite | writev | fsync | fdatasync | syncFileRange
  | ftruncate | truncate | mkdir | unlink | link | rename
  deriving DecidableEq, Repr

/-- `TraceEvent`. -/
structure TraceEvent where
  /-- Stamp taken before the call was issued. -/
  index : ℕ
  /-- Stamp taken after the call returned. -/
  completionIndex : ℕ
  call : CallName
  fd : ℤ
  threadId : ℤ
  path : String
  /-- Destination operand of rename and link, empty otherwise. -/
  path2 : String
  offset : ℤ
  length : ℕ
  returnValue : ℤ
  errno : ℤ
  /-- SHA-256 of the payload, empty for calls that carry none. -/
  digest : String
  deriving DecidableEq, Repr

/-- `TraceMarker`. -/
structure TraceMarker where
  index : ℕ
  threadId : ℤ
  text : String
  deriving DecidableEq, Repr

/-- The header record of a trace. -/
structure TraceHeader where
  version : ℕ
  pid : ℤ
  deriving DecidableEq, Repr

/-- `Trace`. -/
structure Trace where
  header : TraceHeader
  events : List TraceEvent
  markers : List TraceMarker
  deriving DecidableEq, Repr

/-- What a TypeScript function throws instead of returning. -/
inductive Thrown where
  /-- A property read off `undefined`. -/
  | typeError
  /-- `JSON.parse` rejecting its input. -/
  | syntaxError
  /-- `throw new Error(message)`. -/
  | error (message : String)
  deriving DecidableEq, Repr

/-- `TRACE_VERSION`. -/
def traceVersion : ℕ := 1

/-- One parsed line of a trace, told apart by its `rec` field. -/
inductive RawRecord where
  | header (h : TraceHeader)
  | event (e : TraceEvent)
  | marker (m : TraceMarker)
  | other
  deriving DecidableEq, Repr

namespace RawRecord

def header? : RawRecord → Option TraceHeader
  | header h => some h
  | _ => none

def event? : RawRecord → Option TraceEvent
  | event e => some e
  | _ => none

def marker? : RawRecord → Option TraceMarker
  | marker m => some m
  | _ => none

end RawRecord

/-- The white space and line terminators `String.prototype.trim` removes. -/
def isTrimmed (c : Char) : Bool :=
  c.toNat ∈ [0x9, 0xa, 0xb, 0xc, 0xd, 0x20, 0xa0, 0x1680, 0x2028, 0x2029, 0x202f, 0x205f,
    0x3000, 0xfeff] || (0x2000 ≤ c.toNat && c.toNat ≤ 0x200a)

/-- The lines of `text` with `line.trim() !== ''`. -/
def nonBlankLines (text : String) : List String :=
  ((text.toList.splitOn '\n').filter fun line => !line.all isTrimmed).map String.ofList

/-- Lines as they are written, with a line break at the end. -/
def joinLines (lines : List String) : String :=
  String.ofList (['\n'].intercalate (lines.map String.toList) ++ ['\n'])

/-- A line that was found has no line break and is not blank. -/
lemma of_mem_nonBlankLines {text line : String} (h : line ∈ nonBlankLines text) :
    '\n' ∉ line.toList ∧ line.toList.all isTrimmed = false := by
  obtain ⟨cs, hcs, rfl⟩ := List.mem_map.mp h
  obtain ⟨hmem, hblank⟩ := List.mem_filter.mp hcs
  rw [String.toList_ofList]
  exact ⟨PosixPath.notMem_of_mem_splitOn hmem, by simpa using hblank⟩

/-- Lines that were joined are found again. -/
lemma nonBlankLines_joinLines {lines : List String}
    (h : ∀ line ∈ lines, '\n' ∉ line.toList ∧ line.toList.all isTrimmed = false) :
    nonBlankLines (joinLines lines) = lines := by
  rw [nonBlankLines, joinLines, String.toList_ofList, List.splitOn_append_cons_self,
    List.splitOn_nil]
  rcases lines with _ | ⟨line, lines⟩
  · rfl
  · have hsplit : (['\n'].intercalate ((line :: lines).map String.toList)).splitOn '\n' =
        (line :: lines).map String.toList := by
      refine List.splitOn_intercalate '\n' (fun l hl => ?_) (by simp)
      obtain ⟨x, hx, rfl⟩ := List.mem_map.mp hl
      exact (h x hx).1
    have hkeep : ∀ l ∈ (line :: lines).map String.toList, (!l.all isTrimmed) = true := by
      intro l hl
      obtain ⟨x, hx, rfl⟩ := List.mem_map.mp hl
      simp [(h x hx).2]
    rw [hsplit, List.filter_append, List.filter_eq_self.mpr hkeep]
    simp

/-- The part of `parseTrace` after the lines were read. -/
def parseRecords (records : List RawRecord) : Except Thrown Trace :=
  match records.findSome? RawRecord.header? with
  | none => .error (.error "trace has no header record")
  | some header =>
      if header.version ≠ traceVersion then
        .error (.error
          s!"trace version {header.version} is not supported (expected {traceVersion})")
      else
        .ok
          { header := header
            events := (records.filterMap RawRecord.event?).insertionSort (·.index ≤ ·.index)
            markers := (records.filterMap RawRecord.marker?).insertionSort (·.index ≤ ·.index) }

/-- `parseTrace`: segments of different processes interleave, so the records
are sorted by submission stamp. -/
def parseTrace (parseLine : String → Except Thrown RawRecord) (text : String) :
    Except Thrown Trace := do
  let records ← (nonBlankLines text).mapM parseLine
  parseRecords records

/-- Reading lines one by one. -/
lemma mapM_ok_iff {parseLine : String → Except Thrown RawRecord} {lines : List String}
    {records : List RawRecord} : lines.mapM parseLine = .ok records ↔
      List.Forall₂ (fun line record => parseLine line = .ok record) lines records := by
  induction lines generalizing records with
  | nil =>
      rw [List.mapM_nil, List.forall₂_nil_left_iff]
      exact ⟨fun h => (Except.ok.inj h).symm, fun h => h ▸ rfl⟩
  | cons line lines ih =>
      rw [List.mapM_cons, List.forall₂_cons_left_iff]
      constructor
      · intro h
        cases hline : parseLine line with
        | error e =>
            rw [hline] at h
            cases h
        | ok record =>
            rw [hline] at h
            cases hlines : lines.mapM parseLine with
            | error e =>
                rw [hlines] at h
                cases h
            | ok rest =>
                rw [hlines] at h
                exact ⟨record, rest, rfl, ih.mp hlines, (Except.ok.inj h).symm⟩
      · rintro ⟨record, rest, hline, hlines, rfl⟩
        rw [hline, ih.mpr hlines]
        rfl

/-! ### The stamps of a trace -/

/-- What the stamps of a captured trace promise: events come strictly sorted
by submission stamp, and every call completed after it was submitted. -/
structure Trace.WellStamped (trace : Trace) : Prop where
  sorted : trace.events.Pairwise (·.index < ·.index)
  completed : ∀ e ∈ trace.events, e.index < e.completionIndex

/-- What an accepted list of records became. -/
lemma parseRecords_ok {records : List RawRecord} {trace : Trace}
    (h : parseRecords records = .ok trace) :
    trace.events = (records.filterMap RawRecord.event?).insertionSort (·.index ≤ ·.index) ∧
      trace.markers = (records.filterMap RawRecord.marker?).insertionSort (·.index ≤ ·.index) := by
  rw [parseRecords] at h
  split at h
  · cases h
  · split at h
    · cases h
    · cases h
      exact ⟨rfl, rfl⟩

lemma parseTrace_ok {parseLine : String → Except Thrown RawRecord} {text : String}
    {trace : Trace} (h : parseTrace parseLine text = .ok trace) :
    ∃ records, (nonBlankLines text).mapM parseLine = .ok records ∧
      parseRecords records = .ok trace := by
  rw [parseTrace] at h
  cases hread : (nonBlankLines text).mapM parseLine with
  | error e => rw [hread] at h; cases h
  | ok records => rw [hread] at h; exact ⟨records, rfl, h⟩

/-- The records of a parsed trace come sorted by stamp. -/
lemma parseTrace_sorted {parseLine : String → Except Thrown RawRecord} {text : String}
    {trace : Trace} (h : parseTrace parseLine text = .ok trace) :
    trace.events.Pairwise (·.index ≤ ·.index) ∧ trace.markers.Pairwise (·.index ≤ ·.index) := by
  obtain ⟨records, -, hrec⟩ := parseTrace_ok h
  obtain ⟨hev, hmk⟩ := parseRecords_ok hrec
  have hE : Std.Total (fun a b : TraceEvent => a.index ≤ b.index) := ⟨fun a b => le_total _ _⟩
  have hE' : IsTrans TraceEvent (fun a b => a.index ≤ b.index) := ⟨fun _ _ _ => le_trans⟩
  have hM : Std.Total (fun a b : TraceMarker => a.index ≤ b.index) := ⟨fun a b => le_total _ _⟩
  have hM' : IsTrans TraceMarker (fun a b => a.index ≤ b.index) := ⟨fun _ _ _ => le_trans⟩
  rw [hev, hmk]
  exact ⟨List.pairwise_insertionSort _ _, List.pairwise_insertionSort _ _⟩

/-- With unique submission stamps the events of a parsed trace are strictly
sorted. -/
lemma parseTrace_strictSorted {parseLine : String → Except Thrown RawRecord} {text : String}
    {trace : Trace} (h : parseTrace parseLine text = .ok trace)
    (hunique : (trace.events.map (·.index)).Nodup) : trace.events.Pairwise (·.index < ·.index) := by
  have hne : trace.events.Pairwise (fun a b => a.index ≠ b.index) := List.pairwise_map.mp hunique
  exact ((parseTrace_sorted h).1.and hne).imp fun hab => lt_of_le_of_ne hab.1 hab.2

/-- Two entries of a strictly sorted list with one key are one. -/
lemma eq_of_key_eq {α : Type} (key : α → ℕ) {xs : List α}
    (h : xs.Pairwise (fun a b => key a < key b)) {a b : α} (ha : a ∈ xs) (hb : b ∈ xs)
    (hab : key a = key b) : a = b := by
  obtain ⟨i, hi, rfl⟩ := List.getElem_of_mem ha
  obtain ⟨j, hj, rfl⟩ := List.getElem_of_mem hb
  rcases Nat.lt_trichotomy i j with hlt | heq | hgt
  · exact absurd hab (List.pairwise_iff_getElem.mp h i j hi hj hlt).ne
  · subst heq
    rfl
  · exact absurd hab (List.pairwise_iff_getElem.mp h j i hj hi hgt).ne'

/-- In a well-stamped trace, earlier stamps stand at earlier positions. -/
lemma Trace.WellStamped.lt_of_index_lt {trace : Trace} (h : trace.WellStamped) {i j : ℕ}
    {a b : TraceEvent} (ha : trace.events[i]? = some a) (hb : trace.events[j]? = some b)
    (hab : a.index < b.index) : i < j := by
  obtain ⟨hi, rfl⟩ := List.getElem?_eq_some_iff.mp ha
  obtain ⟨hj, rfl⟩ := List.getElem?_eq_some_iff.mp hb
  rcases Nat.lt_trichotomy i j with hlt | heq | hgt
  · exact hlt
  · subst heq
    exact absurd hab (lt_irrefl _)
  · exact absurd (List.pairwise_iff_getElem.mp h.sorted j i hj hi hgt) (by omega)

/-- An event of a call at stamps `2 i` and `2 i + 1` that returned `0`. -/
def callAt (i : ℕ) (call : CallName) (path : String) : TraceEvent where
  index := 2 * i
  completionIndex := 2 * i + 1
  call := call
  fd := 3
  threadId := 1
  path := path
  path2 := ""
  offset := 0
  length := 0
  returnValue := 0
  errno := 0
  digest := ""

end CrashFuzz
