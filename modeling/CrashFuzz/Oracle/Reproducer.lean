import CrashFuzz.Trace.ReadLine

/-!
The trace of a packaged finding (`core/src/oracle/reproducer.ts`).

* `tracePrefix`: the lines of a trace up to a crash point, with as many events
  as there are up to it.
* `keptLines_spec`: what is kept of the records, by induction over the lines.
* `tracePrefix_iff`: the packaged trace is the run up to the crash exactly when
  the first events of the file are the first ones by stamp, and no marker comes
  after the crash.
-/

namespace CrashFuzz

variable (parseLine : String → Except Thrown RawRecord)

/-- The loop of `tracePrefix`, after it saw some events. -/
def keptLines (crashPoint : ℕ) : ℕ → List String → Except Thrown (List String)
  | _, [] => .ok []
  | events, line :: lines => do
      let record ← parseLine line
      if record.event?.isSome then
        if events > crashPoint then keptLines crashPoint events lines
        else
          let kept ← keptLines crashPoint (events + 1) lines
          pure (line :: kept)
      else
        let kept ← keptLines crashPoint events lines
        pure (line :: kept)

/-- `tracePrefix`: all records but the events after the first `crashPoint + 1`. -/
def tracePrefix (text : String) (crashPoint : ℕ) : Except Thrown String := do
  let kept ← keptLines parseLine crashPoint 0 (nonBlankLines text)
  pure (joinLines kept)

/-- The events of a trace in the order of the file. -/
def fileEvents (text : String) : List TraceEvent :=
  (nonBlankLines text).filterMap fun line => (parseLine line).toOption.bind RawRecord.event?

variable {parseLine}

/-! ### What is kept -/

/-- The first `n` events are kept, and every other record. -/
structure Keeps (parseLine : String → Except Thrown RawRecord) (n : ℕ) (lines : List String)
    (records : List RawRecord) (kept : List String) (keptRecords : List RawRecord) : Prop where
  subset : kept ⊆ lines
  read : kept.mapM parseLine = .ok keptRecords
  events : keptRecords.filterMap RawRecord.event? = (records.filterMap RawRecord.event?).take n
  markers : keptRecords.filterMap RawRecord.marker? = records.filterMap RawRecord.marker?
  header : keptRecords.findSome? RawRecord.header? = records.findSome? RawRecord.header?

namespace Keeps

variable {n : ℕ} {lines kept : List String} {records keptRecords : List RawRecord} {line : String}

lemma mapM_cons {record : RawRecord} (h : Keeps parseLine n lines records kept keptRecords)
    (hline : parseLine line = .ok record) :
    (line :: kept).mapM parseLine = .ok (record :: keptRecords) :=
  mapM_ok_iff.mpr (.cons hline (mapM_ok_iff.mp h.read))

/-- One more event is kept. -/
lemma event {e : TraceEvent} (h : Keeps parseLine n lines records kept keptRecords)
    (hline : parseLine line = .ok (.event e)) :
    Keeps parseLine (n + 1) (line :: lines) (.event e :: records) (line :: kept)
      (.event e :: keptRecords) where
  subset := List.cons_subset_cons line h.subset
  read := h.mapM_cons hline
  events := congrArg (e :: ·) h.events
  markers := h.markers
  header := h.header

/-- One event too many is not. -/
lemma skip {e : TraceEvent} (h : Keeps parseLine 0 lines records kept keptRecords) :
    Keeps parseLine 0 (line :: lines) (.event e :: records) kept keptRecords where
  subset := List.subset_cons_of_subset line h.subset
  read := h.read
  events := h.events
  markers := h.markers
  header := h.header

/-- Other records are kept. -/
lemma other {record : RawRecord} (h : Keeps parseLine n lines records kept keptRecords)
    (hline : parseLine line = .ok record) (hrecord : record.event? = none) :
    Keeps parseLine n (line :: lines) (record :: records) (line :: kept)
      (record :: keptRecords) where
  subset := List.cons_subset_cons line h.subset
  read := h.mapM_cons hline
  events := by
    rw [List.filterMap_cons_none hrecord, List.filterMap_cons_none hrecord]
    exact h.events
  markers := by
    rw [List.filterMap_cons, List.filterMap_cons, h.markers]
  header := by
    rw [List.findSome?_cons, List.findSome?_cons, h.header]

end Keeps

/-- One step of the loop, on a line that was read. -/
lemma keptLines_cons {crashPoint events : ℕ} {line : String} {lines : List String}
    {record : RawRecord} (hline : parseLine line = .ok record) :
    keptLines parseLine crashPoint events (line :: lines) =
      if record.event?.isSome then
        if events > crashPoint then keptLines parseLine crashPoint events lines
        else (keptLines parseLine crashPoint (events + 1) lines).map (line :: ·)
      else (keptLines parseLine crashPoint events lines).map (line :: ·) := by
  rw [keptLines, hline]
  rfl

/-- **What `tracePrefix` keeps**, after it saw some events: the next events up
to the bound, and every other record. -/
lemma keptLines_spec {crashPoint events : ℕ} {lines : List String} {records : List RawRecord}
    (h : lines.mapM parseLine = .ok records) :
    ∃ kept keptRecords, keptLines parseLine crashPoint events lines = .ok kept ∧
      Keeps parseLine (crashPoint + 1 - events) lines records kept keptRecords := by
  rw [mapM_ok_iff] at h
  induction h generalizing events with
  | nil => exact ⟨[], [], rfl, List.Subset.refl _, rfl, by simp, rfl, rfl⟩
  | @cons line record lines records hline hlines ih =>
      rw [keptLines_cons hline]
      cases hevent : record.event? with
      | some e =>
          obtain rfl : record = .event e := by
            cases record <;> cases hevent
            rfl
          rw [if_pos (by rfl)]
          by_cases hmany : events > crashPoint
          · obtain ⟨kept, keptRecords, hkept, hkeeps⟩ := @ih events
            have hzero : crashPoint + 1 - events = 0 := by omega
            rw [hzero] at hkeeps ⊢
            exact ⟨kept, keptRecords, by rw [if_pos hmany, hkept], hkeeps.skip⟩
          · obtain ⟨kept, keptRecords, hkept, hkeeps⟩ := @ih (events + 1)
            have hsucc : crashPoint + 1 - events = crashPoint + 1 - (events + 1) + 1 := by omega
            rw [hsucc]
            exact ⟨line :: kept, _, by rw [if_neg hmany, hkept]; rfl, hkeeps.event hline⟩
      | none =>
          obtain ⟨kept, keptRecords, hkept, hkeeps⟩ := @ih events
          exact ⟨line :: kept, record :: keptRecords, by rw [if_neg (by simp), hkept]; rfl,
            hkeeps.other hline hevent⟩

/-! ### The run up to the crash -/

/-- The events up to a position are those with stamps up to its own. -/
lemma mem_take_iff {events : List TraceEvent} (h : events.Pairwise (·.index < ·.index)) {k : ℕ}
    (hk : k < events.length) {e : TraceEvent} (he : e ∈ events) :
    e ∈ events.take (k + 1) ↔ e.index ≤ events[k].index := by
  obtain ⟨i, hi, rfl⟩ := List.getElem_of_mem he
  constructor
  · intro hmem
    obtain ⟨j, hj, hij⟩ := List.mem_take_iff_getElem.mp hmem
    rw [← hij]
    rcases (show j ≤ k by omega).eq_or_lt with rfl | hlt
    · exact le_rfl
    · exact (List.pairwise_iff_getElem.mp h j k (by omega) hk hlt).le
  · intro hle
    refine List.mem_take_iff_getElem.mpr ⟨i, ?_, rfl⟩
    by_contra hfar
    have hlt := List.pairwise_iff_getElem.mp h k i hk hi (by omega)
    omega

/-- Events in any order, sorted strictly: the first ones are the first ones by
stamp when none of them is later than those. -/
lemma insertionSort_take_iff {events sorted : List TraceEvent} (hperm : sorted.Perm events)
    (hsorted : sorted.Pairwise (·.index < ·.index)) {k : ℕ} (hk : k < sorted.length) :
    (events.take (k + 1)).insertionSort (·.index ≤ ·.index) = sorted.take (k + 1) ↔
      ∀ e ∈ events.take (k + 1), e.index ≤ sorted[k].index := by
  have hmem : ∀ e ∈ events.take (k + 1), e ∈ sorted := fun e he =>
    hperm.mem_iff.mpr (List.mem_of_mem_take he)
  constructor
  · intro heq e he
    have htake : e ∈ sorted.take (k + 1) := by
      rw [← heq]
      exact (List.perm_insertionSort _ _).mem_iff.mpr he
    exact (mem_take_iff hsorted hk (hmem e he)).mp htake
  · intro hle
    have hE : Std.Total (fun a b : TraceEvent => a.index ≤ b.index) := ⟨fun a b => le_total _ _⟩
    have hE' : IsTrans TraceEvent (fun a b => a.index ≤ b.index) := ⟨fun _ _ _ => le_trans⟩
    have hnodup : (events.take (k + 1)).Nodup := by
      have hstrict : sorted.Nodup := hsorted.imp fun hab he => by
        rw [he] at hab
        exact lt_irrefl _ hab
      exact (hperm.nodup_iff.mp hstrict).sublist (List.take_sublist _ _)
    have hsubset : events.take (k + 1) ⊆ sorted.take (k + 1) := fun e he =>
      (mem_take_iff hsorted hk (hmem e he)).mpr (hle e he)
    have hlength : (sorted.take (k + 1)).length ≤ (events.take (k + 1)).length := by
      rw [List.length_take, List.length_take, hperm.length_eq]
    have hsame := (List.subperm_of_subset hnodup hsubset).perm_of_length_le hlength
    refine ((List.perm_insertionSort _ _).trans hsame).eq_of_pairwise ?_
      (List.pairwise_insertionSort _ _)
      ((hsorted.imp le_of_lt).sublist (List.take_sublist _ _))
    intro a b ha hb hab hba
    exact eq_of_key_eq (·.index) hsorted (hmem a ((List.perm_insertionSort _ _).mem_iff.mp ha))
      (List.mem_of_mem_take hb) (le_antisymm hab hba)

variable {text : String} {trace : Trace}

lemma fileEvents_eq {records : List RawRecord}
    (h : (nonBlankLines text).mapM parseLine = .ok records) :
    fileEvents parseLine text = records.filterMap RawRecord.event? := by
  rw [mapM_ok_iff] at h
  rw [fileEvents]
  generalize nonBlankLines text = lines at h
  induction h with
  | nil => rfl
  | cons hline _ ih =>
      rw [List.filterMap_cons, List.filterMap_cons, hline, ih]
      rfl

/-- The events of a trace are those of its file. -/
lemma fileEvents_perm (h : parseTrace parseLine text = .ok trace) :
    trace.events.Perm (fileEvents parseLine text) := by
  obtain ⟨records, hread, hrecords⟩ := parseTrace_ok h
  rw [(parseRecords_ok hrecords).1, fileEvents_eq hread]
  exact List.perm_insertionSort _ _

/-- What the reader makes of a packaged trace: the first events of the file, and
all markers. -/
lemma parseTrace_tracePrefix (h : parseTrace parseLine text = .ok trace) (k : ℕ) :
    ∃ packaged cut, tracePrefix parseLine text k = .ok packaged ∧
      parseTrace parseLine packaged = .ok cut ∧
      cut.events = ((fileEvents parseLine text).take (k + 1)).insertionSort (·.index ≤ ·.index) ∧
      cut.markers = trace.markers := by
  obtain ⟨records, hread, hrecords⟩ := parseTrace_ok h
  obtain ⟨kept, keptRecords, hkept, hkeeps⟩ := @keptLines_spec parseLine k 0 _ _ hread
  have hlines : nonBlankLines (joinLines kept) = kept :=
    nonBlankLines_joinLines fun line hline => of_mem_nonBlankLines (hkeeps.subset hline)
  obtain ⟨-, hmarkers⟩ := parseRecords_ok hrecords
  obtain ⟨cut, hcut⟩ : ∃ cut, parseRecords keptRecords = .ok cut := by
    rw [parseRecords] at hrecords ⊢
    rw [hkeeps.header]
    split at hrecords
    · cases hrecords
    · split at hrecords
      · cases hrecords
      · rename_i hversion
        exact ⟨_, if_neg hversion⟩
  obtain ⟨hcutEvents, hcutMarkers⟩ := parseRecords_ok hcut
  refine ⟨joinLines kept, cut, ?_, ?_, ?_, ?_⟩
  · rw [tracePrefix, hkept]
    rfl
  · rw [parseTrace, hlines, hkeeps.read]
    exact hcut
  · rw [hcutEvents, hkeeps.events, fileEvents_eq hread]
    rfl
  · rw [hcutMarkers, hkeeps.markers, hmarkers]

/-- **When a packaged trace is the run up to the crash**: it has exactly the
events up to the crash point and the markers up to its stamp if the first
events of the file are those, and no marker comes after the crash. -/
theorem tracePrefix_iff (h : parseTrace parseLine text = .ok trace)
    (hunique : (trace.events.map (·.index)).Nodup) {k : ℕ} (hk : k < trace.events.length) :
    (∃ packaged cut, tracePrefix parseLine text k = .ok packaged ∧
      parseTrace parseLine packaged = .ok cut ∧
      cut.events = trace.events.take (k + 1) ∧
      cut.markers = trace.markers.filter (·.index ≤ trace.events[k].index)) ↔
    (∀ e ∈ (fileEvents parseLine text).take (k + 1), e.index ≤ trace.events[k].index) ∧
      ∀ m ∈ trace.markers, m.index ≤ trace.events[k].index := by
  obtain ⟨packaged, cut, hpackaged, hcut, hevents, hmarkers⟩ := parseTrace_tracePrefix h k
  have hsorted := parseTrace_strictSorted h hunique
  have hfilter : trace.markers = trace.markers.filter (·.index ≤ trace.events[k].index) ↔
      ∀ m ∈ trace.markers, m.index ≤ trace.events[k].index := by
    rw [eq_comm, List.filter_eq_self]
    simp
  rw [← insertionSort_take_iff (fileEvents_perm h) hsorted hk, ← hfilter, ← hevents]
  constructor
  · rintro ⟨packaged', cut', hpackaged', hcut', hevents', hmarkers'⟩
    obtain rfl : packaged = packaged' := Except.ok.inj (hpackaged.symm.trans hpackaged')
    obtain rfl : cut = cut' := Except.ok.inj (hcut.symm.trans hcut')
    exact ⟨hevents', hmarkers.symm.trans hmarkers'⟩
  · rintro ⟨hevents', hmarkers'⟩
    exact ⟨packaged, cut, hpackaged, hcut, hevents', hmarkers.trans hmarkers'⟩

/-! ### Calls that overlap -/

/-- A write of three bytes by a thread. -/
def writtenBy (threadId : ℤ) (index completionIndex : ℕ) : TraceEvent where
  index := index
  completionIndex := completionIndex
  call := .write
  fd := 3
  threadId := threadId
  path := "/d/a"
  path2 := ""
  offset := 0
  length := 3
  returnValue := 3
  errno := 0
  digest := "ab"

/-- Its record. -/
def writtenText (threadId : ℤ) (index completionIndex : ℕ) : String :=
  "\x7b\"rec\":\"event\",\"i\":" ++ toString index ++ ",\"j\":" ++ toString completionIndex ++
    ",\"call\":\"write\",\"fd\":3,\"tid\":" ++ toString threadId ++
    ",\"path\":\"/d/a\",\"path2\":\"\",\"off\":0,\"len\":3,\"ret\":3,\"err\":0,\"flags\":0," ++
    "\"t\":1,\"dig\":\"ab\"\x7d"

/-- Of two threads that write, the one that was first to issue its call was last
to see it return: its record comes last. -/
def overlappingLines : List String :=
  ["\x7b\"rec\":\"header\",\"v\":1,\"pid\":7\x7d", writtenText 9 1 2, writtenText 8 0 3]

/-- The trace of these records. -/
def overlappingTrace : Trace where
  header := ⟨1, 7⟩
  events := [writtenBy 8 0 3, writtenBy 9 1 2]
  markers := []

lemma overlapping_read : (nonBlankLines (joinLines overlappingLines)).mapM readLine =
    .ok [.header ⟨1, 7⟩, .event (writtenBy 9 1 2), .event (writtenBy 8 0 3)] := by
  have hlines : ∀ line ∈ overlappingLines,
      '\n' ∉ line.toList ∧ line.toList.all isTrimmed = false := by decide +kernel
  have hheader :
      readLine "\x7b\"rec\":\"header\",\"v\":1,\"pid\":7\x7d" = .ok (.header ⟨1, 7⟩) := by
    decide +kernel
  rw [nonBlankLines_joinLines hlines, mapM_ok_iff]
  exact .cons hheader (.cons (by decide +kernel) (.cons (by decide +kernel) .nil))

lemma overlapping_parse :
    parseTrace readLine (joinLines overlappingLines) = .ok overlappingTrace := by
  rw [parseTrace, overlapping_read]
  rfl

/-- With both writes packaged, the package is the run. -/
theorem overlapping_whole :
    ∃ packaged cut, tracePrefix readLine (joinLines overlappingLines) 1 = .ok packaged ∧
      parseTrace readLine packaged = .ok cut ∧ cut.events = overlappingTrace.events.take 2 ∧
      cut.markers = [] := by
  refine (tracePrefix_iff overlapping_parse (by decide) (k := 1) (by decide)).mpr
    ⟨?_, List.forall_mem_nil _⟩
  rw [fileEvents_eq overlapping_read]
  decide

/-- At the first write, the package holds the second one in its place. -/
theorem overlapping_first :
    parseTrace readLine (joinLines overlappingLines) = .ok overlappingTrace ∧
      ∃ packaged cut, tracePrefix readLine (joinLines overlappingLines) 0 = .ok packaged ∧
        parseTrace readLine packaged = .ok cut ∧
        overlappingTrace.events.take 1 = [writtenBy 8 0 3] ∧ cut.events = [writtenBy 9 1 2] := by
  obtain ⟨packaged, cut, hpackaged, hcut, hevents, -⟩ := parseTrace_tracePrefix overlapping_parse 0
  rw [fileEvents_eq overlapping_read] at hevents
  exact ⟨overlapping_parse, packaged, cut, hpackaged, hcut, rfl, hevents⟩

end CrashFuzz
