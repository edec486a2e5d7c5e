import CrashFuzz.Trace.ReadLine

/-!
The order of the lines of a trace (`core/src/trace/reader.ts`,
`docs/trace-format.md`).

* `headers`, `StampsUnique`: what the lines of a text hold.
* `parseTrace_eq_ok_iff`: what is accepted, and what it becomes.
* `insertionSort_eq_of_perm`: sorting by unique stamps forgets the order.
* `segment_order_iff`: when the order of the lines makes no difference and
  unsupported versions are rejected.
-/

namespace CrashFuzz

variable {parseLine : String → Except Thrown RawRecord} {text text' : String}
  {lines lines' : List String} {records records' : List RawRecord}

/-! ### The lines of a text -/

variable (parseLine) in
/-- The records of the lines that can be read. -/
def recordsOf (text : String) : List RawRecord :=
  (nonBlankLines text).filterMap fun line => (parseLine line).toOption

variable (parseLine) in
/-- The header records of a text. -/
def headers (text : String) : List TraceHeader :=
  (recordsOf parseLine text).filterMap RawRecord.header?

variable (parseLine) in
/-- A line that cannot be read. -/
def Unreadable (text : String) : Prop := ∃ line ∈ nonBlankLines text, ∃ e, parseLine line = .error e

variable (parseLine) in
/-- No two events of a text have one stamp, and no two markers. -/
structure StampsUnique (text : String) : Prop where
  events : (((recordsOf parseLine text).filterMap RawRecord.event?).map (·.index)).Nodup
  markers : (((recordsOf parseLine text).filterMap RawRecord.marker?).map (·.index)).Nodup

variable (parseLine) in
/-- The text is not accepted. -/
def Rejected (text : String) : Prop := ∃ e, parseTrace parseLine text = .error e

/-- Reading all lines of a text. -/
lemma mapM_recordsOf (h : ¬ Unreadable parseLine text) :
    (nonBlankLines text).mapM parseLine = .ok (recordsOf parseLine text) := by
  rw [mapM_ok_iff, recordsOf]
  have hok : ∀ line ∈ nonBlankLines text, ∃ record, parseLine line = .ok record := by
    intro line hline
    cases hread : parseLine line with
    | error e => exact absurd ⟨line, hline, e, hread⟩ h
    | ok record => exact ⟨record, rfl⟩
  generalize nonBlankLines text = lines at hok
  induction lines with
  | nil => exact .nil
  | cons line lines ih =>
      obtain ⟨record, hrecord⟩ := hok line List.mem_cons_self
      have hsome : (parseLine line).toOption = some record := by rw [hrecord]; rfl
      rw [List.filterMap_cons, hsome]
      exact .cons hrecord (ih fun line hline => hok line (List.mem_cons_of_mem _ hline))

lemma rejected_of_unreadable (h : Unreadable parseLine text) : Rejected parseLine text := by
  obtain ⟨line, hline, e, hread⟩ := h
  cases hparse : parseTrace parseLine text with
  | error e => exact ⟨e, hparse⟩
  | ok trace =>
      obtain ⟨records, hrecords, -⟩ := parseTrace_ok hparse
      obtain ⟨record, hrecord⟩ : ∃ record, parseLine line = .ok record := by
        obtain ⟨i, hi, rfl⟩ := List.getElem_of_mem hline
        have hall := mapM_ok_iff.mp hrecords
        exact ⟨_, hall.get hi (hall.length_eq ▸ hi)⟩
      cases hread.symm.trans hrecord

/-- **What is accepted**: readable lines whose first header is supported. -/
lemma parseTrace_of_readable (h : ¬ Unreadable parseLine text) :
    (∃ header, (headers parseLine text).head? = some header ∧ header.version = traceVersion ∧
      ∃ trace, parseTrace parseLine text = .ok trace ∧
        parseRecords (recordsOf parseLine text) = .ok trace) ∨
    (∀ header, (headers parseLine text).head? = some header → header.version ≠ traceVersion) ∧
      Rejected parseLine text := by
  have hparse : parseTrace parseLine text = parseRecords (recordsOf parseLine text) := by
    rw [parseTrace, mapM_recordsOf h]
    rfl
  rw [Rejected, hparse, parseRecords, headers, List.head?_filterMap]
  cases (recordsOf parseLine text).findSome? RawRecord.header? with
  | none => exact .inr ⟨fun _ h => (Option.some_ne_none _ h.symm).elim, _, rfl⟩
  | some header =>
      by_cases hversion : header.version = traceVersion
      · exact .inl ⟨header, rfl, hversion, _, if_neg (not_not.mpr hversion),
          if_neg (not_not.mpr hversion)⟩
      · refine .inr ⟨?_, _, if_pos hversion⟩
        rintro _ ⟨⟩
        exact hversion

/-! ### Other orders -/

/-- **Sorting forgets the order** of entries with different keys. -/
lemma insertionSort_eq_of_perm {α : Type} (key : α → ℕ) {l l' : List α} (hperm : l.Perm l')
    (hkeys : (l.map key).Nodup) :
    l.insertionSort (key · ≤ key ·) = l'.insertionSort (key · ≤ key ·) := by
  have htotal : Std.Total (fun a b : α => key a ≤ key b) := ⟨fun a b => le_total _ _⟩
  have htrans : IsTrans α (fun a b => key a ≤ key b) := ⟨fun _ _ _ => le_trans⟩
  have hsorted := List.perm_insertionSort (fun a b : α => key a ≤ key b)
  refine ((hsorted l).trans (hperm.trans (hsorted l').symm)).eq_of_pairwise
    (fun a b ha hb hab hba => ?_) (List.pairwise_insertionSort _ l)
    (List.pairwise_insertionSort _ l')
  exact List.inj_on_of_nodup_map hkeys ((List.mem_insertionSort _).mp ha)
    (hperm.mem_iff.mpr ((List.mem_insertionSort _).mp hb)) (le_antisymm hab hba)

lemma recordsOf_perm (hperm : (nonBlankLines text).Perm (nonBlankLines text')) :
    (recordsOf parseLine text).Perm (recordsOf parseLine text') := hperm.filterMap _

lemma unreadable_iff_of_perm (hperm : (nonBlankLines text).Perm (nonBlankLines text')) :
    Unreadable parseLine text ↔ Unreadable parseLine text' :=
  exists_congr fun _ => and_congr_left fun _ => hperm.mem_iff

variable (parseLine) in
/-- The two texts are both rejected, or have the same events and markers. -/
def SameOutcome (text text' : String) : Prop :=
  (Rejected parseLine text ∧ Rejected parseLine text') ∨
    ∃ trace trace', parseTrace parseLine text = .ok trace ∧
      parseTrace parseLine text' = .ok trace' ∧
      trace.events = trace'.events ∧ trace.markers = trace'.markers

variable (parseLine) in
/-- The header that is looked at is of an unsupported version. -/
def FirstUnsupported (text : String) : Prop :=
  ∃ header, (headers parseLine text).head? = some header ∧ header.version ≠ traceVersion

/-- A readable text is rejected unless its first header is supported. -/
lemma rejected_iff (h : ¬ Unreadable parseLine text) : Rejected parseLine text ↔
    ∀ header, (headers parseLine text).head? = some header → header.version ≠ traceVersion := by
  rcases parseTrace_of_readable h with ⟨header, hhead, hversion, trace, htrace, -⟩ | ⟨hnone, hrej⟩
  · refine iff_of_false ?_ fun hall => hall header hhead hversion
    rintro ⟨e, he⟩
    cases htrace.symm.trans he
  · exact iff_of_true hrej hnone

/-- Accepted texts with the same records up to their order become the same. -/
lemma sameOutcome_of_accepted (hperm : (nonBlankLines text).Perm (nonBlankLines text'))
    (hunique : StampsUnique parseLine text) (h : ¬ Rejected parseLine text)
    (h' : ¬ Rejected parseLine text') : SameOutcome parseLine text text' := by
  have haccepted : ∀ {text}, ¬ Rejected parseLine text → ∃ trace,
      parseTrace parseLine text = .ok trace ∧
        parseRecords (recordsOf parseLine text) = .ok trace := by
    intro text h
    rcases parseTrace_of_readable (mt rejected_of_unreadable h) with
      ⟨-, -, -, haccepted⟩ | ⟨-, hrej⟩
    · exact haccepted
    · exact absurd hrej h
  obtain ⟨trace, htrace, hrec⟩ := haccepted h
  obtain ⟨trace', htrace', hrec'⟩ := haccepted h'
  obtain ⟨hevents, hmarkers⟩ := parseRecords_ok hrec
  obtain ⟨hevents', hmarkers'⟩ := parseRecords_ok hrec'
  have hrecords : (recordsOf parseLine text).Perm (recordsOf parseLine text') :=
    recordsOf_perm hperm
  refine .inr ⟨trace, trace', htrace, htrace', ?_, ?_⟩
  · rw [hevents, hevents']
    exact insertionSort_eq_of_perm TraceEvent.index (hrecords.filterMap _) hunique.events
  · rw [hmarkers, hmarkers']
    exact insertionSort_eq_of_perm TraceMarker.index (hrecords.filterMap _) hunique.markers

/-- Where all headers are supported, a text is rejected if it has none. -/
lemma rejected_iff_of_supported (h : ¬ Unreadable parseLine text)
    (hsupported : ∀ header ∈ headers parseLine text, header.version = traceVersion) :
    Rejected parseLine text ↔ headers parseLine text = [] := by
  rw [rejected_iff h]
  constructor
  · intro hall
    cases hheaders : headers parseLine text with
    | nil => rfl
    | cons header rest =>
        rw [hheaders] at hall hsupported
        exact absurd (hsupported header List.mem_cons_self) (hall header rfl)
  · rintro hnone header hhead
    rw [hnone] at hhead
    cases hhead

/-! ### Two headers -/

/-- A header of version 1. -/
def headerOne : String := "\x7b\"rec\":\"header\",\"v\":1,\"pid\":7\x7d"

/-- A header of version 2. -/
def headerTwo : String := "\x7b\"rec\":\"header\",\"v\":2,\"pid\":8\x7d"

/-- A marker. -/
def markerLine : String := "\x7b\"rec\":\"marker\",\"i\":0,\"tid\":7,\"text\":\"a\"\x7d"

lemma lines_of_two {a b : String} (ha : a ∈ [headerOne, headerTwo, markerLine])
    (hb : b ∈ [headerOne, headerTwo, markerLine]) : nonBlankLines (a ++ "\n" ++ b) = [a, b] := by
  have hlines : ∀ line ∈ [headerOne, headerTwo, markerLine],
      '\n' ∉ line.toList ∧ line.toList.all isTrimmed = false := by
    decide +kernel
  obtain ⟨⟨hnewline, hblank⟩, hnewline', hblank'⟩ := And.intro (hlines a ha) (hlines b hb)
  have htext : (a ++ "\n" ++ b).toList = a.toList ++ '\n' :: b.toList := by simp
  rw [nonBlankLines, htext, List.splitOn_append_cons_self_of_not_mem hnewline,
    List.splitOn_eq_singleton hnewline']
  simp [hblank, hblank']

lemma readLine_headers : readLine headerOne = .ok (.header ⟨1, 7⟩) ∧
    readLine headerTwo = .ok (.header ⟨2, 8⟩) ∧
    readLine markerLine = .ok (.marker ⟨0, 7, "a"⟩) := by
  decide +kernel

/-- A marker after it. -/
def laterMarkerLine : String := "\x7b\"rec\":\"marker\",\"i\":5,\"tid\":7,\"text\":\"b\"\x7d"

/-- A write. -/
def writeLine : String :=
  "\x7b\"rec\":\"event\",\"i\":1,\"j\":2,\"call\":\"write\",\"fd\":3,\"tid\":7,\"path\":\"/a\"," ++
    "\"path2\":\"\",\"off\":0,\"len\":1,\"ret\":1,\"err\":0,\"dig\":\"aa\"\x7d"

/-- A sync after it. -/
def syncLine : String :=
  "\x7b\"rec\":\"event\",\"i\":3,\"j\":4,\"call\":\"fsync\",\"fd\":3,\"tid\":7,\"path\":\"/a\"," ++
    "\"path2\":\"\",\"off\":0,\"len\":0,\"ret\":0,\"err\":0,\"dig\":\"\"\x7d"

lemma readLine_segment : readLine laterMarkerLine = .ok (.marker ⟨5, 7, "b"⟩) ∧
    readLine writeLine = .ok (.event ⟨1, 2, .write, 3, 7, "/a", "", 0, 1, 1, 0, "aa"⟩) ∧
    readLine syncLine = .ok (.event ⟨3, 4, .fsync, 3, 7, "/a", "", 0, 0, 0, 0, ""⟩) := by
  decide +kernel

/-! ### Segments -/

/-- **When the order of the lines makes no difference** and unsupported versions
are rejected: whenever a line cannot be read, no header is of an unsupported
version, or the first one of each text is. -/
theorem segment_order_iff (parseLine : String → Except Thrown RawRecord) {text text' : String}
    (hperm : (nonBlankLines text).Perm (nonBlankLines text'))
    (hunique : StampsUnique parseLine text) :
    (SameOutcome parseLine text text' ∧
      ((∃ header ∈ headers parseLine text, header.version ≠ traceVersion) →
        Rejected parseLine text ∧ Rejected parseLine text')) ↔
      Unreadable parseLine text ∨
        (∀ header ∈ headers parseLine text, header.version = traceVersion) ∨
        FirstUnsupported parseLine text ∧ FirstUnsupported parseLine text' := by
  have hheaders : (headers parseLine text).Perm (headers parseLine text') :=
    (recordsOf_perm hperm).filterMap _
  by_cases hread : Unreadable parseLine text
  · have hrej : Rejected parseLine text ∧ Rejected parseLine text' :=
      ⟨rejected_of_unreadable hread,
        rejected_of_unreadable ((unreadable_iff_of_perm hperm).mp hread)⟩
    exact iff_of_true ⟨.inl hrej, fun _ => hrej⟩ (.inl hread)
  have hread' : ¬ Unreadable parseLine text' := (unreadable_iff_of_perm hperm).not.mp hread
  rw [or_iff_right hread]
  by_cases hsupported : ∀ header ∈ headers parseLine text, header.version = traceVersion
  · refine iff_of_true ⟨?_, fun ⟨header, hmem, hne⟩ => absurd (hsupported header hmem) hne⟩
      (.inl hsupported)
    have hiff := rejected_iff_of_supported hread hsupported
    have hiff' := rejected_iff_of_supported hread' fun header hmem =>
      hsupported header (hheaders.mem_iff.mpr hmem)
    have hempty : headers parseLine text = [] ↔ headers parseLine text' = [] := by
      rw [← List.length_eq_zero_iff, ← List.length_eq_zero_iff, hheaders.length_eq]
    by_cases hnone : headers parseLine text = []
    · exact .inl ⟨hiff.mpr hnone, hiff'.mpr (hempty.mp hnone)⟩
    · exact sameOutcome_of_accepted hperm hunique (mt hiff.mp hnone)
        fun hrej => hnone (hempty.mpr (hiff'.mp hrej))
  · rw [or_iff_right hsupported]
    have hbad : ∃ header ∈ headers parseLine text, header.version ≠ traceVersion := by
      simpa using hsupported
    have hfirst : ∀ {text}, ¬ Unreadable parseLine text → headers parseLine text ≠ [] →
        (Rejected parseLine text ↔ FirstUnsupported parseLine text) := by
      intro text hread hne
      obtain ⟨header, rest, hcons⟩ := List.exists_cons_of_ne_nil hne
      rw [rejected_iff hread, FirstUnsupported, hcons]
      simp
    obtain ⟨header, hmem, -⟩ := id hbad
    have hne := List.ne_nil_of_mem hmem
    have hne' := List.ne_nil_of_mem (hheaders.mem_iff.mp hmem)
    rw [← hfirst hread hne, ← hfirst hread' hne']
    exact ⟨fun h => h.2 hbad, fun h => ⟨.inl h, fun _ => h⟩⟩

/-- The records of two segments, the second one first. -/
theorem marker_order :
    SameOutcome readLine (joinLines [headerOne, markerLine, writeLine, syncLine, laterMarkerLine])
      (joinLines [laterMarkerLine, syncLine, headerOne, markerLine, writeLine]) := by
  have hsolid : ∀ line ∈ [headerOne, markerLine, writeLine, syncLine, laterMarkerLine],
      '\n' ∉ line.toList ∧ line.toList.all isTrimmed = false := by
    decide +kernel
  have hperm : [headerOne, markerLine, writeLine, syncLine, laterMarkerLine].Perm
      [laterMarkerLine, syncLine, headerOne, markerLine, writeLine] := by
    have hrotate : ([headerOne, markerLine, writeLine] ++ [syncLine, laterMarkerLine]).Perm
        ([syncLine, laterMarkerLine] ++ [headerOne, markerLine, writeLine]) := List.perm_append_comm
    exact hrotate.trans (.swap _ _ _)
  have hlines := nonBlankLines_joinLines hsolid
  have hlines' := nonBlankLines_joinLines fun line hline => hsolid line (hperm.mem_iff.mpr hline)
  have hrecords : recordsOf readLine (joinLines [headerOne, markerLine, writeLine, syncLine,
      laterMarkerLine]) = [.header ⟨1, 7⟩, .marker ⟨0, 7, "a"⟩,
        .event ⟨1, 2, .write, 3, 7, "/a", "", 0, 1, 1, 0, "aa"⟩,
        .event ⟨3, 4, .fsync, 3, 7, "/a", "", 0, 0, 0, 0, ""⟩, .marker ⟨5, 7, "b"⟩] := by
    rw [recordsOf, hlines]
    simp [readLine_headers, readLine_segment, Except.toOption]
  refine ((segment_order_iff readLine ?_ ⟨?_, ?_⟩).mpr (.inr (.inl ?_))).1
  · rwa [hlines, hlines']
  · rw [hrecords]
    decide
  · rw [hrecords]
    decide
  · rw [headers, hrecords]
    decide

/-- One order is accepted, with a header of version 2, and the other is not. -/
theorem header_order : (nonBlankLines (headerOne ++ "\n" ++ headerTwo)).Perm
      (nonBlankLines (headerTwo ++ "\n" ++ headerOne)) ∧
    StampsUnique readLine (headerOne ++ "\n" ++ headerTwo) ∧
    ⟨2, 8⟩ ∈ headers readLine (headerOne ++ "\n" ++ headerTwo) ∧
    ¬ SameOutcome readLine (headerOne ++ "\n" ++ headerTwo) (headerTwo ++ "\n" ++ headerOne) ∧
    parseTrace readLine (headerOne ++ "\n" ++ headerTwo) = .ok ⟨⟨1, 7⟩, [], []⟩ ∧
    parseTrace readLine (headerTwo ++ "\n" ++ headerOne) =
      .error (.error "trace version 2 is not supported (expected 1)") := by
  have hlines := @lines_of_two headerOne headerTwo (by simp) (by simp)
  have hlines' := @lines_of_two headerTwo headerOne (by simp) (by simp)
  have hrecords : recordsOf readLine (headerOne ++ "\n" ++ headerTwo) =
      [.header ⟨1, 7⟩, .header ⟨2, 8⟩] := by
    rw [recordsOf, hlines]
    simp [readLine_headers, Except.toOption]
  obtain ⟨hone, htwo, -⟩ := readLine_headers
  have haccepted : parseTrace readLine (headerOne ++ "\n" ++ headerTwo) = .ok ⟨⟨1, 7⟩, [], []⟩ := by
    rw [parseTrace, hlines, mapM_ok_iff.mpr (.cons hone (.cons htwo .nil))]
    rfl
  have hrejected : parseTrace readLine (headerTwo ++ "\n" ++ headerOne) =
      .error (.error "trace version 2 is not supported (expected 1)") := by
    rw [parseTrace, hlines', mapM_ok_iff.mpr (.cons htwo (.cons hone .nil))]
    rfl
  refine ⟨?_, ⟨?_, ?_⟩, ?_, ?_, haccepted, hrejected⟩
  · rw [hlines, hlines']
    exact .swap _ _ _
  · rw [hrecords]
    decide
  · rw [hrecords]
    decide
  · rw [headers, hrecords]
    decide
  · rintro (⟨⟨e, he⟩, -⟩ | ⟨-, trace, -, htrace, -⟩)
    · cases haccepted.symm.trans he
    · cases hrejected.symm.trans htrace

end CrashFuzz
