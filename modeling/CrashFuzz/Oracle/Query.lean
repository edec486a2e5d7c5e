import CrashFuzz.Lib.Words
import CrashFuzz.Oracle.AckLog

/-!
The report of a query tool (`core/src/oracle/recover.ts`, and the printing loops
of `targets/redb-workload/src/query.rs` and `targets/sqlite-workload/query.c`).

* `queryTarget`: what is read of the report a tool printed.
* `Report`: what a tool has to report. `Report.redb` and `Report.sqlite` are the
  texts the two tools print of it.
* `mem_keys_readReport`: where a key that was read comes from.
* `report_read_back_iff`: the report is read back exactly when no key is taken
  for the status line, and none is cut short by the tool.
-/

namespace CrashFuzz

/-! ### Reading a report -/

/-- What `Bun.spawnSync` returns of a tool. One that was killed has no exit code. -/
structure Spawned where
  exitCode : Option ℕ
  stdout : String
  stderr : String

/-- `text.trim()`. -/
def trim (text : String) : String :=
  String.ofList ((text.toList.dropWhile isTrimmed).rdropWhile isTrimmed)

/-- The start of the status line. -/
def statusField : List Char := "integrity=".toList

/-- The loop of `queryTarget`: the status, or a key and its digest. -/
def readReportLine (read : Bool × OrderedMap String String) (line : List Char) :
    Bool × OrderedMap String String :=
  if line = [] then read
  else if statusField.isPrefixOf line then
    (line.drop statusField.length = "ok".toList, read.2)
  else
    match line.splitOn ' ' with
    | key :: digest :: _ => (read.1, read.2.set (String.ofList key) (String.ofList digest))
    | _ => read

/-- The status and the values of a report. Without a status line it is bad. -/
def readReport (stdout : String) : Bool × OrderedMap String String :=
  (stdout.toList.splitOn '\n').foldl readReportLine (false, .empty)

/-- `stderr || undefined`. -/
def saidOnStderr (stderr : String) : Option String :=
  if trim stderr = "" then none else some (trim stderr)

/-- `queryTarget`, where `proc` is the run of the binary on the database. -/
def queryTarget (dbExists : Bool) (proc : Spawned) (absentDetail : String) : RecoveryResult :=
  if !dbExists then .opened true (fun _ => none) (some absentDetail)
  else if proc.exitCode ≠ some 0 then
    let code := (proc.exitCode.map toString).getD "null"
    .failed ((saidOnStderr proc.stderr).getD s!"query exited {code}")
  else
    let read := readReport proc.stdout
    .opened read.1 read.2.get? (saidOnStderr proc.stderr)

/-- `recoverRedb`, with the run of `redb-query`. -/
def recoverRedb (dbExists : Bool) (proc : Spawned) : RecoveryResult :=
  queryTarget dbExists proc "database file absent at this crash point"

/-- `recoverSqlite`, with the run of `sqlite-query`. -/
def recoverSqlite (dbExists : Bool) (proc : Spawned) : RecoveryResult :=
  queryTarget dbExists proc "database file absent at this crash point"

/-! ### Printing a report -/

/-- What a query tool found: a verdict, and the SHA-256 of each value by its
key. -/
structure Report where
  integrityOk : Bool
  values : OrderedMap String String
  key_ne : ∀ key ∈ values.keys, key ≠ ""
  key_solid : ∀ key ∈ values.keys, Solid key
  length_digest : ∀ digest ∈ values.values, digest.length = 64
  hex_digest : ∀ digest ∈ values.values, ∀ c ∈ digest.toList, (radixDigit 16 c).isSome

/-- `"integrity={}"`. -/
def statusLine (integrityOk : Bool) : List Char :=
  statusField ++ (if integrityOk then "ok" else "failed").toList

/-- `"{} {}"` of a key and a digest. -/
def redbLine (entry : String × String) : List Char := entry.1.toList ++ ' ' :: entry.2.toList

/-- `"%s %s"` of a key and a digest. For `%s` a text ends at its first NUL. -/
def sqliteLine (entry : String × String) : List Char :=
  entry.1.toList.takeWhile (· ≠ '\x00') ++ ' ' :: entry.2.toList

namespace Report

/-- The lines of a report. -/
def lines (r : Report) (line : String × String → List Char) : List (List Char) :=
  statusLine r.integrityOk :: r.values.entries.map line

/-- A report, with each line ended. -/
def print (r : Report) (line : String × String → List Char) : String :=
  String.ofList ((r.lines line).flatMap (· ++ ['\n']))

/-- What `redb-query` prints. -/
def redb (r : Report) : String := r.print redbLine

/-- What `sqlite-query` prints. -/
def sqlite (r : Report) : String := r.print sqliteLine

end Report

/-! ### Where a key comes from -/

/-- A line sets at most the key it starts with, and a status line sets none. -/
lemma mem_keys_readReportLine {read : Bool × OrderedMap String String} {line : List Char}
    {key : String} (h : key ∈ (readReportLine read line).2.keys) :
    key ∈ read.2.keys ∨ ¬statusField <+: line ∧ key.toList <+: line := by
  rw [readReportLine] at h
  split_ifs at h with hempty hstatus
  · exact .inl h
  · exact .inl h
  · split at h
    · next name digest rest hsplit =>
        refine (OrderedMap.mem_keys_set.mp h).symm.imp_right fun hkey => ⟨?_, ?_⟩
        · rwa [List.isPrefixOf_iff_prefix] at hstatus
        · have hline : [' '].intercalate (line.splitOn ' ') = line := List.intercalate_splitOn ' '
          rw [hsplit, List.intercalate_cons_cons, List.append_assoc] at hline
          rw [hkey, String.toList_ofList, ← hline]
          exact List.prefix_append _ _
    · exact .inl h

/-- **Where a key comes from**: from a line that it starts, and that is not
taken for the status. -/
lemma mem_keys_readReport {stdout key : String} (h : key ∈ (readReport stdout).2.keys) :
    ∃ line ∈ stdout.toList.splitOn '\n', ¬statusField <+: line ∧ key.toList <+: line := by
  have hfold : ∀ (lines : List (List Char)) (read : Bool × OrderedMap String String),
      key ∈ (lines.foldl readReportLine read).2.keys →
        key ∈ read.2.keys ∨ ∃ line ∈ lines, ¬statusField <+: line ∧ key.toList <+: line := by
    intro lines
    induction lines with
    | nil => exact fun _ hkey => .inl hkey
    | cons line lines ih =>
        intro read hkey
        rcases ih _ hkey with hread | ⟨l, hl, hfrom⟩
        · exact (mem_keys_readReportLine hread).imp_right fun hfrom =>
            ⟨line, List.mem_cons_self, hfrom⟩
        · exact .inr ⟨l, List.mem_cons_of_mem line hl, hfrom⟩
  exact (hfold _ _ h).resolve_left (by simp)

/-! ### Reading what was printed -/

/-- A blank does not make a field out of a key. -/
lemma statusField_prefix_append_iff {key rest : List Char} :
    statusField <+: key ++ ' ' :: rest ↔ statusField <+: key := by
  refine ⟨fun h => ?_, fun h => h.trans (List.prefix_append _ _)⟩
  rcases List.prefix_or_prefix_of_prefix h (List.prefix_append key (' ' :: rest)) with
    hkey | ⟨rest', hfield⟩
  · exact hkey
  · rcases rest' with _ | ⟨c, rest'⟩
    · rw [List.append_nil] at hfield
      rw [hfield]
    · -- the next character of the field would be the blank
      rw [← hfield, List.prefix_append_right_inj, List.cons_prefix_cons] at h
      have hblank : ' ' ∈ statusField := by
        rw [← hfield, h.1]
        exact List.mem_append_right _ List.mem_cons_self
      exact absurd hblank (by decide)

lemma readReportLine_status {integrityOk : Bool} {read : Bool × OrderedMap String String} :
    readReportLine read (statusLine integrityOk) = (integrityOk, read.2) := by
  cases integrityOk <;> rfl

/-- A key is read with its digest. -/
lemma readReportLine_redbLine {read : Bool × OrderedMap String String} {entry : String × String}
    (hkey : ' ' ∉ entry.1.toList) (hdigest : ' ' ∉ entry.2.toList)
    (hstatus : ¬statusField <+: entry.1.toList) :
    readReportLine read (redbLine entry) = (read.1, read.2.set entry.1 entry.2) := by
  have hline : ¬statusField.isPrefixOf (redbLine entry) = true := by
    rwa [List.isPrefixOf_iff_prefix, redbLine, statusField_prefix_append_iff]
  have hsplit : (redbLine entry).splitOn ' ' = [entry.1.toList, entry.2.toList] := by
    have hlast : entry.2.toList.splitOn ' ' = [entry.2.toList] :=
      List.splitOnP_eq_singleton fun c hc => by
        rw [beq_eq_false_iff_ne]
        rintro rfl
        exact hdigest hc
    rw [redbLine, List.splitOn_append_cons_self_of_not_mem hkey, hlast]
  rw [readReportLine, if_neg (by simp [redbLine]), if_neg hline, hsplit]
  simp

namespace Report

variable {r : Report} {stderr absentDetail : String}

lemma blank_notMem_key {entry : String × String} (h : entry ∈ r.values.entries) :
    ' ' ∉ entry.1.toList ∧ '\n' ∉ entry.1.toList := by
  have hsolid := r.key_solid entry.1 (List.mem_map_of_mem h)
  exact ⟨fun hmem => absurd (hsolid _ hmem) (by decide),
    fun hmem => absurd (hsolid _ hmem) (by decide)⟩

/-- A character that is no hex digit is in no digest. -/
lemma notMem_digest {entry : String × String} (h : entry ∈ r.values.entries) {c : Char}
    (hc : (radixDigit 16 c).isSome = false) : c ∉ entry.2.toList := by
  intro hmem
  have hhex := r.hex_digest entry.2 (List.mem_map_of_mem h) c hmem
  rw [hc] at hhex
  cases hhex

/-- A line of an entry has the characters of its key, a blank and hex digits. -/
lemma notMem_entry {entry : String × String} (h : entry ∈ r.values.entries) {c : Char}
    {key : List Char} (hkey : c ∉ key) (hc : c ≠ ' ' ∧ (radixDigit 16 c).isSome = false) :
    c ∉ key ++ ' ' :: entry.2.toList := by
  rw [List.mem_append, List.mem_cons]
  rintro (hmem | hblank | hmem)
  · exact hkey hmem
  · exact hc.1 hblank
  · exact notMem_digest h hc.2 hmem

/-- What is in a report beside keys and digests. -/
lemma notMem_lines {line : String × String → List Char} {c : Char}
    (hline : ∀ entry ∈ r.values.entries, c ∉ line entry)
    (hc : c ∉ statusLine true ∧ c ∉ statusLine false) : ∀ l ∈ r.lines line, c ∉ l := by
  intro l hl
  rcases List.mem_cons.mp hl with rfl | hl
  · cases r.integrityOk
    · exact hc.2
    · exact hc.1
  · obtain ⟨entry, hentry, rfl⟩ := List.mem_map.mp hl
    exact hline entry hentry

/-- The lines are found again. -/
lemma splitOn_print {line : String × String → List Char}
    (h : ∀ entry ∈ r.values.entries, '\n' ∉ line entry) :
    (r.print line).toList.splitOn '\n' = r.lines line ++ [[]] := by
  rw [print, String.toList_ofList, Words.splitOn_flatMap_ended (notMem_lines h (by decide))]

lemma splitOn_redb : r.redb.toList.splitOn '\n' = r.lines redbLine ++ [[]] :=
  splitOn_print fun _ hentry => notMem_entry hentry (blank_notMem_key hentry).2 (by decide)

lemma splitOn_sqlite : r.sqlite.toList.splitOn '\n' = r.lines sqliteLine ++ [[]] :=
  splitOn_print fun _ hentry => notMem_entry hentry
    (fun hmem => (blank_notMem_key hentry).2 ((List.takeWhile_prefix _).subset hmem)) (by decide)

/-- **Every entry is read back** if no key is taken for the status. -/
lemma readReport_redb (h : ∀ key ∈ r.values.keys, ¬statusField <+: key.toList) :
    readReport r.redb = (r.integrityOk, r.values) := by
  have hfold : ∀ (entries : List (String × String)) (values : OrderedMap String String),
      entries ⊆ r.values.entries →
        (entries.map redbLine).foldl readReportLine (r.integrityOk, values) =
          (r.integrityOk, entries.foldl (fun m e => m.set e.1 e.2) values) := by
    intro entries
    induction entries with
    | nil => exact fun _ _ => rfl
    | cons entry entries ih =>
        intro values hsub
        have hentry : entry ∈ r.values.entries := hsub List.mem_cons_self
        rw [List.map_cons, List.foldl_cons, List.foldl_cons,
          readReportLine_redbLine (blank_notMem_key hentry).1 (notMem_digest hentry (by decide))
            (h entry.1 (List.mem_map_of_mem hentry)),
          ih _ fun e he => hsub (List.mem_cons_of_mem entry he)]
  have hlines : (r.lines redbLine).foldl readReportLine (false, .empty) =
      (r.integrityOk, r.values) := by
    rw [lines, List.foldl_cons, readReportLine_status, hfold _ _ (List.Subset.refl _),
      OrderedMap.foldl_set]
  rw [readReport, splitOn_redb, List.foldl_append, hlines]
  rfl

/-- Without a NUL the two tools print the same. -/
lemma sqlite_eq_redb (h : ∀ key ∈ r.values.keys, '\x00' ∉ key.toList) : r.sqlite = r.redb := by
  have hline : ∀ entry ∈ r.values.entries, sqliteLine entry = redbLine entry := by
    intro entry hentry
    have hkey : entry.1.toList.takeWhile (· ≠ '\x00') = entry.1.toList := by
      rw [List.takeWhile_eq_self_iff]
      intro c hc
      rw [decide_eq_true_eq]
      rintro rfl
      exact h entry.1 (List.mem_map_of_mem hentry) hc
    rw [sqliteLine, hkey, redbLine]
  rw [sqlite, redb, print, print, lines, lines, List.map_congr_left hline]

/-- What `queryTarget` returns of a report, when the tool exits with zero. -/
lemma queryTarget_eq_iff {text : String} :
    queryTarget true ⟨some 0, text, stderr⟩ absentDetail =
        .opened r.integrityOk r.values.get? (saidOnStderr stderr) ↔
      (readReport text).1 = r.integrityOk ∧ (readReport text).2.get? = r.values.get? := by
  rw [queryTarget, if_neg (by simp), if_neg (by simp), RecoveryResult.opened.injEq]
  simp

/-- No key that is read back is taken for the status. -/
lemma statusField_of_read {text : String}
    (h : (readReport text).2.get? = r.values.get?) :
    ∀ key ∈ r.values.keys, ¬statusField <+: key.toList := by
  intro key hkey hstatus
  obtain ⟨digest, hdigest⟩ := OrderedMap.mem_keys_iff.mp hkey
  obtain ⟨line, -, hline, hstart⟩ :=
    mem_keys_readReport (OrderedMap.mem_keys_iff.mpr ⟨digest, (congrFun h key).trans hdigest⟩)
  exact hline (hstatus.trans hstart)

/-- `sqlite-query` prints no NUL. -/
lemma nul_notMem_sqlite : ∀ l ∈ r.lines sqliteLine, '\x00' ∉ l :=
  notMem_lines (fun _ hentry => notMem_entry hentry
    (fun hmem => by simpa using List.mem_takeWhile_imp hmem) (by decide)) (by decide)

/-- A key with a NUL is not read back from what `sqlite-query` prints. -/
lemma nul_of_read (h : (readReport r.sqlite).2.get? = r.values.get?) :
    ∀ key ∈ r.values.keys, '\x00' ∉ key.toList := by
  intro key hkey hnul
  obtain ⟨digest, hdigest⟩ := OrderedMap.mem_keys_iff.mp hkey
  obtain ⟨line, hline, -, hstart⟩ :=
    mem_keys_readReport (OrderedMap.mem_keys_iff.mpr ⟨digest, (congrFun h key).trans hdigest⟩)
  rw [splitOn_sqlite, List.mem_append, List.mem_singleton] at hline
  rcases hline with hline | rfl
  · exact nul_notMem_sqlite line hline (hstart.subset hnul)
  · exact absurd (hstart.subset hnul) List.not_mem_nil

end Report

/-- A key that starts like the status line. -/
def statusKey : Report where
  integrityOk := true
  values := ⟨[("integrity=x", "ba7816bf8f01cfea414140de5dae2223b00361a396177a9cb410ff61f20015ad")],
    List.nodup_singleton _⟩
  key_ne := by decide
  key_solid := by decide
  length_digest := by decide
  hex_digest := by
    intro digest hdigest
    obtain rfl := List.mem_singleton.mp hdigest
    exact List.all_eq_true.mp (by decide)

/-- **When a report is read back**, with its verdict and exactly its values: no
key starts like the status line, and `sqlite-query` prints all of each key. -/
theorem report_read_back_iff (r : Report) (stderr absentDetail : String) :
    (queryTarget true ⟨some 0, r.redb, stderr⟩ absentDetail =
        .opened r.integrityOk r.values.get? (saidOnStderr stderr) ↔
      ∀ key ∈ r.values.keys, ¬statusField <+: key.toList) ∧
    (queryTarget true ⟨some 0, r.sqlite, stderr⟩ absentDetail =
        .opened r.integrityOk r.values.get? (saidOnStderr stderr) ↔
      ∀ key ∈ r.values.keys, ¬statusField <+: key.toList ∧ '\x00' ∉ key.toList) := by
  rw [Report.queryTarget_eq_iff, Report.queryTarget_eq_iff]
  refine ⟨⟨fun h => Report.statusField_of_read h.2, fun h => ?_⟩, fun h key hkey => ?_,
    fun h => ?_⟩
  · rw [Report.readReport_redb h]
    exact ⟨rfl, rfl⟩
  · exact ⟨Report.statusField_of_read h.2 key hkey, Report.nul_of_read h.2 key hkey⟩
  · rw [Report.sqlite_eq_redb fun key hkey => (h key hkey).2,
      Report.readReport_redb fun key hkey => (h key hkey).1]
    exact ⟨rfl, rfl⟩

/-- The key is lost and the verdict turned around: of a sound database with one
value both reports are read as an empty one whose check failed. -/
theorem statusKey_lost :
    statusKey.integrityOk = true ∧
      statusKey.values.get? "integrity=x" =
        some "ba7816bf8f01cfea414140de5dae2223b00361a396177a9cb410ff61f20015ad" ∧
      queryTarget true ⟨some 0, statusKey.redb, ""⟩ "" = .opened false (fun _ => none) none ∧
      queryTarget true ⟨some 0, statusKey.sqlite, ""⟩ "" = .opened false (fun _ => none) none := by
  have hredb : readReport statusKey.redb = (false, .empty) := by
    rw [readReport, Report.splitOn_redb]
    rfl
  have hsqlite : readReport statusKey.sqlite = (false, .empty) := by
    rw [readReport, Report.splitOn_sqlite]
    rfl
  refine ⟨rfl, by decide, ?_, ?_⟩
  · rw [queryTarget, hredb]
    rfl
  · rw [queryTarget, hsqlite]
    rfl

end CrashFuzz
