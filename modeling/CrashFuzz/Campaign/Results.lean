import CrashFuzz.Campaign.Sweep

/-!
What a sweep reports (`core/src/campaign/results.ts`, and the files that
`core/tools/campaign-run.ts` writes).

* `resultsTable`, `campaignCsv`, `resultsMd`: the texts.
* `csvTable_campaignCsv`: the fields of `campaign.csv` are read back.
* `noSignatures_iff`: how `docs/results.md` ends.
* `sweep_report`: the rows and signatures are those of the states that were tested,
  and "None" is written exactly if no recovery of any of them violates a promise.
* `sweep_artifacts`: what is packaged in the place of a finding.
-/

namespace CrashFuzz

open PosixPath

/-! ### The texts -/

/-- `lines.join('\n')`. -/
def joinedBy (lines : List String) : String :=
  String.ofList (['\n'].intercalate (lines.map String.toList))

/-- The line of a row in the table of results. -/
def tableLine (row : SweepRow) : String :=
  "| " ++ row.filesystem.text ++ " | " ++ row.mountOptions.getD "(default)" ++ " | " ++ row.shape ++
    " | " ++ toString row.crashPointsTested ++ " | " ++ toString row.statesTested ++ " | " ++
    toString row.findings.length ++ " |"

/-- The line of totals. -/
def totalLine (rows : List SweepRow) : String :=
  "| **total** | | | | **" ++ toString (rows.map (·.statesTested)).sum ++ "** | **" ++
    toString (rows.map (·.findings.length)).sum ++ "** |"

/-- `resultsTable`. -/
def resultsTable (rows : List SweepRow) : String :=
  joinedBy (["| Filesystem | Mount | Shape | Crash points | States | Findings |",
    "|---|---|---|---|---|---|"] ++ rows.map tableLine ++ [totalLine rows])

/-- The names of the columns of `campaign.csv`. -/
def csvHeader : List String :=
  ["filesystem", "mount_options", "shape", "crash_points", "states", "findings"]

/-- The fields of a row. -/
def csvFields (row : SweepRow) : List String :=
  [row.filesystem.text, row.mountOptions.getD "default", row.shape,
    toString row.crashPointsTested, toString row.statesTested, toString row.findings.length]

/-- Fields in a line. -/
def csvLine (fields : List String) : String :=
  String.ofList ([','].intercalate (fields.map String.toList))

/-- The text of `campaign.csv`. -/
def campaignCsv (rows : List SweepRow) : String :=
  joinLines (csvLine csvHeader :: rows.map fun row => csvLine (csvFields row))

/-- The signatures of a sweep, each once: `new Set(..)`. -/
def distinctSignatures (rows : List SweepRow) : List String :=
  (rows.flatMap fun row => row.findings.map Prod.fst).eraseDups

/-- What is written if there are none. -/
def noSignatures : String :=
  "None. Every state the sweep tested recovered within the contract in `docs/model.md`."

/-- The section of the signatures. -/
def signatureSection (rows : List SweepRow) : String :=
  if (distinctSignatures rows).length = 0 then noSignatures
  else joinedBy ((distinctSignatures rows).map fun signature => "- `" ++ signature ++ "`")

/-- The lines of `docs/results.md` before that section, for the arguments and the
wall clock as they are printed. -/
def resultsHead (operations seed elapsed : String) (rows : List SweepRow) : List String :=
  ["# Campaign results",
    "",
    "> Generated by `bun run campaign`. Regenerate rather than edit.",
    "",
    "Primary target: redb. Operations per workload: " ++ operations ++ ". Seed: " ++ seed ++ ".",
    "Wall clock: " ++ elapsed ++ "s.",
    "",
    "Bounds are in `core/src/enumerate/bounds.jsonc`; what this run did not cover is in",
    "`docs/coverage.md`.",
    "",
    resultsTable rows,
    "",
    "## Distinct finding signatures",
    ""]

/-- The text of `docs/results.md`. -/
def resultsMd (operations seed elapsed : String) (rows : List SweepRow) : String :=
  joinedBy (resultsHead operations seed elapsed rows ++ [signatureSection rows, ""])

variable {host : SweepHost} {bounds : LoadedBounds} {seed : ℚ} {run : SweepRun} {n : ℕ}
  {rows : List SweepRow} {row : SweepRow} {fields : List String} {st : SweepState} {f : Finding}

/-! ### Reading the csv -/

/-- A csv file without quotes, as lines of fields. -/
def csvTable (text : String) : List (List String) :=
  (nonBlankLines text).map fun line => (line.toList.splitOn ',').map String.ofList

/-- A text that separates nothing. -/
def IsField (text : String) : Prop := ',' ∉ text.toList ∧ '\n' ∉ text.toList

lemma isField_toString (n : ℕ) : IsField (toString n) := by
  have hdigit : ∀ c ∈ (toString n).toList, c.isDigit = true := by
    intro c hc
    rw [show (toString n).toList = Nat.toDigits 10 n from Nat.toList_repr] at hc
    exact Decimal.isDigit_toDigits hc
  exact ⟨fun hc => absurd (hdigit _ hc) (by decide), fun hc => absurd (hdigit _ hc) (by decide)⟩

/-- The fields of a line are read back. -/
lemma fields_csvLine (hne : fields ≠ []) (h : ∀ field ∈ fields, IsField field) :
    ((csvLine fields).toList.splitOn ',').map String.ofList = fields := by
  have hsplit : (csvLine fields).toList.splitOn ',' = fields.map String.toList := by
    rw [csvLine, String.toList_ofList]
    refine List.splitOn_intercalate ',' (fun field hfield => ?_) (by simpa using hne)
    obtain ⟨text, htext, rfl⟩ := List.mem_map.mp hfield
    exact (h text htext).1
  rw [hsplit, List.map_map]
  exact (List.map_congr_left fun text _ => String.ofList_toList).trans (List.map_id _)

/-- A line of several fields is one line, and not blank. -/
lemma csvLine_solid {first second : String}
    (h : ∀ field ∈ first :: second :: fields, IsField field) :
    '\n' ∉ (csvLine (first :: second :: fields)).toList ∧
      (csvLine (first :: second :: fields)).toList.all isTrimmed = false := by
  have hmem : ∀ (ls : List (List Char)) (c : Char), c ∈ [','].intercalate ls →
      c = ',' ∨ ∃ l ∈ ls, c ∈ l := by
    intro ls
    induction ls with
    | nil => simp
    | cons l ls ih =>
        intro c hc
        rcases ls with _ | ⟨l', ls⟩
        · exact .inr ⟨l, List.mem_cons_self, by simpa using hc⟩
        · rw [List.intercalate_cons_cons, List.mem_append, List.mem_append] at hc
          rcases hc with (hl | hsep) | hrest
          · exact .inr ⟨l, List.mem_cons_self, hl⟩
          · exact .inl (List.mem_singleton.mp hsep)
          · rcases ih c hrest with rfl | ⟨l'', hl'', hc⟩
            · exact .inl rfl
            · exact .inr ⟨l'', List.mem_cons_of_mem _ hl'', hc⟩
  rw [csvLine, String.toList_ofList]
  constructor
  · intro hc
    rcases hmem _ _ hc with heq | ⟨l, hl, hc⟩
    · exact absurd heq (by decide)
    · obtain ⟨field, hfield, rfl⟩ := List.mem_map.mp hl
      exact (h field hfield).2 hc
  · rw [List.all_eq_false]
    refine ⟨',', ?_, by decide⟩
    rw [List.map_cons, List.map_cons, List.intercalate_cons_cons]
    simp

/-- **The csv is read back**, if no name of a row holds a separator. -/
lemma csvTable_campaignCsv (h : ∀ row ∈ rows, IsField (row.mountOptions.getD "default") ∧
    IsField row.shape) : csvTable (campaignCsv rows) = csvHeader :: rows.map csvFields := by
  have hheader : ∀ field ∈ csvHeader, IsField field := by
    simp only [csvHeader, List.forall_mem_cons, IsField]
    decide
  have hname : ∀ filesystem : Image.Filesystem, IsField filesystem.text := by
    intro filesystem
    cases filesystem <;> exact ⟨by decide, by decide⟩
  have hfields : ∀ row ∈ rows, ∀ field ∈ csvFields row, IsField field := by
    intro row hrow
    obtain ⟨hmount, hshape⟩ := h row hrow
    simp only [csvFields, List.forall_mem_cons]
    exact ⟨hname _, hmount, hshape, isField_toString _, isField_toString _, isField_toString _,
      List.forall_mem_nil _⟩
  have hsolid : ∀ line ∈ csvLine csvHeader :: rows.map fun row => csvLine (csvFields row),
      '\n' ∉ line.toList ∧ line.toList.all isTrimmed = false := by
    rw [List.forall_mem_cons]
    refine ⟨csvLine_solid hheader, fun line hline => ?_⟩
    obtain ⟨row, hrow, rfl⟩ := List.mem_map.mp hline
    exact csvLine_solid (hfields row hrow)
  rw [csvTable, campaignCsv, nonBlankLines_joinLines hsolid, List.map_cons,
    fields_csvLine (by decide) hheader, List.map_map]
  congr 1
  exact List.map_congr_left fun row hrow => fields_csvLine (List.cons_ne_nil _ _) (hfields row hrow)

/-! ### The report -/

variable {text text' : String} {trace trace' : Trace} {points points' : ℕ}
  {states states' : List CrashState}

/-- The signatures that a campaign reports of some states. -/
def Campaign.Reports (c : Campaign) (states : List CrashState) (s : String) : Prop :=
  ∃ i state, states[i]? = some state ∧ ∃ v ∈ c.violations i state, c.signature state v = s

/-- What a row of the results says of an entry of the plan: which one it is, how
much was tested of its trace, and each signature that was reported, once. No step of
it threw. -/
def RowSays (host : SweepHost) (bounds : LoadedBounds) (seed : ℚ) (entry : SweepRun × ℕ)
    (row : SweepRow) : Prop :=
  row.configName = entry.1.config.name ∧ row.filesystem = entry.1.config.filesystem ∧
    row.mountOptions = entry.1.config.mountOptions ∧ row.shape = entry.1.shape ∧
    ∃ text trace states, RowTests host bounds seed entry.1 text trace row.crashPointsTested states ∧
      Undisturbed host entry trace states ∧
      row.statesTested = states.length ∧ (row.findings.map Prod.fst).Nodup ∧
      ∀ s, s ∈ row.findings.map Prod.fst ↔
        (host.campaign entry.1 entry.2 trace).Reports states s

lemma rowSays_of_plain {entry : SweepRun × ℕ} {row : SweptRow} (hrun : entry.1 ∈ sweepPlan)
    (h : plainRow host bounds seed sweepPlan entry = .ok row) :
    RowSays host bounds seed entry (row.run.row row.result) := by
  obtain ⟨run, n⟩ := entry
  obtain ⟨trace, points, states, htests, hsteps, hrow, hresult, -⟩ := plainRow_ok hrun h
  have hsignatures : (row.run.row row.result).findings.map Prod.fst =
      ((host.campaign run n trace).run states).findings.values.map (·.signature) := by
    rw [SweepRun.row, hresult, List.map_map]
    rfl
  refine ⟨by rw [hrow]; rfl, by rw [hrow]; rfl, by rw [hrow]; rfl, by rw [hrow]; rfl,
    row.text, trace, states, ?_, hsteps, ?_, ?_, fun s => ?_⟩
  · rw [SweepRun.row, hresult]
    exact htests
  · rw [SweepRun.row, hresult]
  · rw [hsignatures, Campaign.map_signature_run]
    exact OrderedMap.nodup _
  · rw [hsignatures]
    exact Campaign.mem_signatures_iff

/-- The rows of a sweep, entry by entry of the plan. -/
lemma forall₂_rowSays (h : sweep host bounds seed = .ok st) :
    List.Forall₂ (RowSays host bounds seed) sweepPlan.zipIdx st.rows := by
  obtain ⟨rows, hrows, hswept⟩ := sweep_ok h
  rw [hswept.rows_eq, List.forall₂_map_right_iff]
  have hplan : ∀ entry ∈ sweepPlan.zipIdx, entry.1 ∈ sweepPlan := fun entry hentry =>
    List.mem_of_getElem? (List.mem_zipIdx_iff_getElem?.mp hentry)
  have hboth := (List.forall₂_and_left _ _).mpr ⟨hplan, hrows⟩
  exact hboth.imp fun entry row hrow => rowSays_of_plain hrow.1 hrow.2

lemma mem_distinctSignatures {s : String} :
    s ∈ distinctSignatures rows ↔ ∃ row ∈ rows, s ∈ row.findings.map Prod.fst := by
  rw [distinctSignatures, List.mem_eraseDups, List.mem_flatMap]

/-- Lines that all end alike, joined, end so. -/
lemma getLast?_joinedBy {lines : List String} {c : Char} (hne : lines ≠ [])
    (h : ∀ line ∈ lines, line.toList.getLast? = some c) :
    (joinedBy lines).toList.getLast? = some c := by
  rw [joinedBy, String.toList_ofList]
  induction lines with
  | nil => exact absurd rfl hne
  | cons line lines ih =>
      rcases lines with _ | ⟨line', lines⟩
      · simpa using h line List.mem_cons_self
      · have hrest := ih (List.cons_ne_nil _ _) fun l hl => h l (List.mem_cons_of_mem _ hl)
        rw [List.map_cons] at hrest ⊢
        rw [List.map_cons, List.intercalate_cons_cons, List.getLast?_append, hrest]
        rfl

/-- A text whose last line is empty ends with the line before it. -/
lemma suffix_joinedBy (lines : List String) (last : String) :
    last.toList ++ ['\n'] <:+ (joinedBy (lines ++ [last, ""])).toList := by
  rw [joinedBy, String.toList_ofList]
  induction lines with
  | nil => simp
  | cons line lines ih =>
      have hne : (lines ++ [last, ""]).map String.toList ≠ [] := by simp
      rw [List.cons_append, List.map_cons, List.intercalate_cons_of_ne_nil hne]
      exact ih.trans (List.suffix_append _ _)

/-- Different ends are not followed by one line break. -/
lemma getLast?_of_suffix {l text : List Char} {c d : Char} (hl : l.getLast? = some c)
    (h : l ++ [d] <:+ text) : text.dropLast.getLast? = some c := by
  obtain ⟨before, rfl⟩ := h
  rw [← List.append_assoc, List.dropLast_concat, List.getLast?_append, hl]
  rfl

/-- **"None"** stands at the end of the results exactly if no signature is listed,
whatever the signatures say. -/
lemma noSignatures_iff (operations printedSeed elapsed : String) (rows : List SweepRow) :
    noSignatures.toList ++ ['\n'] <:+ (resultsMd operations printedSeed elapsed rows).toList ↔
      distinctSignatures rows = [] := by
  have hsection : (signatureSection rows).toList ++ ['\n'] <:+
      (resultsMd operations printedSeed elapsed rows).toList := suffix_joinedBy _ _
  constructor
  · intro hnone
    by_contra hne
    have hbullets : (signatureSection rows).toList.getLast? = some '`' := by
      rw [signatureSection, if_neg fun hlength => hne (List.length_eq_zero_iff.mp hlength)]
      refine getLast?_joinedBy (by simpa using hne) fun line hline => ?_
      obtain ⟨signature, -, rfl⟩ := List.mem_map.mp hline
      rw [String.toList_append]
      exact List.getLast?_concat
    have hdot : noSignatures.toList.getLast? = some '.' := by decide
    have hends := (getLast?_of_suffix hbullets hsection).symm.trans (getLast?_of_suffix hdot hnone)
    exact absurd (Option.some.inj hends) (by decide)
  · intro hnil
    rwa [signatureSection, if_pos (by rw [hnil]; rfl)] at hsection

/-- A row of a sweep is that of an entry, and each entry has one. -/
lemma exists_row (h : sweep host bounds seed = .ok st) {entry : SweepRun × ℕ}
    (hentry : entry ∈ sweepPlan.zipIdx)
    (htests : RowTests host bounds seed entry.1 text trace points states) :
    ∃ row ∈ st.rows, ∀ s, s ∈ row.findings.map Prod.fst ↔
      (host.campaign entry.1 entry.2 trace).Reports states s := by
  obtain ⟨row, hrow, -, -, -, -, text', trace', states', htests', -, -, -, hsigned⟩ :=
    (exists_of_forall₂ (forall₂_rowSays h)).1 entry hentry
  obtain ⟨rfl, rfl⟩ := htests.unique htests'
  exact ⟨row, hrow, hsigned⟩

/-- **What a sweep reports.** Each row of the results is that of an entry of the plan,
in its order, with how many states were tested and the signatures of all their
violations, and `campaign.csv` is read back as these rows. The signatures that are listed
are those of all rows, and `docs/results.md` ends with "None" exactly if no recovery of
any state that the sweep tested violates a promise. -/
theorem sweep_report (h : sweep host bounds seed = .ok st)
    (operations printedSeed elapsed : String) :
    List.Forall₂ (RowSays host bounds seed) sweepPlan.zipIdx st.rows ∧
    csvTable (campaignCsv st.rows) = csvHeader :: st.rows.map csvFields ∧
    (∀ s, s ∈ distinctSignatures st.rows ↔ ∃ entry ∈ sweepPlan.zipIdx, ∃ text trace points states,
      RowTests host bounds seed entry.1 text trace points states ∧
        (host.campaign entry.1 entry.2 trace).Reports states s) ∧
    (noSignatures.toList ++ ['\n'] <:+
        (resultsMd operations printedSeed elapsed st.rows).toList ↔ ∀ entry ∈ sweepPlan.zipIdx,
      ∀ text trace points states, RowTests host bounds seed entry.1 text trace points states →
        ∀ i state, states[i]? = some state →
          (host.campaign entry.1 entry.2 trace).violations i state = []) := by
  have hrows := forall₂_rowSays h
  have hlisted : ∀ s, s ∈ distinctSignatures st.rows ↔ ∃ entry ∈ sweepPlan.zipIdx,
      ∃ text trace points states, RowTests host bounds seed entry.1 text trace points states ∧
        (host.campaign entry.1 entry.2 trace).Reports states s := by
    intro s
    rw [mem_distinctSignatures]
    constructor
    · rintro ⟨row, hrow, hs⟩
      obtain ⟨entry, hentry, -, -, -, -, text, trace, states, htests, -, -, -, hsigned⟩ :=
        (exists_of_forall₂ hrows).2 row hrow
      exact ⟨entry, hentry, text, trace, _, states, htests, (hsigned s).mp hs⟩
    · rintro ⟨entry, hentry, text, trace, points, states, htests, hreports⟩
      obtain ⟨row, hrow, hsigned⟩ := exists_row h hentry htests
      exact ⟨row, hrow, (hsigned s).mpr hreports⟩
  refine ⟨hrows, csvTable_campaignCsv fun row hrow => ?_, hlisted, ?_⟩
  · obtain ⟨entry, hentry, -, -, hmount, hshape, -⟩ := (exists_of_forall₂ hrows).2 row hrow
    have hplan : ∀ entry ∈ sweepPlan.zipIdx,
        IsField (entry.1.config.mountOptions.getD "default") ∧ IsField entry.1.shape := by
      simp only [IsField]
      decide
    rw [hmount, hshape]
    exact hplan entry hentry
  · rw [noSignatures_iff, List.eq_nil_iff_forall_not_mem]
    constructor
    · intro hnone entry hentry text trace points states htests i state hstate
      refine List.eq_nil_iff_forall_not_mem.mpr fun v hv => ?_
      exact hnone _ ((hlisted _).mpr ⟨entry, hentry, text, trace, points, states, htests,
        i, state, hstate, v, hv, rfl⟩)
    · intro hsilent s hs
      obtain ⟨entry, hentry, text, trace, points, states, htests, i, state, hstate, v, hv, -⟩ :=
        (hlisted s).mp hs
      rw [hsilent entry hentry text trace points states htests i state hstate] at hv
      cases hv

open Shim Json

/-- A sweep whose workload always leaves these records, and whose recoveries find
this under every key. -/
def steadyHost (lines : List Line) (found : Option String) : SweepHost where
  cwd := "/".toList
  workdir := "/images".toList
  workload := fun _ _ => .ok ⟨some 0, "", textOf (headerLine opener :: lines)⟩
  tested := fun _ _ => .ok (.opened true (fun _ => found) none)
  packaged := fun _ _ => .ok ()

/-- Nothing throws there. -/
lemma undisturbed_steadyHost (lines : List Line) (found : Option String) (entry : SweepRun × ℕ)
    (trace : Trace) (states : List CrashState) :
    Undisturbed (steadyHost lines found) entry trace states :=
  ⟨fun _ _ => ⟨_, rfl⟩, fun _ _ => rfl⟩

lemma captureTrace_steadyHost (lines : List Line) (found : Option String) (index : ℕ)
    (shape : String) : captureTrace (steadyHost lines found) index shape =
      .ok (textOf (headerLine opener :: lines)) := by
  rw [captureTrace]
  rfl

/-- Where the put is found in every state, the results say so. -/
theorem putLines_none : ∃ st,
    sweep (steadyHost (putLines "/d/a") (some "aa")) ⟨1 / 20, 8, 3, 24, true⟩ 1 = .ok st ∧
      noSignatures.toList ++ ['\n'] <:+ (resultsMd "8" "1" "60" st.rows).toList := by
  have hplain : Plain "/d/a".toList := by decide
  obtain ⟨st, hst⟩ := @exists_sweep (steadyHost (putLines "/d/a") (some "aa"))
    ⟨1 / 20, 8, 3, 24, true⟩ 1
    (fun shape _ => ⟨_, _, captureTrace_steadyHost _ _ _ _, parse_putLines hplain⟩)
    fun _ _ _ _ _ _ _ => undisturbed_steadyHost _ _ _ _ _
  refine ⟨st, hst, (sweep_report hst "8" "1" "60").2.2.2.mpr ?_⟩
  intro entry hentry text trace points states htests i state hstate
  obtain rfl := Except.ok.inj ((captureTrace_steadyHost _ _ _ _).symm.trans htests.captured)
  obtain rfl := Except.ok.inj ((parse_putLines hplain).symm.trans htests.read)
  rw [Campaign.violations]
  refine checkOracle_opened_eq_nil.mpr fun o ho => ?_
  have hlog := (mem_promisedBefore.mp ho).1
  rw [Campaign.ackLog, SweepHost.campaign, parseAckLog_putTrace, List.mem_singleton] at hlog
  rw [hlog]

/-! ### What is packaged -/

/-- The names of an entry, as they stand before the signature. -/
def SweepRun.names (run : SweepRun) : Chars :=
  run.config.name.toList ++ '-' :: (run.shape.toList ++ ['-'])

/-- No entry has names that begin with those of another one. -/
lemma names_apart : ∀ entry ∈ sweepPlan.zipIdx, ∀ entry' ∈ sweepPlan.zipIdx,
    entry.1.names <+: entry'.1.names → entry.2 = entry'.2 := by
  decide +kernel

lemma eq_of_mem_plan {entry entry' : SweepRun × ℕ} (h : entry ∈ sweepPlan.zipIdx)
    (h' : entry' ∈ sweepPlan.zipIdx) (hindex : entry.2 = entry'.2) : entry = entry' := by
  have hrun := List.mem_zipIdx_iff_getElem?.mp h
  rw [hindex, List.mem_zipIdx_iff_getElem?.mp h'] at hrun
  exact Prod.ext (Option.some.inj hrun).symm hindex

/-- Texts that follow the names of two entries are different, unless they are
those of one. -/
lemma names_inj {entry entry' : SweepRun × ℕ} (h : entry ∈ sweepPlan.zipIdx)
    (h' : entry' ∈ sweepPlan.zipIdx) {l l' : Chars}
    (heq : entry.1.names ++ l = entry'.1.names ++ l') : entry = entry' ∧ l = l' := by
  have hindex : entry.2 = entry'.2 := by
    have hbegins : entry.1.names <+: entry'.1.names ++ l' := heq ▸ List.prefix_append _ _
    rcases List.prefix_or_prefix_of_prefix hbegins (List.prefix_append _ _) with hfirst | hsecond
    · exact names_apart entry h entry' h' hfirst
    · exact (names_apart entry' h' entry h hsecond).symm
  obtain rfl := eq_of_mem_plan h h' hindex
  exact ⟨rfl, List.append_cancel_left heq⟩

/-- **Artifacts of different rows** have different places, and those of one row
have one if their signatures look alike. -/
lemma artifact_eq_iff {entry entry' : SweepRun × ℕ} (h : entry ∈ sweepPlan.zipIdx)
    (h' : entry' ∈ sweepPlan.zipIdx) {g : Finding} :
    host.artifact entry.1 f = host.artifact entry'.1 g ↔
      entry = entry' ∧ slug f.signature = slug g.signature := by
  have hrun : ∀ entry ∈ sweepPlan.zipIdx, entry.1 ∈ sweepPlan := fun entry hentry =>
    List.mem_of_getElem? (List.mem_zipIdx_iff_getElem?.mp hentry)
  have hname : ∀ run signature, artifactName run signature = run.names ++ slug signature := by
    intro run signature
    simp [artifactName, SweepRun.names]
  rw [SweepHost.artifact, SweepHost.artifact, outDir, outDir,
    resolve_join_component _ _ (proper_artifactName (hrun _ h) _),
    resolve_join_component _ _ (proper_artifactName (hrun _ h') _), hname, hname]
  constructor
  · intro heq
    exact names_inj h h' (List.singleton_inj.mp (List.append_cancel_left heq))
  · rintro ⟨rfl, hslug⟩
    rw [hslug]

/-- **Images of different rows** are different files, and so are those of one. -/
lemma image_eq_iff {entry entry' : SweepRun × ℕ} (h : entry ∈ sweepPlan.zipIdx)
    (h' : entry' ∈ sweepPlan.zipIdx) {i i' : ℕ} :
    (host.campaign entry.1 entry.2 trace).location
        ((host.campaign entry.1 entry.2 trace).imagePath i) =
      (host.campaign entry'.1 entry'.2 trace').location
        ((host.campaign entry'.1 entry'.2 trace').imagePath i') ↔ entry = entry' ∧ i = i' := by
  have hproper : ∀ entry ∈ sweepPlan.zipIdx, Proper ("img-".toList ++ entry.1.config.name.toList ++
      '-' :: entry.1.shape.toList) := by
    simp only [Proper]
    decide +kernel
  have hdir : ∀ entry ∈ sweepPlan.zipIdx, resolve host.cwd (host.imageDir entry.1) =
      resolve host.cwd host.workdir ++ ["img-".toList ++ entry.1.config.name.toList ++
        '-' :: entry.1.shape.toList] := fun entry hentry =>
    resolve_join_component _ _ (hproper entry hentry)
  rw [Campaign.location_imagePath, Campaign.location_imagePath, SweepHost.campaign,
    SweepHost.campaign, hdir entry h, hdir entry' h']
  constructor
  · intro heq
    obtain ⟨hdirs, himages⟩ := List.append_inj' heq rfl
    have hindex := Campaign.imageName_injective (List.singleton_inj.mp himages)
    have hnames := List.singleton_inj.mp (List.append_cancel_left hdirs)
    rw [List.append_assoc, List.append_assoc] at hnames
    have hnames' : entry.1.names ++ [] = entry'.1.names ++ [] := by
      have happend := congrArg (· ++ ['-']) (List.append_cancel_left hnames)
      simpa [SweepRun.names] using happend
    exact ⟨(names_inj h h' hnames').1, hindex⟩
  · rintro ⟨rfl, rfl⟩
    rfl

/-- **What is packaged.** In the place of a finding there is an artifact when the sweep
ends, and it is of a finding of the same row, with the image that this one left, the
prefix of the trace of that row at its crash point, and its texts. Artifacts share a
place exactly if they are of one row and their signatures look alike, and no two states
of the sweep share an image file. -/
theorem sweep_artifacts (h : sweep host bounds seed = .ok st) {entry : SweepRun × ℕ}
    (hentry : entry ∈ sweepPlan.zipIdx)
    (htests : RowTests host bounds seed entry.1 text trace points states) :
    (∀ f ∈ host.findings entry trace states, ∃ a,
      st.artifacts.get? (host.artifact entry.1 f) = some a ∧
        ∃ g ∈ host.findings entry trace states, slug g.signature = slug f.signature ∧
          Packages text entry.1.config.reproducer g a) ∧
    (∀ entry' ∈ sweepPlan.zipIdx, ∀ f g,
      host.artifact entry.1 f = host.artifact entry'.1 g ↔
        entry = entry' ∧ slug f.signature = slug g.signature) ∧
    ∀ entry' ∈ sweepPlan.zipIdx, ∀ trace' i i',
      (host.campaign entry.1 entry.2 trace).location
          ((host.campaign entry.1 entry.2 trace).imagePath i) =
        (host.campaign entry'.1 entry'.2 trace').location
          ((host.campaign entry'.1 entry'.2 trace').imagePath i') ↔ entry = entry' ∧ i = i' := by
  refine ⟨fun f hf => ?_, fun entry' hentry' f g => artifact_eq_iff hentry hentry',
    fun entry' hentry' trace' i i' => image_eq_iff hentry hentry'⟩
  obtain ⟨rows, hrows, hswept⟩ := sweep_ok h
  have hrun : ∀ entry ∈ sweepPlan.zipIdx, entry.1 ∈ sweepPlan := fun entry hentry =>
    List.mem_of_getElem? (List.mem_zipIdx_iff_getElem?.mp hentry)
  have hfindings : ∀ {entry' row}, entry' ∈ sweepPlan.zipIdx → entry' = entry →
      plainRow host bounds seed sweepPlan entry' = .ok row →
      row.run = entry.1 ∧ row.text = text ∧
        row.result.findings = host.findings entry trace states := by
    rintro ⟨run, n⟩ row hmem rfl hrow
    obtain ⟨trace', points', states', htests', -, hsame, hresult, -⟩ :=
      plainRow_ok (hrun _ hmem) hrow
    obtain ⟨rfl, rfl⟩ := htests.unique htests'
    have htext := Except.ok.inj (htests'.captured.symm.trans htests.captured)
    exact ⟨hsame, htext, by rw [hresult]⟩
  obtain ⟨row, hmem, hrow⟩ := (exists_of_forall₂ hrows).1 entry hentry
  obtain ⟨hsame, -, hfound⟩ := hfindings hentry rfl hrow
  obtain ⟨a, ha⟩ := OrderedMap.mem_keys_iff.mp (hswept.complete row hmem f (hfound ▸ hf))
  rw [hsame] at ha
  obtain ⟨row', hmem', g, hg, hplace, hpackages⟩ := hswept.sound _ a ha
  obtain ⟨entry', hentry', hrow'⟩ := (exists_of_forall₂ hrows).2 row' hmem'
  have hrun' : row'.run = entry'.1 := by
    obtain ⟨-, -, -, -, -, hrun', -⟩ := plainRow_ok (n := entry'.2) (hrun entry' hentry') hrow'
    exact hrun'
  rw [hrun'] at hplace
  obtain ⟨heq, hslug⟩ := (artifact_eq_iff hentry' hentry).mp hplace
  obtain ⟨hsame', htext', hfound'⟩ := hfindings hentry' heq hrow'
  rw [htext', hsame'] at hpackages
  exact ⟨a, ha, g, hfound' ▸ hg, hslug, hpackages⟩

/-- The loss of the two puts is packaged. -/
theorem twoPuts_artifact : ∃ st run f a,
    sweep (steadyHost twoPutLines none) ⟨1 / 20, 8, 3, 24, true⟩ 1 = .ok st ∧
      st.artifacts.get? ((steadyHost twoPutLines none).artifact run f) = some a := by
  have hcaptured := captureTrace_steadyHost twoPutLines none
  obtain ⟨st, hst⟩ := @exists_sweep (steadyHost twoPutLines none) ⟨1 / 20, 8, 3, 24, true⟩ 1
    (fun shape _ => ⟨_, _, hcaptured _ _, parse_twoPutLines⟩)
    fun _ _ _ _ _ _ _ => undisturbed_steadyHost _ _ _ _ _
  let run : SweepRun := ⟨⟨"ext4-ordered", ext4Ordered⟩, "single"⟩
  have hentry : (run, 0) ∈ sweepPlan.zipIdx := List.mem_zipIdx_iff_getElem?.mpr rfl
  obtain ⟨tested, states, hstates, hleast, -⟩ := @exists_statesToTest twoPutTrace
    ⟨(steadyHost twoPutLines none).imageDir run, ext4Ordered, 1⟩ ⟨1 / 20, 8, 3, 24, true⟩ 1 8 rfl
    rfl (by decide) (by decide) (by
      rw [selectCrashPoints_of_not_sampled fun h => absurd h.long (by norm_num [twoPutTrace])]
      decide)
  obtain ⟨i, hi⟩ := List.mem_iff_getElem?.mp hleast
  obtain ⟨v, hv⟩ : ∃ v, v ∈ twoPuts.violations i ⟨1, [], []⟩ := by
    refine List.exists_mem_of_ne_nil _ fun hnil => not_nodup_twoPuts i ?_
    rw [hnil]
    exact List.nodup_nil
  obtain ⟨f, hf, -⟩ := List.mem_map.mp (@Campaign.mem_signatures_iff
    ((steadyHost twoPutLines none).campaign run 0 twoPutTrace) _ _ |>.mpr
      ⟨i, ⟨1, [], []⟩, hi, v, hv, rfl⟩)
  obtain ⟨a, ha, -⟩ := (sweep_artifacts hst hentry
    ⟨hcaptured _ _, parse_twoPutLines, hstates⟩).1 f hf
  exact ⟨st, run, f, a, hst, ha⟩

end CrashFuzz
