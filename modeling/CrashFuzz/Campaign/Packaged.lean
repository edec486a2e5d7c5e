import CrashFuzz.Campaign.Interruption
import CrashFuzz.Campaign.Soundness
import CrashFuzz.Oracle.Reproducer

/-!
What a packaged finding shows (`core/src/oracle/reproducer.ts`): its trace
prefix, put through the pipeline again, leads to the finding.

* `CutAt`: a trace with the events of another up to a crash point, and all its
  markers.
* `CutAt.emittedAt_iff`, `CutAt.replaySelection_eq`, `CutAt.signature_eq`: at the
  crash point nothing tells the two apart.
* `packaged_reproduces`: the finding of a campaign is found again.
-/

namespace CrashFuzz

open PosixPath

/-- The events up to a crash point, and every marker. -/
structure CutAt (k : ℕ) (trace cut : Trace) : Prop where
  events : cut.events = trace.events.take (k + 1)
  markers : cut.markers = trace.markers

namespace CutAt

variable {k : ℕ} {trace cut : Trace} {crash : TraceEvent} {model : FilesystemModel}
  {bounds : Bounds} {s : CrashState}

lemma emittedAt_iff (h : CutAt k trace cut) :
    EmittedAt cut model bounds k s ↔ EmittedAt trace model bounds k s := by
  refine Iff.trans ?_ emittedAt_upTo
  rw [CrashFuzz.emittedAt_iff, CrashFuzz.emittedAt_iff, h.events]
  rfl

lemma replaySelection_eq (h : CutAt k trace cut)
    (hs : s ∈ CrashPoint.states trace.events model bounds k) (hk : k < trace.events.length)
    (options : ReplayOptions) :
    replaySelection options cut s.selection = replaySelection options trace s.selection := by
  have hevents : cut.events = (trace.upTo k).events := h.events
  rw [← replaySelection_upTo hs hk options, replaySelection, replaySelection, Selection.applied,
    Selection.applied, hevents]

lemma parseAckLog_eq (h : CutAt k trace cut) : parseAckLog cut = parseAckLog trace := by
  rw [parseAckLog, parseAckLog, h.markers]

end CutAt

/-! ### Packaging -/

variable {parseLine : String → Except Thrown RawRecord} {text packaged : String} {trace : Trace}
  {k : ℕ}

lemma exists_of_map_eq_ok {ε α β : Type} {f : α → β} {x : Except ε α} {b : β}
    (h : x.map f = .ok b) : ∃ a, x = .ok a ∧ f a = b := by
  cases x with
  | error e => cases h
  | ok a => exact ⟨a, rfl, Except.ok.inj h⟩

/-- What was kept is kept again. -/
lemma keptLines_kept {events : ℕ} {lines kept : List String}
    (h : keptLines parseLine k events lines = .ok kept) :
    keptLines parseLine k events kept = .ok kept := by
  induction lines generalizing events kept with
  | nil =>
      obtain rfl : [] = kept := Except.ok.inj h
      rfl
  | cons line lines ih =>
      cases hline : parseLine line with
      | error e =>
          rw [keptLines, hline] at h
          cases h
      | ok record =>
          rw [keptLines_cons hline] at h
          split at h
          · next hevent =>
              split at h
              · exact ih h
              · next hfew =>
                  obtain ⟨kept', hkept, rfl⟩ := exists_of_map_eq_ok h
                  rw [keptLines_cons hline, if_pos hevent, if_neg hfew, ih hkept]
                  rfl
          · next hother =>
              obtain ⟨kept', hkept, rfl⟩ := exists_of_map_eq_ok h
              rw [keptLines_cons hline, if_neg hother, ih hkept]
              rfl

/-- **A packaged trace** is its own prefix. -/
lemma tracePrefix_packaged (hparse : parseTrace parseLine text = .ok trace)
    (h : tracePrefix parseLine text k = .ok packaged) :
    tracePrefix parseLine packaged k = .ok packaged := by
  obtain ⟨records, hread, -⟩ := parseTrace_ok hparse
  obtain ⟨kept, keptRecords, hkept, hkeeps⟩ := @keptLines_spec parseLine k 0 _ _ hread
  have hlines : nonBlankLines (joinLines kept) = kept :=
    nonBlankLines_joinLines fun line hline => of_mem_nonBlankLines (hkeeps.subset hline)
  rw [tracePrefix, hkept] at h
  obtain rfl : joinLines kept = packaged := Except.ok.inj h
  rw [tracePrefix, hlines, keptLines_kept hkept]
  rfl

/-- **A package is a cut** if the first events of the file are not later than the
crash. -/
lemma exists_cutAt (hparse : parseTrace parseLine text = .ok trace)
    (hunique : (trace.events.map (·.index)).Nodup) (hk : k < trace.events.length)
    (hfile : ∀ e ∈ (fileEvents parseLine text).take (k + 1), e.index ≤ trace.events[k].index) :
    ∃ packaged cut, tracePrefix parseLine text k = .ok packaged ∧
      parseTrace parseLine packaged = .ok cut ∧ CutAt k trace cut := by
  obtain ⟨packaged, cut, hpackaged, hcut, hevents, hmarkers⟩ := parseTrace_tracePrefix hparse k
  have hsorted := parseTrace_strictSorted hparse hunique
  rw [(insertionSort_take_iff (fileEvents_perm hparse) hsorted hk).mpr hfile] at hevents
  exact ⟨packaged, cut, hpackaged, hcut, hevents, hmarkers⟩

/-- So it is if the calls of the run do not overlap, and the file has them in
order. -/
lemma le_of_mem_take_fileEvents (hparse : parseTrace parseLine text = .ok trace)
    (hfile : (fileEvents parseLine text).Pairwise (·.index ≤ ·.index))
    (hk : k < trace.events.length) {e : TraceEvent}
    (he : e ∈ (fileEvents parseLine text).take (k + 1)) : e.index ≤ trace.events[k].index := by
  obtain ⟨records, hread, hrecords⟩ := parseTrace_ok hparse
  have hsame : trace.events = fileEvents parseLine text := by
    rw [(parseRecords_ok hrecords).1, ← fileEvents_eq hread, hfile.insertionSort_eq]
  rw [← hsame] at he
  obtain ⟨i, hi, rfl⟩ := List.mem_take_iff_getElem.mp he
  rcases (show i ≤ k by omega).eq_or_lt with rfl | hlt
  · exact le_rfl
  · exact List.pairwise_iff_getElem.mp (parseTrace_sorted hparse).1 i k (by omega) hk hlt

/-! ### The pipeline on a cut -/

namespace Campaign

variable {c : Campaign} {k i : ℕ} {cut : Trace} {crash : TraceEvent} {state : CrashState}

/-- The campaign that tests one state of a packaged trace, and finds of its image
what was found of the one at a position. -/
def retest (c : Campaign) (cut : Trace) (i : ℕ) : Campaign :=
  { c with trace := cut, recovery := fun _ => c.recovery i }

lemma crashStamp_retest (h : CutAt k c.trace cut) (hstate : state.crashPoint = k) :
    (c.retest cut i).crashStamp state = c.crashStamp state := by
  have hevent : cut.events[k]? = c.trace.events[k]? := by
    rw [h.events]
    exact agreeTo_take k c.trace.events k le_rfl
  rw [crashStamp, crashStamp, hstate, retest, hevent]

lemma ackLog_retest (h : CutAt k c.trace cut) : (c.retest cut i).ackLog = c.ackLog :=
  h.parseAckLog_eq

lemma violations_retest (h : CutAt k c.trace cut) (hstate : state.crashPoint = k) :
    (c.retest cut i).violations 0 state = c.violations i state := by
  rw [violations, violations, crashStamp_retest h hstate, ackLog_retest h]
  rfl

/-- Each violation has the same cause, which is found among the events up to the
crash. -/
lemma signature_retest (h : CutAt k c.trace cut)
    (hsorted : c.trace.events.Pairwise (·.index < ·.index))
    (hcrash : c.trace.events[k]? = some crash) (hstate : state.crashPoint = k) {v : Violation}
    (hv : v ∈ c.violations i state) :
    (c.retest cut i).signature state v = c.signature state v := by
  have hstamp : c.crashStamp state = crash.index := by
    rw [crashStamp, hstate, hcrash]
    rfl
  rw [violations, hstamp] at hv
  have hacked := acknowledgedAt_blamedOperation (nodup_op_parseAckLog c.trace) hv
  rw [signature, signature, crashStamp_retest h hstate, ackLog_retest h, hstamp, signatureOf,
    signatureOf, retest, h.events]
  congr 1
  exact earliestMissing_take hsorted hcrash hacked

/-- **A finding is found again** on the cut at its crash point. -/
lemma exists_retest {states : List CrashState} {f : Finding}
    (hf : f ∈ (c.run states).findings.values)
    (h : CutAt f.state.crashPoint c.trace cut)
    (hsorted : c.trace.events.Pairwise (·.index < ·.index))
    (hcrash : c.trace.events[f.state.crashPoint]? = some crash) :
    ∃ i, states[i]? = some f.state ∧ f.imagePath = c.imagePath i ∧
      ∃ g ∈ ((c.retest cut i).run [f.state]).findings.values,
        g.signature = f.signature ∧ g.violation = f.violation := by
  obtain ⟨i, hstate, himage, hfirst, -⟩ := exists_first hf
  have hviolations := @violations_retest c _ i cut f.state h rfl
  have hsignature : ∀ v ∈ c.violations i f.state,
      (c.retest cut i).signature f.state v = c.signature f.state v := fun v hv =>
    signature_retest h hsorted hcrash rfl hv
  have hreported := List.mem_of_find?_eq_some hfirst
  have hsame : (c.retest cut i).signature f.state f.violation = f.signature := by
    rw [hsignature _ hreported]
    simpa using List.find?_some hfirst
  have hmem : f.signature ∈
      ((c.retest cut i).run [f.state]).findings.values.map (·.signature) :=
    mem_signatures_iff.mpr ⟨0, f.state, rfl, f.violation, hviolations ▸ hreported, hsame⟩
  obtain ⟨g, hg, hgs⟩ := List.mem_map.mp hmem
  refine ⟨i, hstate, himage, g, hg, hgs, ?_⟩
  obtain ⟨j, hj, -, hgfirst, -⟩ := exists_first hg
  obtain ⟨rfl, hgstate⟩ : j = 0 ∧ g.state = f.state := by
    rcases j with _ | j
    · exact ⟨rfl, (Option.some.inj hj).symm⟩
    · cases hj
  rw [hgstate, hgs, hviolations] at hgfirst
  have hfind : (c.violations i f.state).find?
      ((c.retest cut i).signature f.state · = f.signature) =
        (c.violations i f.state).find? (c.signature f.state · = f.signature) :=
    List.find?_congr fun v hv => by rw [hsignature v hv]
  exact Option.some.inj (hgfirst.symm.trans (hfind.trans hfirst))

end Campaign

/-! ### Packaged findings -/

/-- What a trace shows of a finding: its state is a crash state of it, replayed
by the same calls, and tested again it leads to the finding. -/
structure Reproduces (c : Campaign) (model : FilesystemModel) (bounds : Bounds) (cut : Trace)
    (f : Finding) : Prop where
  emitted : EmittedAt cut model bounds f.state.crashPoint f.state
  replayed : ∀ options, replaySelection options cut f.state.selection =
    replaySelection options c.trace f.state.selection
  reported : ∃ i, f.imagePath = c.imagePath i ∧
    ∃ g ∈ ((c.retest cut i).run [f.state]).findings.values,
      g.signature = f.signature ∧ g.violation = f.violation

variable {cwd : Chars} {options : CampaignOptions} {bounds : LoadedBounds}
  {recovery : ℕ → RecoveryResult} {result : CampaignResult} {images : Finset (List Chars)}

/-- A campaign that ends had states to test. -/
lemma exists_tested (hparse : parseTrace readLine text = .ok trace)
    (hrun : runCampaign text cwd options bounds recovery = .ok (result, images)) :
    ∃ tested states, statesToTest trace options bounds = .ok (tested, states) := by
  cases hstates : statesToTest trace options bounds with
  | error e =>
      rw [runCampaign, hparse] at hrun
      simp only [bind, Except.bind, hstates] at hrun
      cases hrun
  | ok selected => exact ⟨selected.1, selected.2, rfl⟩

/-- **A packaged finding is found again.** What is written beside the image of a
finding is a trace: it is its own prefix, it has the crash state that was found,
replayed by the same calls, and the same violation has the same signature on it. The
calls up to the crash point have to come first in the file. -/
theorem packaged_reproduces (hparse : parseTrace readLine text = .ok trace)
    (hunique : (trace.events.map (·.index)).Nodup)
    (hrun : runCampaign text cwd options bounds recovery = .ok (result, images)) {f : Finding}
    (hf : f ∈ result.findings)
    (hfile : ∀ e ∈ (fileEvents readLine text).take (f.state.crashPoint + 1),
      ∀ crash ∈ trace.events[f.state.crashPoint]?, e.index ≤ crash.index) :
    ∃ packaged cut, tracePrefix readLine text f.state.crashPoint = .ok packaged ∧
      tracePrefix readLine packaged f.state.crashPoint = .ok packaged ∧
      parseTrace readLine packaged = .ok cut ∧
      resolve cwd f.imagePath ∈ images ∧
      Reproduces ⟨trace, options.imageDir, cwd, recovery⟩ options.model bounds.enumeration cut
        f := by
  obtain ⟨tested, states, hstates⟩ := exists_tested hparse hrun
  obtain ⟨rfl, rfl⟩ := Prod.mk.inj (Except.ok.inj ((runCampaign_eq hparse hstates).symm.trans hrun))
  let c : Campaign := ⟨trace, options.imageDir, cwd, recovery⟩
  have hfound : f ∈ (c.run states).findings.values := hf
  obtain ⟨i, hstate, -⟩ := Campaign.exists_first hfound
  obtain ⟨hpoint, hemitted⟩ := emitted_of_tested hstates (List.mem_of_getElem? hstate)
  have hk := lt_of_mem_selectCrashPoints hpoint
  have hcrash := List.getElem?_eq_getElem hk
  obtain ⟨packaged, cut, hpackaged, hcut, hcutAt⟩ := exists_cutAt hparse hunique hk
    fun e he => hfile e he _ hcrash
  have hsorted := parseTrace_strictSorted hparse hunique
  obtain ⟨j, -, himage, hreported⟩ := @Campaign.exists_retest c _ _ _ _ hfound hcutAt hsorted hcrash
  have hleft : resolve cwd f.imagePath ∈ (c.run states).images := by
    rw [(Campaign.kept_run states).images_iff]
    exact ⟨f.imagePath, List.mem_map_of_mem hfound, rfl⟩
  exact ⟨packaged, cut, hpackaged, tracePrefix_packaged hparse hpackaged, hcut, hleft,
    hcutAt.emittedAt_iff.mpr (emittedAt_iff.mpr ⟨hk, hemitted⟩),
    fun options => hcutAt.replaySelection_eq hemitted hk options, j, himage, hreported⟩

open Shim

/-- The events of a captured file, in its order. -/
lemma fileEvents_textOf {lines : List Line} (h : ∀ line ∈ lines, ReadsBack line) :
    fileEvents readLine (textOf (headerLine opener :: lines)) =
      (lines.map (·.record)).filterMap RawRecord.event? := by
  have hread : ∀ line ∈ headerLine opener :: lines, ReadsBack line :=
    List.forall_mem_cons.mpr
      ⟨⟨by simp [headerLine], trivial, readLine_header opener (by decide)⟩, h⟩
  have hrecords : (nonBlankLines (textOf (headerLine opener :: lines))).mapM readLine =
      .ok ((headerLine opener :: lines).map (·.record)) := by
    rw [nonBlankLines_textOf fun line hline =>
      ⟨(hread line hline).2.1.newline_notMem, Line.not_blank (hread line hline).1⟩]
    exact mapM_text fun line hline => (hread line hline).2.2
  rw [fileEvents_eq hrecords]
  rfl

/-- The file of the two puts has its calls in order. -/
lemma pairwise_twoPutLines : (fileEvents readLine
    (textOf (headerLine opener :: twoPutLines))).Pairwise (·.index ≤ ·.index) := by
  have hread : ∀ line ∈ twoPutLines, ReadsBack line := by
    simp only [twoPutLines, List.forall_mem_cons]
    exact ⟨readsBack_marker (by decide) (by decide), readsBack_marker (by decide) (by decide),
      readsBack_writeAt (by decide) (by decide) _, readsBack_marker (by decide) (by decide),
      readsBack_marker (by decide) (by decide), readsBack_writeAt (by decide) (by decide) _,
      List.forall_mem_nil _⟩
  rw [fileEvents_textOf hread]
  decide

/-- The loss of the two puts is packaged and found again. -/
theorem twoPuts_packaged : ∃ result images f packaged cut,
    runCampaign (textOf (headerLine opener :: twoPutLines)) "/".toList
        ⟨"/images".toList, xfs, 1⟩ ⟨1 / 20, 8, 3, 24, true⟩
        (fun _ => .opened true (fun _ => none) none) = .ok (result, images) ∧
      f ∈ result.findings ∧
      tracePrefix readLine (textOf (headerLine opener :: twoPutLines)) f.state.crashPoint =
        .ok packaged ∧
      parseTrace readLine packaged = .ok cut ∧
      Reproduces twoPuts xfs ⟨true, 8⟩ cut f := by
  obtain ⟨tested, states, hstates, hleast, -⟩ := @exists_statesToTest twoPutTrace
    ⟨"/images".toList, xfs, 1⟩ ⟨1 / 20, 8, 3, 24, true⟩ 1 8 rfl rfl (by decide) (by decide) (by
      rw [selectCrashPoints_of_not_sampled fun h => absurd h.long (by norm_num [twoPutTrace])]
      decide)
  have hrun := @runCampaign_eq _ "/".toList _ _ (fun _ => .opened true (fun _ => none) none) _ _ _
    parse_twoPutLines hstates
  obtain ⟨i, hi⟩ := List.mem_iff_getElem?.mp hleast
  obtain ⟨v, hv⟩ : ∃ v, v ∈ twoPuts.violations i ⟨1, [], []⟩ := by
    refine List.exists_mem_of_ne_nil _ fun hnil => not_nodup_twoPuts i ?_
    rw [hnil]
    exact List.nodup_nil
  obtain ⟨f, hf, -⟩ := List.mem_map.mp
    (Campaign.mem_signatures_iff.mpr ⟨i, ⟨1, [], []⟩, hi, v, hv, rfl⟩)
  have hfile : ∀ e ∈ (fileEvents readLine
      (textOf (headerLine opener :: twoPutLines))).take (f.state.crashPoint + 1),
      ∀ crash ∈ twoPutTrace.events[f.state.crashPoint]?, e.index ≤ crash.index := by
    intro e he crash hcrash
    obtain ⟨hk, rfl⟩ := List.getElem?_eq_some_iff.mp hcrash
    exact le_of_mem_take_fileEvents parse_twoPutLines pairwise_twoPutLines hk he
  obtain ⟨packaged, cut, hpackaged, -, hcut, -, hreproduces⟩ :=
    packaged_reproduces parse_twoPutLines (by decide) hrun hf hfile
  exact ⟨_, _, f, packaged, cut, hrun, hf, hpackaged, hcut, hreproduces⟩

end CrashFuzz
