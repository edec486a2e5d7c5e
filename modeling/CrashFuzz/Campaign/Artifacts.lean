import CrashFuzz.Campaign.Occurrences

/-!
Where a sweep packages its findings (`core/tools/campaign-run.ts`).

* `sweepPlan`, `outDir`: the rows of the sweep, and the directory of a finding.
* `slug_eq_iff`: which signatures look alike without their punctuation.
* `outDir_eq_iff`: two findings of a row share a directory if theirs do.
* `artifacts_apart_iff`: when two findings of a campaign have different
  directories.
-/

namespace CrashFuzz

open PosixPath Words
open Shim (callText)

/-! ### The sweep -/

/-- `SweepConfig`, as far as the directories and the states depend on it. -/
structure SweepConfig where
  name : String
  model : FilesystemModel

/-- `SWEEP`. -/
def SWEEP : List SweepConfig :=
  [⟨"ext4-ordered", ext4Ordered⟩, ⟨"ext4-journal", ext4Journal⟩, ⟨"xfs", xfs⟩, ⟨"btrfs", btrfs⟩]

/-- `SHAPES`. -/
def SHAPES : List String := ["single", "large", "many", "mixed", "concurrent"]

/-- `SweepRun`. -/
structure SweepRun where
  config : SweepConfig
  shape : String

/-- `sweepPlan`. -/
def sweepPlan : List SweepRun :=
  SWEEP.flatMap fun config => SHAPES.map fun shape => ⟨config, shape⟩

/-- `SCRATCH`. -/
def SCRATCH : Chars := "/var/lib/crashfuzz".toList

/-- `findingsRoot`. -/
def findingsRoot : Chars := join SCRATCH "findings".toList

/-- `signature.replace(/[^a-zA-Z0-9]+/g, '-')`. -/
def slug (signature : String) : Chars := dashed Char.isAlphanum '-' signature.toList

/-- The name of the directory of a finding. -/
def artifactName (run : SweepRun) (signature : String) : Chars :=
  run.config.name.toList ++ '-' :: (run.shape.toList ++ '-' :: slug signature)

/-- The `outDir` that `main` passes to `writeReproducer`. -/
def outDir (run : SweepRun) (finding : Finding) : Chars :=
  join findingsRoot (artifactName run finding.signature)

/-! ### Directories -/

lemma slash_notMem_slug (signature : String) : '/' ∉ slug signature := by
  intro hslash
  rcases mem_dashed hslash with hletter | hdash
  · revert hletter
    decide
  · revert hdash
    decide

/-- The name is one component of a path. -/
lemma proper_artifactName {run : SweepRun} (hrun : run ∈ sweepPlan) (signature : String) :
    Proper (artifactName run signature) := by
  have hplan : ∀ run ∈ sweepPlan, '/' ∉ run.config.name.toList ∧ '/' ∉ run.shape.toList ∧
      3 ≤ run.config.name.toList.length := by decide
  obtain ⟨hname, hshape, hlength⟩ := hplan run hrun
  have hlong : 3 ≤ (artifactName run signature).length := by
    rw [artifactName, List.length_append]
    omega
  refine ⟨?_, ?_, ?_, ?_⟩
  · rintro hempty
    simp [hempty] at hlong
  · rintro hdot
    simp [hdot] at hlong
  · rintro hdotdot
    simp [hdotdot, dotdot] at hlong
  · simp only [artifactName, List.mem_append, List.mem_cons, not_or]
    exact ⟨hname, by decide, hshape, by decide, slash_notMem_slug signature⟩

/-- Two findings of a row share a directory exactly if their signatures look
alike. -/
lemma outDir_eq_iff {run : SweepRun} (hrun : run ∈ sweepPlan) {f g : Finding} :
    outDir run f = outDir run g ↔ slug f.signature = slug g.signature := by
  constructor
  · intro h
    have hlocation := congrArg (resolve []) h
    rw [outDir, outDir, resolve_join_component _ _ (proper_artifactName hrun _),
      resolve_join_component _ _ (proper_artifactName hrun _)] at hlocation
    have hname : artifactName run f.signature = artifactName run g.signature :=
      List.singleton_inj.mp (List.append_cancel_left hlocation)
    rw [artifactName, artifactName, List.append_cancel_left_eq, List.cons_inj_right,
      List.append_cancel_left_eq, List.cons_inj_right] at hname
    exact hname
  · intro h
    rw [outDir, outDir, artifactName, artifactName, h]

/-! ### Signatures without punctuation -/

/-- The words of a text. -/
def wordsOf (text : Chars) : List Chars := words Char.isAlphanum text

/-- The words of a cause. -/
def causeWords : Option Cause → List Chars
  | none => ["missing".toList, "none".toList]
  | some c => (if c.torn then "torn".toList else "missing".toList) ::
      (callText c.call).toList :: wordsOf c.name.toList

/-- A cause ends with something that is no letter or digit. -/
def causeOpen : Option Cause → Bool
  | none => false
  | some c => endsOpen Char.isAlphanum ('@' :: c.name.toList)

/-- The cause of a mutation. -/
def OfMutation (cause : Option Cause) : Prop := ∀ c ∈ cause, c.call ∈ mutating

lemma length_wordsOf_class (c : ViolationClass) : (wordsOf c.text.toList).length = 2 := by
  cases c <;> rfl

lemma wordsOf_class_inj {c c' : ViolationClass}
    (h : wordsOf c.text.toList = wordsOf c'.text.toList) : c = c' := by
  revert h
  cases c <;> cases c' <;> decide

lemma wordsOf_call {call : CallName} (h : call ∈ mutating) :
    wordsOf (callText call).toList = [(callText call).toList] := by
  revert h
  cases call <;> decide

lemma call_ne_none (call : CallName) : (callText call).toList ≠ "none".toList := by
  cases call <;> decide

lemma toList_text (c : Cause) : c.text.toList =
    (if c.torn then "torn".toList else "missing".toList) ++
      ':' :: ((callText c.call).toList ++ '@' :: c.name.toList) := by
  rw [Cause.text]
  cases c.torn <;> simp

lemma wordsOf_causeText {cause : Option Cause} (h : OfMutation cause) :
    wordsOf (causeText cause).toList = causeWords cause := by
  cases cause with
  | none => decide
  | some c =>
      have hstatus : wordsOf (if c.torn then "torn".toList else "missing".toList) =
          [if c.torn then "torn".toList else "missing".toList] := by
        cases c.torn <;> decide
      rw [causeText, toList_text, wordsOf, words_append_cons (by decide),
        words_append_cons (by decide)]
      rw [wordsOf] at hstatus
      rw [hstatus]
      exact congrArg (_ :: · ++ _) (wordsOf_call (h c rfl))

lemma endsOpen_causeText (cause : Option Cause) :
    endsOpen Char.isAlphanum (causeText cause).toList = causeOpen cause := by
  cases cause with
  | none => decide
  | some c =>
      rw [causeText, toList_text, endsOpen_append_cons, ← List.cons_append, endsOpen_append_cons]
      rfl

lemma causeText_ne_nil (cause : Option Cause) : (causeText cause).toList ≠ [] := by
  cases cause with
  | none => decide
  | some c =>
      rw [causeText, toList_text]
      exact List.append_ne_nil_of_right_ne_nil _ (List.cons_ne_nil _ _)

/-- A signature starts with a letter. -/
lemma exists_letter (c : ViolationClass) :
    ∃ l ls, c.text.toList = l :: ls ∧ l.isAlphanum = true := by
  cases c <;> exact ⟨_, _, rfl, by decide⟩

/-- **Signatures that look alike** without their punctuation. -/
lemma slug_eq_iff {c c' : ViolationClass} {cause cause' : Option Cause} (h : OfMutation cause)
    (h' : OfMutation cause') :
    slug (c.text ++ "|" ++ causeText cause) = slug (c'.text ++ "|" ++ causeText cause') ↔
      c = c' ∧ causeWords cause = causeWords cause' ∧ causeOpen cause = causeOpen cause' := by
  have hchars : ∀ (c : ViolationClass) cause, (c.text ++ "|" ++ causeText cause).toList =
      c.text.toList ++ '|' :: (causeText cause).toList := fun c cause => by simp
  have hwords : ∀ (c : ViolationClass) {cause}, OfMutation cause →
      words Char.isAlphanum (c.text.toList ++ '|' :: (causeText cause).toList) =
        wordsOf c.text.toList ++ causeWords cause := fun c cause h => by
    rw [words_append_cons (by decide), ← wordsOf_causeText h, wordsOf, wordsOf]
  have hopen : ∀ (c : ViolationClass) cause,
      endsOpen Char.isAlphanum (c.text.toList ++ '|' :: (causeText cause).toList) =
        causeOpen cause := fun c cause => by
    rw [← endsOpen_causeText, ← List.singleton_append, ← List.append_assoc,
      endsOpen_append (causeText_ne_nil cause)]
  have hwhole := hwords c h
  have hwhole' := hwords c' h'
  have hend := hopen c cause
  have hend' := hopen c' cause'
  obtain ⟨l, ls, hhead, hletter⟩ := exists_letter c
  obtain ⟨l', ls', hhead', hletter'⟩ := exists_letter c'
  rw [hhead, List.cons_append] at hwhole hend
  rw [hhead', List.cons_append] at hwhole' hend'
  rw [slug, slug, hchars, hchars, hhead, hhead', List.cons_append, List.cons_append,
    dashed_inj_iff (by decide) hletter hletter', hwhole, hwhole', hend, hend', ← hhead, ← hhead']
  constructor
  · rintro ⟨hwords, hopen⟩
    obtain ⟨hclass, hcause⟩ := List.append_inj hwords
      ((length_wordsOf_class c).trans (length_wordsOf_class c').symm)
    exact ⟨wordsOf_class_inj hclass, hcause, hopen⟩
  · rintro ⟨rfl, hcause, hopen⟩
    exact ⟨by rw [hcause], hopen⟩

/-- Two file names have the same words, and neither or both end with one. -/
def NamesAlike (name name' : String) : Prop :=
  wordsOf name.toList = wordsOf name'.toList ∧
    endsOpen Char.isAlphanum ('@' :: name.toList) = endsOpen Char.isAlphanum ('@' :: name'.toList)

/-- Two mutations are torn or missing alike, by one call, under such names. -/
structure Cause.Alike (a b : Cause) : Prop where
  torn_eq : a.torn = b.torn
  call_eq : a.call = b.call
  names : NamesAlike a.name b.name

lemma causes_alike_iff {cause cause' : Option Cause} (hne : cause ≠ cause') :
    (causeWords cause = causeWords cause' ∧ causeOpen cause = causeOpen cause') ↔
      ∃ a ∈ cause, ∃ b ∈ cause', a.Alike b := by
  have hstatus : ∀ t t' : Bool, (if t then "torn".toList else "missing".toList) =
      (if t' then "torn".toList else "missing".toList) → t = t' := by decide
  cases cause with
  | none =>
      cases cause' with
      | none => exact absurd rfl hne
      | some b =>
          simp only [causeWords, List.cons.injEq]
          refine iff_of_false (fun h => call_ne_none b.call h.1.2.1.symm) (by simp)
  | some a =>
      cases cause' with
      | none =>
          simp only [causeWords, List.cons.injEq]
          refine iff_of_false (fun h => call_ne_none a.call h.1.2.1) (by simp)
      | some b =>
          simp only [causeWords, causeOpen, List.cons.injEq, Option.mem_some_iff, exists_eq_left']
          constructor
          · rintro ⟨⟨ht, hcall, hnames⟩, hopen⟩
            exact ⟨hstatus _ _ ht, callText_inj (String.toList_inj.mp hcall), hnames, hopen⟩
          · rintro ⟨ht, hcall, hnames, hopen⟩
            exact ⟨⟨by rw [ht], by rw [hcall], hnames⟩, hopen⟩

/-! ### The causes of findings -/

lemma ofMutation_rootCause {state : CrashState} {operation : AckedOperation}
    {events : List TraceEvent} : OfMutation (rootCause state operation events) := by
  intro c hc
  rw [rootCause, rootCauseFrom] at hc
  obtain ⟨⟨event, i⟩, hfind, rfl⟩ := Option.map_eq_some_iff.mp hc
  have hflight := List.find?_some hfind
  exact (of_decide_eq_true hflight).1.1

/-- A finding has the signature of its violation. -/
lemma signature_of_mem_findings {c : Campaign} {states : List CrashState} {f : Finding}
    (hf : f ∈ (c.run states).findings.values) : f.signature =
      f.violation.violationClass.text ++ "|" ++ causeText (c.cause f.state f.violation) := by
  obtain ⟨i, -, -, hfirst, -⟩ := Campaign.exists_first hf
  have hsignature := List.find?_some hfirst
  rw [← Campaign.signature_eq]
  exact (of_decide_eq_true hsignature).symm

lemma ofMutation_cause (c : Campaign) (state : CrashState) (violation : Violation) :
    OfMutation (c.cause state violation) := ofMutation_rootCause

/-! ### Two names that look alike -/

open Shim

/-- A put during a write to `/d/a.b`, one during a write to `/d/a-b`, and a write
after both are acknowledged. -/
def alikeLines : List Line :=
  [⟨.marker ⟨0, 7, "op=1 phase=begin kind=put key=k"⟩, 0, 0⟩,
    ⟨.event (writeAt 1 "/d/a.b"), 0, 1⟩,
    ⟨.marker ⟨3, 7, "op=1 phase=ack kind=put key=k digest=aa durable=1"⟩, 0, 0⟩,
    ⟨.marker ⟨4, 7, "op=2 phase=begin kind=put key=m"⟩, 0, 0⟩,
    ⟨.event (writeAt 5 "/d/a-b"), 0, 2⟩,
    ⟨.marker ⟨7, 7, "op=2 phase=ack kind=put key=m digest=bb durable=1"⟩, 0, 0⟩,
    ⟨.event (writeAt 8 "/d/c"), 0, 3⟩]

/-- The trace of these records. -/
def alikeTrace : Trace := traceOf opener alikeLines

/-- A campaign on it that finds no key in any database. -/
def alikePuts : Campaign := ⟨alikeTrace, "/images".toList, "/".toList,
  fun _ => .opened true (fun _ => none) none⟩

lemma parse_alikeLines :
    parseTrace readLine (textOf (headerLine opener :: alikeLines)) = .ok alikeTrace := by
  have hread : ∀ line ∈ alikeLines, ReadsBack line := by
    simp only [alikeLines, List.forall_mem_cons]
    exact ⟨readsBack_marker (by decide) (by decide), readsBack_writeAt (by decide) (by decide) _,
      readsBack_marker (by decide) (by decide), readsBack_marker (by decide) (by decide),
      readsBack_writeAt (by decide) (by decide) _, readsBack_marker (by decide) (by decide),
      readsBack_writeAt (by decide) (by decide) _, List.forall_mem_nil _⟩
  exact parse_readable hread

/-- The put during the first write. -/
def dotPut : AckedOperation := ⟨1, "put", "k", "aa", 0, some 3, true⟩

/-- The put during the second write. -/
def dashPut : AckedOperation := ⟨2, "put", "m", "bb", 4, some 7, true⟩

lemma ackLog_alikePuts : alikePuts.ackLog = [dotPut, dashPut] := by
  rw [Campaign.ackLog, parseAckLog]
  decide +kernel

/-- The state without the writes loses both puts. -/
lemma loses_alikePuts (i : ℕ) : ∀ o ∈ [dotPut, dashPut], alikePuts.Loses i ⟨2, [], []⟩ o := by
  intro o ho
  refine ⟨?_, true, fun _ => none, none, rfl, nofun⟩
  have hpromised : promisedBefore [dotPut, dashPut] (alikePuts.crashStamp ⟨2, [], []⟩) =
      [dotPut, dashPut] := by decide
  rw [ackLog_alikePuts, hpromised]
  exact ho

/-- A row of the sweep. -/
def xfsSingle : SweepRun := ⟨⟨"xfs", xfs⟩, "single"⟩

lemma xfsSingle_mem : xfsSingle ∈ sweepPlan := by
  simp [xfsSingle, sweepPlan, SWEEP, SHAPES]

/-- The campaign of that row finds both losses. -/
lemma exists_alike_findings : ∃ result images, ∃ f ∈ result.findings, ∃ g ∈ result.findings,
    runCampaign (textOf (headerLine opener :: alikeLines)) "/".toList
        ⟨"/images".toList, xfsSingle.config.model, 1⟩ ⟨1 / 20, 8, 3, 24, true⟩
        (fun _ => .opened true (fun _ => none) none) = .ok (result, images) ∧
      f.signature = "LOST_ACKED|missing:write@a.b" ∧
      g.signature = "LOST_ACKED|missing:write@a-b" := by
  obtain ⟨tested, states, hstates, hleast, -⟩ := @exists_statesToTest alikeTrace
    ⟨"/images".toList, xfs, 1⟩ ⟨1 / 20, 8, 3, 24, true⟩ 2 8 rfl rfl (by decide) (by decide) (by
      rw [selectCrashPoints_of_not_sampled fun h => absurd h.long (by decide)]
      decide)
  obtain ⟨i, hi⟩ := List.mem_iff_getElem?.mp hleast
  have hreported : ∀ o ∈ [dotPut, dashPut], ∃ f ∈ (alikePuts.run states).findings.values,
      f.signature = "LOST_ACKED" ++ "|" ++
        causeText (rootCause ⟨2, [], []⟩ o alikeTrace.events) := by
    intro o ho
    obtain ⟨v, hv, hclass, hcause⟩ := (loses_alikePuts i o ho).reported
    have hmem := (@Campaign.mem_signatures_iff alikePuts states _).mpr
      ⟨i, ⟨2, [], []⟩, hi, v, hv, rfl⟩
    obtain ⟨f, hf, hsignature⟩ := List.mem_map.mp hmem
    refine ⟨f, hf, hsignature.trans ?_⟩
    rw [Campaign.signature_eq, hclass, hcause]
    rfl
  obtain ⟨f, hf, hsf⟩ := hreported dotPut (by simp)
  obtain ⟨g, hg, hsg⟩ := hreported dashPut (by simp)
  refine ⟨_, _, f, hf, g, hg, runCampaign_eq parse_alikeLines hstates, ?_, ?_⟩
  · rw [hsf]
    decide +kernel
  · rw [hsg]
    decide +kernel

/-! ### Directories of findings -/

/-- **When artifacts stay apart**: two findings of a campaign with different
signatures get different directories, unless they blame mutations of one kind on
files whose names look alike without their punctuation. -/
theorem artifacts_apart_iff {run : SweepRun} (hrun : run ∈ sweepPlan) {text : String}
    {cwd imageDir : Chars} {seed : ℚ} {bounds : LoadedBounds} {recovery : ℕ → RecoveryResult}
    {trace : Trace} {result : CampaignResult} {images : Finset (List Chars)}
    (hparse : parseTrace readLine text = .ok trace)
    (hresult : runCampaign text cwd ⟨imageDir, run.config.model, seed⟩ bounds recovery =
      .ok (result, images))
    {f g : Finding} (hf : f ∈ result.findings) (hg : g ∈ result.findings)
    (hne : f.signature ≠ g.signature) :
    let c : Campaign := ⟨trace, imageDir, cwd, recovery⟩
    outDir run f ≠ outDir run g ↔
      ¬ (f.violation.violationClass = g.violation.violationClass ∧
        ∃ a ∈ c.cause f.state f.violation, ∃ b ∈ c.cause g.state g.violation, a.Alike b) := by
  intro c
  obtain ⟨trace', states, hparse', -, hfindings, -⟩ := runCampaign_ok hresult
  obtain rfl : trace = trace' := by
    have hsame := hparse.symm.trans hparse'
    injection hsame
  rw [hfindings] at hf hg
  have hsf : f.signature = f.violation.violationClass.text ++ "|" ++
      causeText (c.cause f.state f.violation) := signature_of_mem_findings hf
  have hsg : g.signature = g.violation.violationClass.text ++ "|" ++
      causeText (c.cause g.state g.violation) := signature_of_mem_findings hg
  rw [Ne, outDir_eq_iff hrun, hsf, hsg, slug_eq_iff (ofMutation_cause c _ _)
    (ofMutation_cause c _ _), not_iff_not]
  refine and_congr_right fun hclass => causes_alike_iff fun hcause => hne ?_
  rw [hsf, hsg, hclass, hcause]

/-- What keeps the directories of these findings apart. -/
theorem artifacts_alike : ∃ f g : Finding, f.signature = "LOST_ACKED|missing:write@a.b" ∧
    g.signature = "LOST_ACKED|missing:write@a-b" ∧
    (outDir xfsSingle f ≠ outDir xfsSingle g ↔
      ¬ (f.violation.violationClass = g.violation.violationClass ∧
        ∃ a ∈ alikePuts.cause f.state f.violation, ∃ b ∈ alikePuts.cause g.state g.violation,
          a.Alike b)) := by
  obtain ⟨result, images, f, hf, g, hg, hresult, hsf, hsg⟩ := exists_alike_findings
  have hne : f.signature ≠ g.signature := by
    rw [hsf, hsg]
    decide
  exact ⟨f, g, hsf, hsg,
    artifacts_apart_iff xfsSingle_mem parse_alikeLines hresult hf hg hne⟩

/-- Losses with different signatures, packaged in one directory. -/
theorem alike_overwritten : ∃ result images, ∃ f ∈ result.findings, ∃ g ∈ result.findings,
    runCampaign (textOf (headerLine opener :: alikeLines)) "/".toList
        ⟨"/images".toList, xfsSingle.config.model, 1⟩ ⟨1 / 20, 8, 3, 24, true⟩
        (fun _ => .opened true (fun _ => none) none) = .ok (result, images) ∧
      f.signature ≠ g.signature ∧ outDir xfsSingle f = outDir xfsSingle g := by
  obtain ⟨result, images, f, hf, g, hg, hresult, hsf, hsg⟩ := exists_alike_findings
  refine ⟨result, images, f, hf, g, hg, hresult, ?_, ?_⟩
  · rw [hsf, hsg]
    decide
  · rw [outDir_eq_iff xfsSingle_mem, hsf, hsg]
    decide +kernel

end CrashFuzz
