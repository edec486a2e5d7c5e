import CrashFuzz.Campaign.Campaign
import CrashFuzz.Campaign.UnsafeKv
import CrashFuzz.Oracle.Promises
import CrashFuzz.Oracle.Recover

/-!
The positive control: what a campaign reports of a run of the unsafe key-value
store.

* `UnsafeKv.Detects`: an operation is detected at the crash point right after
  it, the open of the next one. There is a state in the sample that is reported
  to have lost it, and the state with everything persisted is not reported.
* `UnsafeKv.exists_image`: every state of a run can be materialized.
* `UnsafeKv.contentsTo_issued`: with everything persisted each key has its value.
* `UnsafeKv.detects_iff`: an operation is detected exactly when the
  acknowledgement log remembers it, for every seed, cap and window.
-/

namespace CrashFuzz

open PosixPath FileTree

namespace UnsafeKv

variable (r : UnsafeKv) (store : Store) (disk : Disk) (n i : ℕ)

/-- The payload store has each value of the run, under its digest. -/
def Stored : Prop :=
  ∀ i, 1 ≤ i → i ≤ n → ∃ payload, store (payloadObject r.options (r.writeValue i)) = some payload ∧
    r.sha256 payload = r.digest i

/-- A state is materialized from an empty target directory. -/
def Image (s : CrashState) (image : Disk) : Prop :=
  runCalls r.options.cwd.toList store disk (replaySelection r.options (r.trace n) s.selection) =
    .ok image

/-- What the oracle reports of an image. -/
def judged (s : CrashState) (image : Disk) : List Violation :=
  checkOracle
    { crashStamp := ((r.events n)[s.crashPoint]?.map (·.index)).getD 0
      ackLog := parseAckLog (r.trace n)
      recovery := recoverFileKv r.sha256 image r.options.target }

/-- What a detected operation leaves in the sample: the crash point after it is
selected, a state of it is reported to have lost the key, and the one with
everything persisted is not reported. -/
structure Detected (points : List ℕ) (states : List CrashState) : Prop where
  selected : 4 * i ∈ points ∧ (r.events n)[4 * i]? = some (r.openTmp (i + 1))
  lost : ∃ s ∈ states, s.crashPoint = 4 * i ∧ ∃ image, r.Image store disk n s image ∧
    ∃ v ∈ r.judged n s image, v.violationClass = .lostAcked ∧ v.key = key i
  silent : ∃ s ∈ states, s = ⟨4 * i, issuedMutations (r.events n) (4 * i), []⟩ ∧
    ∃ image, r.Image store disk n s image ∧ r.judged n s image = []

/-- The campaign detects an operation. -/
def Detects (imageDir : Chars) (seed : ℚ) (bounds : LoadedBounds) : Prop :=
  ∃ tested states, statesToTest (r.trace n) ⟨imageDir, xfs, seed⟩ bounds = .ok (tested, states) ∧
    r.Detected store disk n i
      (selectCrashPoints (r.trace n)
        ⟨bounds.nonFsyncSampleRate, seed, some bounds.maxExhaustiveWorkloadOps⟩) states

variable {r store disk n i}

/-! ### Every state has an image -/

lemma runBelow (hstored : r.Stored store n) : RunBelow r.options store (r.trace n) where
  succeeded := allSucceeded
  below := fun _ he _ => operandsBelow he
  stored := fun e he hcall => by
    obtain ⟨j, hj, rfl | rfl | rfl | rfl⟩ := cases_of_mem_events he
    · simp [openTmp] at hcall
    · obtain ⟨payload, hpayload, -⟩ := hstored (j + 1) (by omega) (by omega)
      rw [hpayload]
      rfl
    · simp [closeTmp] at hcall
    · simp [renameTmp] at hcall

/-- The events need no directory but the one they are replayed into. -/
lemma eq_nil_of_mem_madeDirs {e : TraceEvent} (h : e ∈ r.events n) {q : List Chars}
    (hq : q ∈ madeDirs r.options e) : q = [] := by
  obtain ⟨j, -, rfl | rfl | rfl | rfl⟩ := cases_of_mem_events h
  · simp [madeDirs, openTmp] at hq
  · simpa [madeDirs, writeValue, below_path proper_tmpName, Volume.way] using hq
  · simp [madeDirs, closeTmp] at hq
  · simpa [madeDirs, renameTmp, below_path proper_tmpName, Volume.way] using hq

/-- What the events of a selection need is there. -/
lemma applicable {selection : Selection} {p : ℕ} {e : TraceEvent} {d : Disk}
    (hevent : (r.events n)[p]? = some e)
    (hinv : Replayed r.options (r.events n) selection.Selects p d) :
    Applicable r.options d e := by
  have hmem := List.mem_of_getElem? hevent
  have hbelow : e.call ∈ mutating → OperandsBelow r.options e := fun _ => operandsBelow hmem
  have hroot : heldAt r.options d [] = some .dir := (hinv.dir_iff []).mpr (.inl rfl)
  have hdirs : ∀ q, heldAt r.options d q = some .dir → q = [] := by
    intro q hq
    rcases (hinv.dir_iff q).mp hq with rfl | ⟨j, -, -, e', he', hmade⟩
    · rfl
    · exact eq_nil_of_mem_madeDirs (List.mem_of_getElem? he') hmade
  rw [applicable_iff hinv.wf hroot hbelow]
  refine ⟨fun q hq f hf => ?_, fun q hq => ⟨fun hdir => ?_, fun hmade => ?_⟩, fun hcall => .inl ?_,
    fun hcall => absurd hcall (call_ne_link hmem)⟩
  · have hused : q ∈ madeDirs r.options e := by
      rw [usedDirs] at hq
      split at hq
      · next hcall =>
          obtain ⟨j, -, rfl | rfl | rfl | rfl⟩ := cases_of_mem_events hmem <;>
            simp [openTmp, writeValue, closeTmp, renameTmp] at hcall
      · exact hq
    rw [eq_nil_of_mem_madeDirs hmem hused, hroot] at hf
    cases hf
  · rw [hdirs q hdir] at hq
    exact nil_notMem_usedFiles hbelow hq
  · rw [eq_nil_of_mem_madeDirs hmem hmade] at hq
    exact nil_notMem_usedFiles hbelow hq
  · obtain ⟨j, -, rfl | rfl | rfl | rfl⟩ := cases_of_mem_events hmem
    · simp [openTmp] at hcall
    · simp [writeValue] at hcall
    · simp [closeTmp] at hcall
    · simp [madeDirs, renameTmp, below_path proper_tmpName, below_path proper_key, Volume.way]

/-- **Every state has an image**, with the bytes its selection leaves. -/
lemma exists_image (hempty : EmptyDir r.options.target disk) (hstored : r.Stored store n)
    (s : CrashState) : ∃ image, r.Image store disk n s image ∧
      Replayed r.options (r.events n) s.selection.Selects (4 * n) image ∧
      contents r.options image = contentsTo r.options store (r.trace n) s.selection (4 * n) := by
  have hrun := runBelow hstored
  have happ : ∀ p e d, s.selection.Selects p → (r.trace n).events[p]? = some e →
      Replayed r.options (r.trace n).events s.selection.Selects p d → Applicable r.options d e :=
    fun p e d _ hevent hinv => applicable hevent hinv
  have hlength : (r.trace n).events.length = 4 * n := length_events
  obtain ⟨image, himage, hinv⟩ := exists_replayed hrun hempty happ _ le_rfl
  have hcontents := contents_replayTo hrun hempty (fun e he => call_ne_link he) happ _ le_rfl
    image himage
  rw [hlength] at hinv hcontents
  refine ⟨image, ?_, hinv, hcontents⟩
  rw [Image, runCalls_replaySelection hempty]
  exact himage

/-! ### The bytes at each name -/

variable (r store) in
/-- The payload that is replayed for the value of an operation. -/
def payload (j : ℕ) : List UInt8 := (store (payloadObject r.options (r.writeValue j))).getD []

variable (r store) in
/-- What the directory holds after `m` operations: each key with its payload. -/
def held : ℕ → Contents
  | 0 => fun _ => none
  | m + 1 => Function.update (held m) [(key (m + 1)).toList] (some (payload r store (m + 1)))

lemma held_tmpName {m j : ℕ} : held r store m [(tmpName j).toList] = none := by
  induction m with
  | zero => rfl
  | succ m ih =>
      have hne : [(tmpName j).toList] ≠ [(key (m + 1)).toList] := fun h =>
        key_ne_tmpName (List.singleton_inj.mp h).symm
      rw [held, Function.update_of_ne hne, ih]

lemma held_key {m j : ℕ} (hj : 1 ≤ j) (hjm : j ≤ m) :
    held r store m [(key j).toList] = some (payload r store j) := by
  induction m with
  | zero => omega
  | succ m ih =>
      rw [held]
      by_cases hlast : j = m + 1
      · rw [hlast, Function.update_self]
      · have hne : [(key j).toList] ≠ [(key (m + 1)).toList] := fun h =>
          hlast (key_injective (String.toList_injective (List.singleton_inj.mp h)))
        rw [Function.update_of_ne hne]
        exact ih (by omega)

/-- The write of a value into a new file. -/
lemma effect_writeValue {j : ℕ} {c : Contents} (h : c [(tmpName j).toList] = none) :
    effect r.options store (r.writeValue j) none c =
      Function.update c [(tmpName j).toList] (some (payload r store j)) := by
  have hsplice : Volume.splice [] 0 (payload r store j) = payload r store j := by
    have happend := Volume.splice_length [] (payload r store j)
    rwa [List.nil_append] at happend
  simp only [effect, writeValue, below_path proper_tmpName, h, Option.getD_none,
    Int.toNat_zero, List.take_length]
  exact congrArg (Function.update c _ <| some ·) hsplice

/-- The rename of the file to the key. -/
lemma effect_renameTmp {j : ℕ} {c : Contents} : effect r.options store (r.renameTmp j) none c =
    Function.update (Function.update c [(tmpName j).toList] none) [(key j).toList]
      (some ((c [(tmpName j).toList]).getD [])) := by
  simp only [effect, renameTmp, below_path proper_tmpName, below_path proper_key]

/-- The state with everything persisted. -/
abbrev everything (r : UnsafeKv) (n i : ℕ) : CrashState :=
  ⟨4 * i, issuedMutations (r.events n) (4 * i), []⟩

lemma selects_iff {k : ℕ} {persisted : List ℕ} {p : ℕ} :
    (CrashState.selection ⟨k, persisted, []⟩).Selects p ↔ p ∈ persisted := by
  simp [Selection.Selects, CrashState.selection]

/-- What was issued before the open of the next operation. -/
lemma mem_issuedMutations {p : ℕ} (hi : i ≤ n) : p ∈ issuedMutations (r.events n) (4 * i) ↔
    p < 4 * i ∧ (p % 4 = 1 ∨ p % 4 = 3) := by
  have hmutation : (∃ e ∈ (r.events n)[p]?, e.call ∈ mutating) ↔ _ :=
    allSucceeded.applied_iff.symm.trans applied_iff
  rw [issuedMutations, List.mem_filter, List.mem_range, decide_eq_true_eq, hmutation]
  omega

/-- With everything persisted an operation adds its key. -/
lemma contentsTo_step {m : ℕ} (hm : m < i) (hi : i ≤ n)
    (h : contentsTo r.options store (r.trace n) (everything r n i).selection (4 * m) =
      held r store m) :
    contentsTo r.options store (r.trace n) (everything r n i).selection (4 * (m + 1)) =
      held r store (m + 1) := by
  have hevent : ∀ s < 4, (r.trace n).events[4 * m + s]? = (r.opEvents (m + 1))[s]? :=
    fun s hs => event_at (by omega) hs
  have hselects : ∀ p, (everything r n i).selection.Selects p ↔
      p < 4 * i ∧ (p % 4 = 1 ∨ p % 4 = 3) := fun p => selects_iff.trans (mem_issuedMutations hi)
  have hnone : held r store m [(tmpName (m + 1)).toList] = none := held_tmpName
  have hopen : contentsTo r.options store (r.trace n) (everything r n i).selection (4 * m + 1) =
      held r store m := by
    rw [contentsTo_succ, effectAt_of_not_selects (by rw [hselects]; omega), h]
  have hwrite : contentsTo r.options store (r.trace n) (everything r n i).selection (4 * m + 2) =
      Function.update (held r store m) [(tmpName (m + 1)).toList]
        (some (payload r store (m + 1))) := by
    rw [contentsTo_succ, effectAt_of_selects ((hselects _).mpr (by omega)) (hevent 1 (by omega)),
      hopen]
    exact effect_writeValue hnone
  have hclose : contentsTo r.options store (r.trace n) (everything r n i).selection (4 * m + 3) =
      Function.update (held r store m) [(tmpName (m + 1)).toList]
        (some (payload r store (m + 1))) := by
    rw [contentsTo_succ, effectAt_of_not_selects (by rw [hselects]; omega), hwrite]
  calc contentsTo r.options store (r.trace n) (everything r n i).selection (4 * m + 3 + 1)
      = effect r.options store (r.renameTmp (m + 1)) none
          (Function.update (held r store m) [(tmpName (m + 1)).toList]
            (some (payload r store (m + 1)))) := by
        rw [contentsTo_succ, effectAt_of_selects ((hselects _).mpr (by omega))
          (hevent 3 (by omega)), hclose]
        rfl
    _ = Function.update (held r store m) [(key (m + 1)).toList]
          (some (payload r store (m + 1))) := by
        rw [effect_renameTmp, Function.update_self, Function.update_idem, ← hnone,
          Function.update_eq_self]
        rfl

/-- **With everything persisted each key has its value.** -/
lemma contentsTo_issued (hi : i ≤ n) :
    contentsTo r.options store (r.trace n) (everything r n i).selection (4 * n) =
      held r store i := by
  have hissued : ∀ m ≤ i, contentsTo r.options store (r.trace n) (everything r n i).selection
      (4 * m) = held r store m := by
    intro m hm
    induction m with
    | zero => rfl
    | succ m ih => exact contentsTo_step (by omega) hi (ih (by omega))
  -- nothing that is issued later is selected
  have hlater : ∀ d, contentsTo r.options store (r.trace n) (everything r n i).selection
      (4 * i + d) = held r store i := by
    intro d
    induction d with
    | zero => exact hissued i le_rfl
    | succ d ih =>
        rw [← Nat.add_assoc, contentsTo_succ, effectAt_of_not_selects, ih]
        rw [selects_iff, mem_issuedMutations hi]
        omega
  rw [show 4 * n = 4 * i + (4 * n - 4 * i) by omega]
  exact hlater _

/-! ### What is reported -/

lemma isScratch_key : isScratch (key i).toList = false := by
  rw [isScratch, Bool.or_eq_false_iff, decide_eq_false_iff_not]
  constructor
  · rw [← Bool.not_eq_true, List.isSuffixOf_iff_suffix]
    exact fun h => dot_notMem_key (h.subset (by decide))
  · intro h
    refine dot_notMem_key (i := i) ?_
    rw [h]
    decide

/-- What the store holds for a key is the digest of its file. -/
lemma get?_recovered_key {image : Disk} {j : ℕ} :
    (recovered r.sha256 image r.options.target).get? (key j) =
      (contents r.options image [(key j).toList]).map r.sha256 := by
  rw [get?_recovered, heldFor, isScratch_key]
  rfl

lemma event_open (hi : i < n) : (r.events n)[4 * i]? = some (r.openTmp (i + 1)) :=
  event_at hi (by omega : 0 < 4)

/-- The operations that are promised at the open of the next one. -/
lemma mem_promisedBefore_open {o : AckedOperation} :
    o ∈ promisedBefore (parseAckLog (r.trace n)) (r.stamp (i + 1) 1) ↔
      ∃ j x, 1 ≤ j ∧ j ≤ n ∧ j ≤ i ∧ number j = some x ∧
        (∀ l, j < l → l ≤ n → number l ≠ some x) ∧ o = r.acked j x := by
  have hstamp : ∀ j, 1 ≤ j → (r.stamp j 9 < r.stamp (i + 1) 1 ↔ j ≤ i) := by
    intro j hj
    rw [stamp, stamp, r.increasing.lt_iff_lt]
    omega
  rw [mem_promisedBefore, mem_parseAckLog]
  constructor
  · rintro ⟨⟨j, x, hj, hjn, hnumber, hlater, rfl⟩, -, a, ha, hlt⟩
    obtain rfl : r.stamp j 9 = a := Option.some.inj ha
    exact ⟨j, x, hj, hjn, (hstamp j hj).mp hlt, hnumber, hlater, rfl⟩
  · rintro ⟨j, x, hj, hjn, hji, hnumber, hlater, rfl⟩
    exact ⟨⟨j, x, hj, hjn, hnumber, hlater, rfl⟩, rfl, r.stamp j 9, rfl, (hstamp j hj).mpr hji⟩

lemma judged_eq (hi : i < n) {s : CrashState} (hs : s.crashPoint = 4 * i) (image : Disk) :
    r.judged n s image = checkOracle ⟨r.stamp (i + 1) 1, parseAckLog (r.trace n),
      recoverFileKv r.sha256 image r.options.target⟩ := by
  rw [judged]
  simp only [hs, event_open hi]
  rfl

/-- **Nothing is reported** of the state with everything persisted. -/
lemma judged_everything (hstored : r.Stored store n) (hi : i < n) {image : Disk}
    (hcontents : contents r.options image = held r store i) :
    r.judged n (everything r n i) image = [] := by
  rw [judged_eq hi rfl, recoverFileKv, checkOracle_opened_eq_nil]
  intro o ho
  obtain ⟨j, x, hj, hjn, hji, -, -, rfl⟩ := mem_promisedBefore_open.mp ho
  obtain ⟨bytes, hbytes, hdigest⟩ := hstored j hj hjn
  have hpayload : payload r store j = bytes := by rw [payload, hbytes, Option.getD_some]
  calc (recovered r.sha256 image r.options.target).get? (key j)
      = (held r store i [(key j).toList]).map r.sha256 := by rw [get?_recovered_key, hcontents]
    _ = some (r.sha256 bytes) := by rw [held_key hj hji, hpayload, Option.map_some]
    _ = some (r.digest j) := by rw [hdigest]

/-- The rename of the last operation is not always present. -/
lemma rename_notMem_alwaysPresent {W : ℕ} (hW : 1 ≤ W) {p : ℕ} (hp : p + 1 = 4 * i) :
    p ∉ CrashPoint.alwaysPresent (r.events n) W (4 * i) := by
  rw [CrashPoint.mem_alwaysPresent]
  rintro (hpinned | holder)
  · exact not_pinned hpinned
  · obtain ⟨-, hcount⟩ := CrashPoint.mem_older.mp holder
    have hpos : 0 < ((CrashPoint.free (r.events n) (4 * i)).filter (p < ·)).length := by omega
    obtain ⟨l, hl⟩ := List.exists_mem_of_length_pos hpos
    obtain ⟨hfree, hlt⟩ := List.mem_filter.mp hl
    obtain ⟨hle, happlied, -⟩ := CrashPoint.mem_free.mp hfree
    have hmod := (applied_iff.mp happlied).2
    have hpl : p < l := of_decide_eq_true hlt
    omega

/-- Without its rename a key has no file. -/
lemma noFile_key {selects : ℕ → Prop} {image : Disk} {p : ℕ} (hp : p + 1 = 4 * i)
    (hinv : Replayed r.options (r.events n) selects (4 * n) image) (hlost : ¬ selects p) :
    contents r.options image [(key i).toList] = none := by
  refine Volume.read_of_noFile fun file hfile => ?_
  obtain ⟨q, -, hselects, ⟨e, he, hmade⟩, -⟩ := hinv.file_made _ _ hfile
  obtain ⟨j, s, hj, -, rfl, hevent⟩ := exists_event_at he
  rcases opEvents_cases hevent with ⟨rfl, rfl⟩ | ⟨rfl, rfl⟩ | ⟨rfl, rfl⟩ | ⟨rfl, rfl⟩
  · simp [madeFiles, openTmp] at hmade
  · have hname : [(key i).toList] = [(tmpName (j + 1)).toList] := by
      simpa [madeFiles, writeValue, below_path proper_tmpName] using hmade
    exact key_ne_tmpName (List.singleton_inj.mp hname)
  · simp [madeFiles, closeTmp] at hmade
  · have hname : [(key i).toList] = [(key (j + 1)).toList] := by
      simpa [madeFiles, renameTmp, below_path proper_key] using hmade
    have hij := key_injective (String.toList_injective (List.singleton_inj.mp hname))
    obtain rfl : 4 * j + 3 = p := by omega
    exact hlost hselects

/-- **The loss is reported** of a state without the rename, when the log
remembers the operation. -/
lemma lost_judged (hi : 1 ≤ i) (hin : i < n) (h : Remembered n i) {s : CrashState}
    (hs : s.crashPoint = 4 * i) {image : Disk}
    (hnone : contents r.options image [(key i).toList] = none) :
    ∃ v ∈ r.judged n s image, v.violationClass = .lostAcked ∧ v.key = key i := by
  obtain ⟨x, hnumber, hlater⟩ := h
  have hpromised : r.acked i x ∈ promisedBefore (parseAckLog (r.trace n)) (r.stamp (i + 1) 1) :=
    mem_promisedBefore_open.mpr ⟨i, x, hi, hin.le, le_rfl, hnumber, hlater, rfl⟩
  have habsent : (recovered r.sha256 image r.options.target).get? (r.acked i x).key ≠
      some (r.acked i x).digest := by
    have hget : (recovered r.sha256 image r.options.target).get? (r.acked i x).key = none := by
      rw [acked, get?_recovered_key, hnone, Option.map_none]
    rw [hget]
    exact (Option.some_ne_none _).symm
  rw [judged_eq hin hs]
  exact ⟨_, lost_reported hpromised habsent true none, rfl, rfl⟩

/-- Only what the log remembers is reported. -/
lemma remembered_of_judged (hin : i < n) {s : CrashState} (hs : s.crashPoint = 4 * i)
    {image : Disk} {v : Violation} (hv : v ∈ r.judged n s image)
    (hclass : v.violationClass = .lostAcked) (hkey : v.key = key i) : Remembered n i := by
  rw [judged_eq hin hs] at hv
  rcases cases_of_mem_checkOracle hv with ⟨-, hne⟩ | ⟨o, ho, -, hokey, -⟩
  · exact absurd hclass hne
  · obtain ⟨j, x, -, -, -, hnumber, hlater, rfl⟩ := mem_promisedBefore_open.mp ho
    obtain rfl : j = i := key_injective (hokey.symm.trans hkey)
    exact ⟨x, hnumber, hlater⟩

/-- A detected operation is remembered. -/
lemma remembered_of_detects {imageDir : Chars} {seed : ℚ} {bounds : LoadedBounds} (hin : i < n)
    (h : r.Detects store disk n i imageDir seed bounds) : Remembered n i := by
  obtain ⟨tested, states, -, hdetected⟩ := h
  obtain ⟨s, -, hs, image, -, v, hv, hclass, hkey⟩ := hdetected.lost
  exact remembered_of_judged hin hs hv hclass hkey

/-- A remembered operation is detected. -/
lemma detects_of_remembered {imageDir : Chars} {seed : ℚ} {bounds : LoadedBounds} {W : ℕ}
    (hempty : EmptyDir r.options.target disk) (hstored : r.Stored store n) (hi : 1 ≤ i)
    (hin : i < n) (hbounds : bounds.maxUnpersistedWindow = W) (hW : 1 ≤ W) (hW' : W ≤ 30)
    (h : Remembered n i) : r.Detects store disk n i imageDir seed bounds := by
  have hselected : 4 * i ∈ selectCrashPoints (r.trace n)
      ⟨bounds.nonFsyncSampleRate, seed, some bounds.maxExhaustiveWorkloadOps⟩ := by
    rw [selectCrashPoints_eq_range fun _ => notMem_persistence, List.mem_range]
    exact (List.getElem?_eq_some_iff.mp (event_open (r := r) hin)).1
  have hmodel : (CampaignOptions.mk imageDir xfs seed).model.totalOrder = false := rfl
  obtain ⟨tested, states, hok, hleast, hfull⟩ :=
    exists_statesToTest hmodel hbounds hW hW' hselected
  refine ⟨tested, states, hok, ⟨hselected, event_open hin⟩, ?_, ?_⟩
  · obtain ⟨image, himage, hinv, -⟩ := exists_image hempty hstored
      ⟨4 * i, CrashPoint.alwaysPresent (r.events n) W (4 * i), []⟩
    have hrename : 4 * i - 1 + 1 = 4 * i := by omega
    have hnone := noFile_key hrename hinv fun hselects =>
      rename_notMem_alwaysPresent hW hrename (selects_iff.mp hselects)
    exact ⟨_, hleast, rfl, image, himage, lost_judged hi hin h rfl hnone⟩
  · obtain ⟨image, himage, -, hcontents⟩ := exists_image hempty hstored (everything r n i)
    rw [contentsTo_issued hin.le] at hcontents
    have hissued : CrashPoint.issued (r.trace n).events W (4 * i) =
        issuedMutations (r.events n) (4 * i) := allSucceeded.issued_eq
    rw [hissued] at hfull
    exact ⟨_, hfull, rfl, image, himage, judged_everything hstored hin hcontents⟩

/-- The digests of the first two values. -/
def firstDigest : String := "824cab35da189196fa0160806107e6fce42d5b52c15de86126938e478fd80e87"

def secondDigest : String := "ac65ab9ae799107694909d281c1cef7321b7f64160d032c3ffa6da0a4648141f"

/-- A run in `/live`, with a digest for the first value and one for all others. -/
def liveRun : UnsafeKv where
  options := liveOptions
  pid := 7
  tid := 7
  fd := fun _ => 4
  clock := id
  increasing := strictMono_id
  sha256 := fun bytes => if bytes = value 1 then firstDigest else secondDigest
  sha256_solid := fun bytes => by
    have hsolid : Solid firstDigest ∧ Solid secondDigest := by decide
    split
    · exact hsolid.1
    · exact hsolid.2

/-- The payloads under these digests. -/
def liveStore : Store := fun object =>
  if object = join "/cas".toList firstDigest.toList then some (value 1)
  else if object = join "/cas".toList secondDigest.toList then some (value 2)
  else none

lemma value_two_ne_one : value 2 ≠ value 1 := by
  have hat : ∀ i, 1 < (key i).toList.length →
      (value i)[1]? = ((key i).toList[1]?).map fun c => UInt8.ofNat c.toNat := by
    intro i hi
    rw [value, List.getElem?_append_left (by simpa using hi), List.getElem?_map]
  intro h
  have hsecond := congrArg (·[1]?) h
  simp only [hat 2 (by decide), hat 1 (by decide)] at hsecond
  revert hsecond
  decide

lemma sha256_liveRun (bytes : List UInt8) :
    liveRun.sha256 bytes = if bytes = value 1 then firstDigest else secondDigest := rfl

lemma payloadObject_liveRun (i : ℕ) : payloadObject liveRun.options (liveRun.writeValue i) =
    join "/cas".toList (liveRun.digest i).toList := rfl

lemma stored_liveRun (n : ℕ) : liveRun.Stored liveStore n := by
  have hne : join "/cas".toList secondDigest.toList ≠ join "/cas".toList firstDigest.toList := by
    decide +kernel
  intro i _ _
  rw [payloadObject_liveRun, digest, sha256_liveRun]
  by_cases hvalue : value i = value 1
  · rw [if_pos hvalue, liveStore, if_pos rfl]
    exact ⟨value 1, rfl, by rw [sha256_liveRun, if_pos rfl]⟩
  · rw [if_neg hvalue, liveStore, if_neg hne, if_pos rfl]
    exact ⟨value 2, rfl, by rw [sha256_liveRun, if_neg value_two_ne_one]⟩

/-- **The positive control is detected** at every scale. An operation before the
last is detected exactly when no later one is read under its number, which up to
`2 ^ 53` operations always holds. -/
theorem detects_iff (r : UnsafeKv) (store : Store) (disk : Disk) (n i : ℕ) (imageDir : Chars)
    (seed : ℚ) (bounds : LoadedBounds) (hempty : EmptyDir r.options.target disk)
    (hstored : r.Stored store n) (hi : 1 ≤ i) (hin : i < n)
    (hW : 1 ≤ bounds.maxUnpersistedWindow) (hW' : bounds.maxUnpersistedWindow ≤ 30) :
    (r.Detects store disk n i imageDir seed bounds ↔ Remembered n i) ∧
      (n ≤ 2 ^ 53 → Remembered n i) := by
  obtain ⟨W, hbounds⟩ := Int.eq_ofNat_of_zero_le (by omega : 0 ≤ bounds.maxUnpersistedWindow)
  refine ⟨⟨remembered_of_detects hin, ?_⟩, fun hn => remembered_of_le hn hin.le⟩
  exact detects_of_remembered hempty hstored hi hin hbounds (by omega) (by omega)

theorem detects_first : liveRun.Detects liveStore emptyImage 2 1 "/images".toList 1
    ⟨1 / 20, 8, 3, 24, true⟩ := by
  have hdetects := detects_iff liveRun liveStore emptyImage 2 1 "/images".toList 1
    ⟨1 / 20, 8, 3, 24, true⟩ emptyImage_empty (stored_liveRun 2) le_rfl (by decide) (by decide)
    (by decide)
  exact hdetects.1.mpr (hdetects.2 (by norm_num))

/-- The marker of operation `2 ^ 53 + 1` takes over the record of the operation
before it, whose loss no campaign then reports. -/
theorem undetected_large :
    EmptyDir liveRun.options.target emptyImage ∧ liveRun.Stored liveStore (2 ^ 53 + 1) ∧
      ∀ (r : UnsafeKv) (store : Store) (disk : Disk) (imageDir : Chars) (seed : ℚ)
        (bounds : LoadedBounds),
        ¬ r.Detects store disk (2 ^ 53 + 1) (2 ^ 53) imageDir seed bounds := by
  refine ⟨emptyImage_empty, stored_liveRun _, fun r store disk imageDir seed bounds h => ?_⟩
  obtain ⟨x, hnumber, hlater⟩ := remembered_of_detects (by omega) h
  have hlarge := toNumber_large
  have hfirst : number (2 ^ 53) = some 9007199254740992 := hlarge.1
  have hsecond : number (2 ^ 53 + 1) = some 9007199254740992 := hlarge.2
  rw [hfirst] at hnumber
  exact hlater (2 ^ 53 + 1) (by omega) le_rfl (hsecond.trans hnumber)

end UnsafeKv

end CrashFuzz
