import CrashFuzz.Enumerate.Space

/-!
Torn writes of a reordering model, for window bounds from `1` to `30`.

* `nodup_states`: no state of a crash point is emitted twice.
* `mem_torn_iff`: a write of the window is torn in each selection that lacks it
  and that the filter admits. `torn_count_iff` is what follows for a selection
  that has it.
* `length_states`: how many states a crash point has when the filter admits all
  selections, and `state_count` for the enumeration.
-/

namespace CrashFuzz

open Subsets

variable {events : List TraceEvent} {model : FilesystemModel} {bounds : Bounds} {k W : ℕ}

/-- The sectors a write spans. -/
def sectorsOf (event : TraceEvent) : ℕ := (event.length + (sectorBytes - 1)) / sectorBytes

/-- A call that carries a payload. -/
def IsWrite (event : TraceEvent) : Prop :=
  event.call = .write ∨ event.call = .pwrite ∨ event.call = .writev

instance (event : TraceEvent) : Decidable (IsWrite event) := inferInstanceAs (Decidable (_ ∨ _))

lemma strictSectorPrefixes_write {event : TraceEvent} (h : IsWrite event) :
    strictSectorPrefixes event = (List.range' 1 (sectorsOf event - 1)).map (· * sectorBytes) := by
  have hcall : ¬ (event.call ≠ .write ∧ event.call ≠ .pwrite ∧ event.call ≠ .writev) := by
    rcases h with h | h | h <;> simp [h]
  rw [strictSectorPrefixes, if_neg hcall]
  rfl

lemma strictSectorPrefixes_other {event : TraceEvent} (h : ¬ IsWrite event) :
    strictSectorPrefixes event = [] := by
  rw [strictSectorPrefixes, if_pos]
  simpa [IsWrite] using h

lemma mem_strictSectorPrefixes {event : TraceEvent} (h : IsWrite event) {s : ℕ} :
    sectorBytes * s ∈ strictSectorPrefixes event ↔ 1 ≤ s ∧ s < sectorsOf event := by
  rw [strictSectorPrefixes_write h, List.mem_map]
  constructor
  · rintro ⟨s', hs', heq⟩
    obtain rfl : s' = s := by
      rw [mul_comm] at heq
      exact Nat.eq_of_mul_eq_mul_left (by decide) heq
    have hmem := List.mem_range'_1.mp hs'
    omega
  · intro hs
    exact ⟨s, List.mem_range'_1.mpr (by omega), mul_comm _ _⟩

/-- Each prefix ends at a sector within the payload. -/
lemma exists_of_mem_strictSectorPrefixes {event : TraceEvent} {bytes : ℕ}
    (h : bytes ∈ strictSectorPrefixes event) :
    ∃ s, 1 ≤ s ∧ s < sectorsOf event ∧ bytes = sectorBytes * s := by
  by_cases hwrite : IsWrite event
  · have hmem := h
    rw [strictSectorPrefixes_write hwrite] at hmem
    obtain ⟨s, -, rfl⟩ := List.mem_map.mp hmem
    have hs := (mem_strictSectorPrefixes hwrite).mp (mul_comm s sectorBytes ▸ h)
    exact ⟨s, hs.1, hs.2, mul_comm _ _⟩
  · rw [strictSectorPrefixes_other hwrite] at h
    exact absurd h List.not_mem_nil

lemma nodup_strictSectorPrefixes (event : TraceEvent) : (strictSectorPrefixes event).Nodup := by
  by_cases h : IsWrite event
  · rw [strictSectorPrefixes_write h]
    refine List.Nodup.map (fun a b hab => ?_) List.nodup_range'
    exact Nat.eq_of_mul_eq_mul_right (by decide) hab
  · rw [strictSectorPrefixes_other h]
    exact List.nodup_nil

namespace CrashPoint

/-! ### No state twice -/

lemma nodup_tornStates {ws persisted : List ℕ} (hws : ws.Nodup) :
    (tornStates events ws k persisted).Nodup := by
  rw [tornStates, List.nodup_flatMap]
  constructor
  · intro op _
    split
    · exact List.nodup_nil
    · split
      · exact List.nodup_nil
      · refine (nodup_strictSectorPrefixes _).map fun a b hab => ?_
        simpa using hab
  · refine hws.imp_of_mem fun {op op'} _ _ hne s hs hs' => hne ?_
    have hop : ∀ {op s}, s ∈ tornStates events [op] k persisted →
        ∃ bytes, s = ⟨k, persisted, [⟨op, bytes⟩]⟩ := by
      intro op s hs
      obtain ⟨op', hop', -, event, -, bytes, -, rfl⟩ := mem_tornStates.mp hs
      obtain rfl := List.mem_singleton.mp hop'
      exact ⟨bytes, rfl⟩
    obtain ⟨bytes, rfl⟩ := hop (by simpa [tornStates] using hs)
    obtain ⟨bytes', heq⟩ := hop (by simpa [tornStates] using hs')
    simp only [CrashState.mk.injEq, List.cons.injEq, TornOp.mk.injEq] at heq
    exact heq.2.2.1.1

/-- The states of a mask. -/
def maskGroup (events : List TraceEvent) (bounds : Bounds) (k mask : ℕ) : List CrashState :=
  let persisted := persistedOf events bounds.maxUnpersistedWindow k mask
  if !existsOnDisk events persisted then []
  else
    ⟨k, persisted, []⟩ ::
      if bounds.tornWrites then
        tornStates events (window events bounds.maxUnpersistedWindow k) k persisted
      else []

lemma persisted_of_mem_maskGroup {mask : ℕ} {s : CrashState}
    (hs : s ∈ maskGroup events bounds k mask) :
    s.persisted = persistedOf events bounds.maxUnpersistedWindow k mask := by
  rw [maskGroup] at hs
  split at hs
  · exact absurd hs List.not_mem_nil
  · rcases List.mem_cons.mp hs with rfl | hs
    · rfl
    · split at hs
      · obtain ⟨op, -, -, event, -, bytes, -, rfl⟩ := mem_tornStates.mp hs
        rfl
      · exact absurd hs List.not_mem_nil

lemma nodup_maskGroup (mask : ℕ) : (maskGroup events bounds k mask).Nodup := by
  rw [maskGroup]
  split
  · exact List.nodup_nil
  · refine List.nodup_cons.mpr ⟨fun hs => ?_, ?_⟩
    · split at hs
      · obtain ⟨op, -, -, event, -, bytes, -, heq⟩ := mem_tornStates.mp hs
        simp at heq
      · exact absurd hs List.not_mem_nil
    · split
      · exact nodup_tornStates (pairwise_window.imp ne_of_lt)
      · exact List.nodup_nil

lemma states_eq_flatMap (hmodel : model.totalOrder = false)
    (hbounds : bounds.maxUnpersistedWindow = W) (hW : 1 ≤ W) (hW' : W ≤ 30) :
    states events model bounds k =
      (List.range (2 ^ (window events W k).length)).flatMap (maskGroup events bounds k) := by
  have hcount : maskCount (window events W k).length = 2 ^ (window events W k).length :=
    maskCount_window hW hW'
  rw [states, hmodel, if_neg Bool.false_ne_true, ← hcount, ← hbounds]
  rfl

/-- Every state of a crash point is emitted once. -/
theorem nodup_states (hmodel : model.totalOrder = false)
    (hbounds : bounds.maxUnpersistedWindow = W) (hW : 1 ≤ W) (hW' : W ≤ 30) :
    (states events model bounds k).Nodup := by
  rw [states_eq_flatMap hmodel hbounds hW hW', List.nodup_flatMap]
  refine ⟨fun mask _ => nodup_maskGroup mask, List.nodup_range.imp_of_mem ?_⟩
  intro mask mask' hmask hmask' hne s hs hs'
  have hsame := (persisted_of_mem_maskGroup hs).symm.trans (persisted_of_mem_maskGroup hs')
  rw [hbounds] at hsame
  exact hne (persistedOf_inj hW hW' (List.mem_range.mp hmask) (List.mem_range.mp hmask') hsame)

lemma count_states_eq_one_iff (hmodel : model.totalOrder = false)
    (hbounds : bounds.maxUnpersistedWindow = W) (hW : 1 ≤ W) (hW' : W ≤ 30) {s : CrashState} :
    (states events model bounds k).count s = 1 ↔ s ∈ states events model bounds k :=
  ⟨fun h => List.count_pos_iff.mp (h ▸ Nat.one_pos),
    fun h => List.count_eq_one_of_mem (nodup_states hmodel hbounds hW hW') h⟩

/-! ### Which writes are torn -/

/-- What a torn operation leaves is a prefix of its payload. -/
lemma torn_bytes {s : CrashState} (hs : s ∈ states events model bounds k) {t : TornOp}
    (ht : t ∈ s.partials) : ∃ event ∈ events[t.op]?, t.bytes ∈ strictSectorPrefixes event := by
  rw [states] at hs
  split at hs
  · obtain ⟨n, -, rfl, -⟩ := mem_prefixStates.mp hs
    exact absurd ht List.not_mem_nil
  · obtain ⟨mask, -, -, rfl | ⟨-, htorn⟩⟩ := mem_maskStates.mp hs
    · exact absurd ht List.not_mem_nil
    · obtain ⟨op, -, -, event, hevent, bytes, hbytes, rfl⟩ := mem_tornStates.mp htorn
      obtain rfl := List.mem_singleton.mp ht
      exact ⟨event, hevent, hbytes⟩

/-- A torn state is emitted for each selection without the write that is emitted
itself. -/
lemma mem_torn_iff (hmodel : model.totalOrder = false) (htorn : bounds.tornWrites = true)
    {persisted : List ℕ} {w bytes : ℕ} {event : TraceEvent} (hevent : events[w]? = some event) :
    ⟨k, persisted, [⟨w, bytes⟩]⟩ ∈ states events model bounds k ↔
      ⟨k, persisted, []⟩ ∈ states events model bounds k ∧
        w ∈ window events bounds.maxUnpersistedWindow k ∧ w ∉ persisted ∧
          bytes ∈ strictSectorPrefixes event := by
  rw [states, hmodel, if_neg Bool.false_ne_true, mem_maskStates, mem_maskStates]
  constructor
  · rintro ⟨mask, hmask, hdisk, heq | ⟨-, hs⟩⟩
    · simp at heq
    · obtain ⟨op, hop, hnot, event', hevent', bytes', hbytes, heq⟩ := mem_tornStates.mp hs
      obtain ⟨-, hpersisted, htornOp⟩ := CrashState.mk.inj heq
      obtain ⟨rfl, rfl⟩ := TornOp.mk.inj (List.singleton_inj.mp htornOp)
      obtain rfl : event = event' := Option.some.inj (hevent.symm.trans hevent')
      subst hpersisted
      exact ⟨⟨mask, hmask, hdisk, .inl rfl⟩, hop, hnot, hbytes⟩
  · rintro ⟨⟨mask, hmask, hdisk, heq | ⟨-, hs⟩⟩, hop, hnot, hbytes⟩
    · obtain ⟨-, rfl, -⟩ := CrashState.mk.inj heq
      exact ⟨mask, hmask, hdisk,
        .inr ⟨htorn, mem_tornStates.mpr ⟨w, hop, hnot, event, hevent, bytes, hbytes, rfl⟩⟩⟩
    · obtain ⟨op, -, -, event', -, bytes', -, heq⟩ := mem_tornStates.mp hs
      simp at heq

/-- The selections of untorn states. -/
lemma mem_untornStates {bounds : Bounds} (hmodel : model.totalOrder = false)
    {persisted : List ℕ} : ⟨k, persisted, []⟩ ∈ states events model bounds k ↔
      ∃ mask < maskCount (window events bounds.maxUnpersistedWindow k).length,
        existsOnDisk events (persistedOf events bounds.maxUnpersistedWindow k mask) ∧
          persisted = persistedOf events bounds.maxUnpersistedWindow k mask := by
  rw [states, hmodel, if_neg Bool.false_ne_true, mem_maskStates]
  refine exists_congr fun mask => and_congr_right fun _ => and_congr_right fun _ => ?_
  constructor
  · rintro (heq | ⟨-, hs⟩)
    · exact (CrashState.mk.inj heq).2.1
    · obtain ⟨op, -, -, event', -, bytes', -, heq⟩ := mem_tornStates.mp hs
      simp at heq
  · rintro rfl
    exact .inl rfl

/-- The filter admits what every state of a reordering model keeps. -/
lemma existsOnDisk_of_mem (hmodel : model.totalOrder = false) {s : CrashState}
    (hs : s ∈ states events model bounds k) : existsOnDisk events s.persisted = true := by
  rw [states, hmodel, if_neg Bool.false_ne_true] at hs
  obtain ⟨mask, -, hdisk, rfl | ⟨-, htorn⟩⟩ := mem_maskStates.mp hs
  · exact hdisk
  · obtain ⟨op, -, -, event, -, bytes, -, rfl⟩ := mem_tornStates.mp htorn
    exact hdisk

lemma pairwise_persisted (hmodel : model.totalOrder = false)
    (hbounds : bounds.maxUnpersistedWindow = W) (hW : 1 ≤ W) {persisted : List ℕ}
    (hs : ⟨k, persisted, []⟩ ∈ states events model bounds k) : persisted.Pairwise (· < ·) := by
  obtain ⟨mask, -, -, rfl⟩ := (mem_untornStates hmodel).mp hs
  rw [hbounds]
  exact pairwise_persistedOf hW

/-- Dropping a write of the window from a state leaves a state when the filter
admits it. -/
lemma mem_states_erase_iff (hmodel : model.totalOrder = false)
    (hbounds : bounds.maxUnpersistedWindow = W) (hW : 1 ≤ W) (hW' : W ≤ 30)
    {persisted : List ℕ} {w : ℕ} (hs : ⟨k, persisted, []⟩ ∈ states events model bounds k)
    (hw : w ∈ window events W k) :
    ⟨k, persisted.erase w, []⟩ ∈ states events model bounds k ↔
      existsOnDisk events (persisted.erase w) = true := by
  obtain ⟨mask, -, -, rfl⟩ := (mem_untornStates hmodel).mp hs
  rw [mem_untornStates hmodel, hbounds, maskCount_window hW hW']
  have hasc : (persistedOf events W k mask).Pairwise (· < ·) := pairwise_persistedOf hW
  constructor
  · rintro ⟨mask', -, hdisk, heq⟩
    rwa [heq]
  · intro hdisk
    have hleast : ∀ i ∈ alwaysPresent events W k, i ∈ (persistedOf events W k mask).erase w := by
      intro i hi
      have hne : i ≠ w := fun h => notMem_window_of_alwaysPresent hW (h ▸ hi) hw
      exact (List.mem_erase_of_ne hne).mpr (mem_persistedOf.mpr (.inl hi))
    have hissued : ∀ i ∈ (persistedOf events W k mask).erase w, i ∈ issued events W k :=
      fun i hi => mem_issued_of_mem_persistedOf (List.mem_of_mem_erase hi)
    obtain ⟨mask', hmask', heq⟩ :=
      exists_persistedOf hW hW' (hasc.sublist List.erase_sublist) hleast hissued
    exact ⟨mask', hmask', heq ▸ hdisk, heq.symm⟩

end CrashPoint

/-- A selection from which the only support of a size change is dropped is not
legal, any other one is. -/
lemma existsOnDisk_erase_iff {persisted : List ℕ} {w : ℕ}
    (hasc : persisted.Nodup) (hdisk : existsOnDisk events persisted = true) :
    existsOnDisk events (persisted.erase w) = true ↔
      ∀ t ∈ persisted, ResizesAt events t → SamePathBefore events t w →
        ∃ j ∈ persisted, j ≠ w ∧ SamePathBefore events t j := by
  rw [existsOnDisk_iff]
  constructor
  · intro h t ht hresize hbefore
    have hne : t ≠ w := by
      rintro rfl
      exact lt_irrefl _ hbefore.1
    obtain ⟨j, hj, hjt⟩ := h t ((List.mem_erase_of_ne hne).mpr ht) hresize ⟨w, hbefore⟩
    exact ⟨j, List.mem_of_mem_erase hj, (hasc.mem_erase_iff.mp hj).1, hjt⟩
  · intro h t ht hresize hbefore
    have ht' := List.mem_of_mem_erase ht
    obtain ⟨j, hj, hjt⟩ := existsOnDisk_iff.mp hdisk t ht' hresize hbefore
    rcases eq_or_ne j w with rfl | hjw
    · obtain ⟨i, hi, hiw, hit⟩ := h t ht' hresize hjt
      exact ⟨i, (List.mem_erase_of_ne hiw).mpr hi, hit⟩
    · exact ⟨j, (List.mem_erase_of_ne hjw).mpr hj, hjt⟩

/-- A state is emitted as often as its crash point is listed, times what the
crash point holds of it. -/
lemma count_enumerate {trace : Trace} {options : EnumerateOptions} {out : List CrashState}
    (hok : enumerateCrashStates trace options = .ok out) {s : CrashState} :
    out.count s = (options.crashPoints.getD (List.range trace.events.length)).count s.crashPoint *
      (CrashPoint.states trace.events options.model options.bounds s.crashPoint).count s := by
  obtain ⟨-, rfl⟩ := enumerateFrom_eq_ok.mp hok
  generalize options.crashPoints.getD (List.range trace.events.length) = ks
  have hfilter : (ks.flatMap (CrashPoint.states trace.events options.model options.bounds)).count
      s = ((ks.flatMap (CrashPoint.states trace.events options.model options.bounds)).filter
        (·.crashPoint = s.crashPoint)).count s := by
    rw [List.count_filter]
    simp
  rw [hfilter, filter_flatMap_states, List.count_flatMap, List.map_replicate, List.sum_replicate,
    smul_eq_mul]
  rfl

/-- **Torn writes of a selection**: each strict prefix of a write in the window
is emitted once, as often as the crash point is listed, unless the write is the
only one left of the operations before some size change of its file. -/
theorem torn_count_iff {trace : Trace} {options : EnumerateOptions} {out : List CrashState}
    (hmodel : options.model.totalOrder = false) (htorn : options.bounds.tornWrites = true)
    (hbounds : options.bounds.maxUnpersistedWindow = W) (hW : 1 ≤ W) (hW' : W ≤ 30)
    (hok : enumerateCrashStates trace options = .ok out) {persisted : List ℕ} {w : ℕ}
    {event : TraceEvent} (hs : ⟨k, persisted, []⟩ ∈ out)
    (hwindow : w ∈ CrashPoint.window trace.events W k) (hevent : trace.events[w]? = some event)
    (hwrite : IsWrite event) :
    (∀ s, 1 ≤ s → s < sectorsOf event →
      out.count ⟨k, persisted.erase w, [⟨w, sectorBytes * s⟩]⟩ =
        (options.crashPoints.getD (List.range trace.events.length)).count k) ↔
      sectorsOf event ≤ 1 ∨ ∀ t ∈ persisted, ResizesAt trace.events t →
        SamePathBefore trace.events t w →
          ∃ j ∈ persisted, j ≠ w ∧ SamePathBefore trace.events t j := by
  have hcount := fun s => count_enumerate (s := s) hok
  set ks := options.crashPoints.getD (List.range trace.events.length)
  set states := CrashPoint.states trace.events options.model options.bounds k with hstates
  -- the crash point is listed, and holds the selection
  have hmem : 0 < ks.count k * states.count ⟨k, persisted, []⟩ := by
    rw [← hcount ⟨k, persisted, []⟩]
    exact List.count_pos_iff.mpr hs
  have hk : 0 < ks.count k := Nat.pos_of_mul_pos_right hmem
  have hs' : ⟨k, persisted, []⟩ ∈ states :=
    List.count_pos_iff.mp (Nat.pos_of_mul_pos_left hmem)
  have hnodup : persisted.Nodup :=
    (CrashPoint.pairwise_persisted hmodel hbounds hW hs').imp ne_of_lt
  have hdisk := CrashPoint.existsOnDisk_of_mem hmodel hs'
  have htorn_iff : ∀ s, 1 ≤ s → s < sectorsOf event →
      (out.count ⟨k, persisted.erase w, [⟨w, sectorBytes * s⟩]⟩ = ks.count k ↔
        existsOnDisk trace.events (persisted.erase w) = true) := by
    intro s hs1 hsn
    have hpartial : sectorBytes * s ∈ strictSectorPrefixes event :=
      (mem_strictSectorPrefixes hwrite).mpr ⟨hs1, hsn⟩
    rw [hcount ⟨k, persisted.erase w, [⟨w, sectorBytes * s⟩]⟩, Nat.mul_eq_left hk.ne',
      CrashPoint.count_states_eq_one_iff hmodel hbounds hW hW',
      CrashPoint.mem_torn_iff hmodel htorn hevent,
      CrashPoint.mem_states_erase_iff hmodel hbounds hW hW' hs' hwindow, hbounds]
    exact ⟨fun h => h.1, fun h => ⟨h, hwindow, hnodup.not_mem_erase, hpartial⟩⟩
  rw [← existsOnDisk_erase_iff hnodup hdisk]
  constructor
  · intro h
    by_cases hn : sectorsOf event ≤ 1
    · exact .inl hn
    · exact .inr ((htorn_iff 1 le_rfl (by omega)).mp (h 1 le_rfl (by omega)))
  · rintro (hn | h) s hs1 hsn
    · omega
    · exact (htorn_iff s hs1 hsn).mpr h

/-- One write of four sectors. -/
def tornTrace : Trace where
  header := ⟨1, 1⟩
  events := [{ callAt 0 .write "/db/a" with length := 2048, returnValue := 2048 }]
  markers := []

/-- Its crash states. -/
def tornOutcomes : List CrashState :=
  [⟨0, [], []⟩, ⟨0, [], [⟨0, 512⟩]⟩, ⟨0, [], [⟨0, 1024⟩]⟩, ⟨0, [], [⟨0, 1536⟩]⟩, ⟨0, [0], []⟩]

theorem torn_count_whole :
    enumerateCrashStates tornTrace ⟨xfs, ⟨true, 8⟩, none⟩ = .ok tornOutcomes ∧
      ∀ s, 1 ≤ s → s < 4 → tornOutcomes.count ⟨0, [], [⟨0, 512 * s⟩]⟩ = 1 := by
  have hok : enumerateCrashStates tornTrace ⟨xfs, ⟨true, 8⟩, none⟩ = .ok tornOutcomes := by
    decide
  have hs : (⟨0, [0], []⟩ : CrashState) ∈ tornOutcomes := by decide
  have hwindow : 0 ∈ CrashPoint.window tornTrace.events (8 : ℕ) 0 := by decide
  have hwrite : IsWrite { callAt 0 .write "/db/a" with length := 2048, returnValue := 2048 } :=
    .inl rfl
  have hiff := torn_count_iff rfl rfl rfl (by decide) (by decide) hok hs hwindow rfl
    hwrite
  refine ⟨hok, hiff.mpr (.inr ?_)⟩
  intro t ht _ hbefore
  obtain rfl := List.mem_singleton.mp ht
  exact absurd hbefore.1 (lt_irrefl _)

/-- A write that creates a file, and a size change of it. -/
def resizedTrace : Trace where
  header := ⟨1, 1⟩
  events := [{ callAt 0 .write "/db/a" with length := 1024, returnValue := 1024 },
    { callAt 1 .ftruncate "/db/a" with length := 128 }]
  markers := []

/-- Its crash states. -/
def resizedOutcomes : List CrashState :=
  [⟨0, [], []⟩, ⟨0, [], [⟨0, 512⟩]⟩, ⟨0, [0], []⟩,
    ⟨1, [], []⟩, ⟨1, [], [⟨0, 512⟩]⟩, ⟨1, [0], []⟩, ⟨1, [0, 1], []⟩]

/-- With the size change on disk the write is whole, never torn. -/
theorem torn_resized_missing :
    enumerateCrashStates resizedTrace ⟨xfs, ⟨true, 8⟩, none⟩ = .ok resizedOutcomes ∧
      ⟨1, [0, 1], []⟩ ∈ resizedOutcomes ∧ 0 ∈ CrashPoint.window resizedTrace.events 8 1 ∧
        resizedOutcomes.count ⟨1, [1], [⟨0, 512⟩]⟩ = 0 := by
  decide

/-! ### Counting states -/

/-- The outcomes of an operation that is not lost: one for each sector of a
write. -/
def outcomesOf (event : TraceEvent) : ℕ :=
  if IsWrite event then max 1 (sectorsOf event) else 1

lemma length_strictSectorPrefixes (event : TraceEvent) :
    (strictSectorPrefixes event).length = outcomesOf event - 1 := by
  rw [outcomesOf]
  split
  · next h =>
      rw [strictSectorPrefixes_write h, List.length_map, List.length_range']
      omega
  · next h => rw [strictSectorPrefixes_other h, List.length_nil]

/-- The outcomes of the operation at a position. -/
def outcomesAt (events : List TraceEvent) (op : ℕ) : ℕ := (events[op]?).elim 1 outcomesOf

/-- The most outcomes an operation of the trace has. -/
def maxOutcomes (events : List TraceEvent) : ℕ := (events.map outcomesOf).foldr max 1

lemma outcomesAt_le (events : List TraceEvent) (op : ℕ) :
    outcomesAt events op ≤ maxOutcomes events := by
  have hfold : ∀ {ns : List ℕ} {n : ℕ}, n ∈ 1 :: ns → n ≤ ns.foldr max 1 := by
    intro ns n hn
    induction ns with
    | nil => exact (List.mem_singleton.mp hn).le
    | cons m ns ih =>
        rw [List.foldr_cons]
        rcases List.mem_cons.mp hn with rfl | hn
        · exact (ih List.mem_cons_self).trans (le_max_right _ _)
        · rcases List.mem_cons.mp hn with rfl | hn
          · exact le_max_left _ _
          · exact (ih (List.mem_cons_of_mem _ hn)).trans (le_max_right _ _)
  rw [outcomesAt, maxOutcomes]
  cases hev : events[op]? with
  | none => exact hfold List.mem_cons_self
  | some event =>
      exact hfold (List.mem_cons_of_mem _ (List.mem_map_of_mem (List.mem_of_getElem? hev)))

namespace CrashPoint

/-- The torn states of a selection are those of the operations it lacks. -/
lemma length_tornStates {ws persisted : List ℕ} :
    (tornStates events ws k persisted).length =
      ((ws.filter (· ∉ persisted)).map fun op => outcomesAt events op - 1).sum := by
  rw [tornStates, List.length_flatMap]
  induction ws with
  | nil => rfl
  | cons op ws ih =>
      rw [List.map_cons, List.sum_cons, ih, List.filter_cons]
      by_cases hop : op ∈ persisted
      · simp [hop]
      · cases hev : events[op]? with
        | none => simp [hop, hev, outcomesAt]
        | some event => simp [hop, hev, outcomesAt, length_strictSectorPrefixes]

/-- In the window, a selection lacks what its mask does not pick. -/
lemma filter_window (hW : 1 ≤ W) (hW' : W ≤ 30) (mask : ℕ) :
    (window events W k).filter (· ∉ persistedOf events W k mask) =
      pick (fun i => !mask.testBit i) (window events W k) := by
  rw [← filter_notMem_pick (pairwise_window.imp ne_of_lt)]
  refine List.filter_congr fun op hop => ?_
  rw [decide_eq_decide, mem_persistedOf_iff ((length_window_le hW).trans hW'), or_iff_right]
  exact fun h => notMem_window_of_alwaysPresent hW h hop

/-- The number of states at a crash point where every selection is legal. -/
theorem length_states (hmodel : model.totalOrder = false) (htorn : bounds.tornWrites = true)
    (hbounds : bounds.maxUnpersistedWindow = W) (hW : 1 ≤ W) (hW' : W ≤ 30)
    (hdisk : ∀ persisted, existsOnDisk events persisted = true) :
    (states events model bounds k).length =
      2 ^ (window events W k).length + 2 ^ ((window events W k).length - 1) *
        ((window events W k).map fun op => outcomesAt events op - 1).sum := by
  have hgroup : ∀ mask, (maskGroup events bounds k mask).length =
      1 + ((pick (fun i => !mask.testBit i) (window events W k)).map
        fun op => outcomesAt events op - 1).sum := by
    intro mask
    rw [maskGroup, hdisk, hbounds, htorn, ← filter_window hW hW', ← length_tornStates]
    exact Nat.add_comm _ _
  rw [states_eq_flatMap hmodel hbounds hW hW', List.length_flatMap, ← sum_unpicked]
  calc ((List.range (2 ^ (window events W k).length)).map fun mask =>
        (maskGroup events bounds k mask).length).sum
      = ∑ mask ∈ Finset.range (2 ^ (window events W k).length),
          (maskGroup events bounds k mask).length := rfl
    _ = ∑ mask ∈ Finset.range (2 ^ (window events W k).length),
          (1 + ((pick (fun i => !mask.testBit i) (window events W k)).map
            fun op => outcomesAt events op - 1).sum) :=
        Finset.sum_congr rfl fun mask _ => hgroup mask
    _ = 2 ^ (window events W k).length +
          ∑ mask ∈ Finset.range (2 ^ (window events W k).length),
            ((pick (fun i => !mask.testBit i) (window events W k)).map
              fun op => outcomesAt events op - 1).sum := by
        rw [Finset.sum_add_distrib, Finset.sum_const, Finset.card_range, smul_eq_mul, mul_one]

end CrashPoint

lemma existsOnDisk_of_no_resize (hresize : ∀ e ∈ events, e.call ∉ needsExistingFile)
    (persisted : List ℕ) : existsOnDisk events persisted = true := by
  refine existsOnDisk_iff.mpr fun t _ ⟨e, he, hcall⟩ => ?_
  exact absurd hcall (hresize e (List.mem_of_getElem? he))

/-- The states of a window of operations with so many outcomes each. -/
def stateCount (outcomes : List ℕ) : ℕ :=
  if outcomes = [] then 1
  else 2 ^ outcomes.length + 2 ^ (outcomes.length - 1) * (outcomes.map (· - 1)).sum

/-- The bound grows with the window and the number of outcomes. -/
lemma stateCount_le {outcomes : List ℕ} {s : ℕ} (hlen : outcomes.length ≤ W)
    (hs : ∀ o ∈ outcomes, o ≤ s) : 2 * stateCount outcomes ≤ 2 ^ W * (2 + W * (s - 1)) := by
  have hpow : 2 ^ outcomes.length ≤ 2 ^ W := Nat.pow_le_pow_right (by decide) hlen
  rw [stateCount]
  split
  · calc 2 * 1 ≤ 1 * (2 + 0) := by decide
      _ ≤ 2 ^ W * (2 + W * (s - 1)) := Nat.mul_le_mul Nat.one_le_two_pow (by omega)
  · next hne =>
      have hsum : (outcomes.map (· - 1)).sum ≤ outcomes.length * (s - 1) := by
        have hle := List.sum_le_card_nsmul (outcomes.map (· - 1)) (s - 1) fun n hn => by
          obtain ⟨o, ho, rfl⟩ := List.mem_map.mp hn
          exact Nat.sub_le_sub_right (hs o ho) 1
        rwa [List.length_map, smul_eq_mul] at hle
      have hhalf : 2 * 2 ^ (outcomes.length - 1) = 2 ^ outcomes.length := by
        rw [← pow_succ', Nat.sub_add_cancel (List.length_pos_iff.mpr hne)]
      calc 2 * (2 ^ outcomes.length + 2 ^ (outcomes.length - 1) * (outcomes.map (· - 1)).sum)
          = 2 ^ outcomes.length * (2 + (outcomes.map (· - 1)).sum) := by
            rw [mul_add, ← mul_assoc, hhalf, mul_add, mul_comm 2]
        _ ≤ 2 ^ W * (2 + W * (s - 1)) := by
            refine Nat.mul_le_mul hpow (Nat.add_le_add_left ?_ 2)
            exact hsum.trans (Nat.mul_le_mul_right _ hlen)

/-- **The number of crash states** of a trace without size changes: at each
crash point they are different and so many, and there are no more than a number
linear in the crash points. -/
theorem state_count {trace : Trace} {options : EnumerateOptions} {out : List CrashState}
    (hmodel : options.model.totalOrder = false) (htorn : options.bounds.tornWrites = true)
    (hbounds : options.bounds.maxUnpersistedWindow = W) (hW : 1 ≤ W) (hW' : W ≤ 30)
    (hresize : ∀ e ∈ trace.events, e.call ∉ needsExistingFile)
    (hok : enumerateCrashStates trace options = .ok out) :
    (∀ k, (options.crashPoints.getD (List.range trace.events.length)).count k = 1 →
      (out.filter (·.crashPoint = k)).Nodup ∧
        (out.filter (·.crashPoint = k)).length =
          stateCount ((CrashPoint.window trace.events W k).map (outcomesAt trace.events))) ∧
      2 * out.length ≤ (options.crashPoints.getD (List.range trace.events.length)).length *
        (2 ^ W * (2 + W * (maxOutcomes trace.events - 1))) := by
  obtain ⟨-, rfl⟩ := enumerateFrom_eq_ok.mp hok
  generalize options.crashPoints.getD (List.range trace.events.length) = ks
  have hlength : ∀ k, (CrashPoint.states trace.events options.model options.bounds k).length =
      stateCount ((CrashPoint.window trace.events W k).map (outcomesAt trace.events)) := by
    intro k
    rw [CrashPoint.length_states hmodel htorn hbounds hW hW' (existsOnDisk_of_no_resize hresize),
      stateCount, List.length_map, List.map_map]
    split
    · next hnil => simp [List.map_eq_nil_iff.mp hnil]
    · rfl
  constructor
  · intro k hk
    rw [filter_flatMap_states, hk, List.replicate_one, List.flatMap_singleton]
    exact ⟨CrashPoint.nodup_states hmodel hbounds hW hW', hlength k⟩
  · have hle : ∀ k, 2 * (CrashPoint.states trace.events options.model options.bounds k).length ≤
        2 ^ W * (2 + W * (maxOutcomes trace.events - 1)) := by
      intro k
      rw [hlength]
      refine stateCount_le ?_ fun o ho => ?_
      · rw [List.length_map]
        exact CrashPoint.length_window_le hW
      · obtain ⟨op, -, rfl⟩ := List.mem_map.mp ho
        exact outcomesAt_le _ op
    induction ks with
    | nil => simp
    | cons k ks ih =>
        rw [List.flatMap_cons, List.length_append, List.length_cons, Nat.mul_add,
          Nat.add_one_mul ks.length, Nat.add_comm]
        exact Nat.add_le_add ih (hle k)

theorem state_count_torn :
    tornOutcomes.Nodup ∧ tornOutcomes.length = stateCount [4] ∧
      2 * tornOutcomes.length ≤ 1 * (2 ^ 8 * (2 + 8 * (maxOutcomes tornTrace.events - 1))) := by
  have hok : enumerateCrashStates tornTrace ⟨xfs, ⟨true, 8⟩, none⟩ = .ok tornOutcomes := by
    decide
  have hresize : ∀ e ∈ tornTrace.events, e.call ∉ needsExistingFile := by decide
  obtain ⟨hat, htotal⟩ := state_count rfl rfl rfl (by decide) (by decide) hresize hok
  have hzero := hat 0 (by decide)
  have hall : tornOutcomes.filter (·.crashPoint = 0) = tornOutcomes := by decide
  rw [hall] at hzero
  exact ⟨hzero.1, hzero.2, htotal⟩

end CrashFuzz
