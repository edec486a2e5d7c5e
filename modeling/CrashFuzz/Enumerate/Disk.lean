import CrashFuzz.Enumerate.Tearing
import CrashFuzz.Lib.Writeback

/-!
The enumerated states as what a crash leaves of a disk.

* `diskOf`: a disk with a write-back cache that a model and its bounds describe. A
  persistence call that returned has waited for the earlier mutations of its path;
  the other ones reach the medium in program order, or in any order that lets no
  size change of a file precede all of its earlier mutations.
* `LeftBy`: a state is what a crash leaves of it, in some run.
* `mem_states_iff`: the states of a crash point are those of them that keep
  what is older than the window.
* `emitted_iff_left`: so every state of the enumeration is one that some run of the disk
  may be left in, and none is missing if the window has room.
* `le_reordering`: a disk that keeps program order leaves nothing that one that does not
  could not leave.
* `CrashPoint.mem_states_of_room`: in the same way a window with room has, under a model
  that reorders, the states of every model and window, whatever calls failed.
-/

namespace CrashFuzz

open Subsets Writeback Writeback.Device

variable {events : List TraceEvent} {model : FilesystemModel} {bounds : Bounds} {k i W : ℕ}
  {s : CrashState}

/-! ### The disk of a model -/

/-- The persistence call at `f` returned, and the mutation at `i` came before it on its
path. -/
def SyncedBy (events : List TraceEvent) (f i : ℕ) : Prop :=
  i < f ∧ Applied events i ∧ ∃ e ∈ events[f]?, e.call ∈ persistence ∧ 0 ≤ e.returnValue ∧
    ∃ m ∈ events[i]?, m.path = e.path

/-- A size change may reach a medium that holds an earlier mutation of its path, if there is
one. -/
def Backed (events : List TraceEvent) (D : Set ℕ) (i : ℕ) : Prop :=
  ResizesAt events i → (∃ j, SamePathBefore events i j) → ∃ j ∈ D, SamePathBefore events i j

/-- Every earlier mutation is on the medium. -/
def InOrder (events : List TraceEvent) (D : Set ℕ) (i : ℕ) : Prop :=
  ∀ j < i, Applied events j → j ∈ D

/-- Sectors of a write, some of them but not all, from the first one on. -/
def SectorsOf (events : List TraceEvent) (i bytes : ℕ) : Prop :=
  ∃ event ∈ events[i]?, IsWrite event ∧
    ∃ sectors, 1 ≤ sectors ∧ sectors < sectorsOf event ∧ bytes = sectorBytes * sectors

/-- The disk that a model and its bounds describe. -/
def diskOf (events : List TraceEvent) (model : FilesystemModel) (bounds : Bounds) : Device ℕ where
  Writes := Applied events
  Waits := SyncedBy events
  Ready D i := if model.totalOrder then InOrder events D i else Backed events D i
  Part i bytes := model.totalOrder = false ∧ bounds.tornWrites = true ∧ SectorsOf events i bytes
  waits_lt := And.left
  ready_mono {D E i} hsub h := by
    split at h
    · rw [if_pos (by assumption)]
      exact fun j hj happlied => hsub (h j hj happlied)
    · rw [if_neg (by assumption)]
      intro hresize hbefore
      obtain ⟨j, hj, hsame⟩ := h hresize hbefore
      exact ⟨j, hsub hj, hsame⟩
  ready_before {D i} h := by
    split at h
    · rw [if_pos (by assumption)]
      exact fun j hj happlied => ⟨h j hj happlied, hj⟩
    · rw [if_neg (by assumption)]
      intro hresize hbefore
      obtain ⟨j, hj, hsame⟩ := h hresize hbefore
      exact ⟨j, ⟨hj, hsame.1⟩, hsame⟩

/-- A model that keeps program order lets a mutation reach the medium after all earlier
ones. -/
lemma ready_ordered {D : Set ℕ} (hmodel : model.totalOrder = true) :
    (diskOf events model bounds).Ready D i ↔ InOrder events D i := by
  simp [diskOf, hmodel]

/-- A model that reorders lets it reach the medium once it is backed. -/
lemma ready_reordered {D : Set ℕ} (hmodel : model.totalOrder = false) :
    (diskOf events model bounds).Ready D i ↔ Backed events D i := by
  simp [diskOf, hmodel]

/-- What a crash after `s.crashPoint` leaves of the disk, listed in ascending order. -/
structure LeftBy (events : List TraceEvent) (model : FilesystemModel) (bounds : Bounds)
    (s : CrashState) : Prop where
  ascending : s.persisted.Pairwise (· < ·)
  crash : ∃ torn, (diskOf events model bounds).Crash (s.crashPoint + 1) {i | i ∈ s.persisted} torn ∧
    s.partials = torn.toList.map fun t => ⟨t.1, t.2⟩

/-- No call that failed was followed by a successful persistence call on its path. -/
def PinsApplied (events : List TraceEvent) : Prop := ∀ k i, Pinned events k i → Applied events i

lemma AllSucceeded.pinsApplied (h : AllSucceeded events) : PinsApplied events := by
  rintro k i ⟨m, hm, hmut, -⟩
  exact ⟨m, hm, hmut, h m (List.mem_of_getElem? hm) hmut⟩

/-! ### What is durable -/

/-- What some call up to `k` has waited for is pinned. -/
lemma pinned_iff_synced (hpins : PinsApplied events) :
    Pinned events k i ↔ ∃ f < k + 1, SyncedBy events f i := by
  constructor
  · intro h
    have happlied := hpins k i h
    obtain ⟨m, hm, -, f, hif, hfk, e, he, hcall, hret, hpath⟩ := h
    exact ⟨f, Nat.lt_succ_of_le hfk, hif, happlied, e, he, hcall, hret, m, hm, hpath⟩
  · rintro ⟨f, hfk, hif, ⟨m, hm, hmut, -⟩, e, he, hcall, hret, m', hm', hpath⟩
    obtain rfl : m' = m := Option.mem_unique hm' hm
    exact ⟨m', hm, hmut, f, hif, Nat.le_of_lt_succ hfk, e, he, hcall, hret, hpath⟩

lemma mem_issued_iff_applied (hpins : PinsApplied events) {V : ℤ} :
    i ∈ CrashPoint.issued events V k ↔ i < k + 1 ∧ Applied events i := by
  constructor
  · intro h
    refine ⟨Nat.lt_succ_of_le (CrashPoint.le_of_mem_issued h), ?_⟩
    rcases CrashPoint.mem_issued.mp h with h | h
    · exact hpins k i h
    · exact (CrashPoint.mem_free.mp h).2.1
  · exact fun h => CrashPoint.mem_issued_of_applied (Nat.le_of_lt_succ h.1) h.2

/-- What is durable after a crash point, in terms of the enumerator. -/
lemma consistent_iff (hpins : PinsApplied events) {V : ℤ} {persisted : List ℕ} :
    (diskOf events model bounds).Consistent ⟨k + 1, {i | i ∈ persisted}⟩ ↔
      (∀ i ∈ persisted, i ∈ CrashPoint.issued events V k) ∧
        (∀ i, Pinned events k i → i ∈ persisted) ∧
          ∀ i ∈ persisted, (diskOf events model bounds).Ready {i | i ∈ persisted} i := by
  have hpinned : (∀ i, Pinned events k i → i ∈ persisted) ↔
      ∀ f < k + 1, ∀ i, SyncedBy events f i → i ∈ persisted := by
    simp only [pinned_iff_synced hpins]
    exact ⟨fun h f hf i hi => h i ⟨f, hf, hi⟩, fun h i ⟨f, hf, hi⟩ => h f hf i hi⟩
  simp only [mem_issued_iff_applied hpins, hpinned]
  exact ⟨fun h => ⟨h.issued, h.waited, h.ready⟩, fun h => ⟨h.1, h.2.2, h.2.1⟩⟩

namespace CrashPoint

/-! ### Program order -/

/-- The prefixes of the issued operations are the lists that hold what is below their own. -/
lemma prefix_issued_iff {V : ℤ} {persisted : List ℕ} : persisted <+: issued events V k ↔
    persisted.Pairwise (· < ·) ∧ (∀ i ∈ persisted, i ∈ issued events V k) ∧
      ∀ i ∈ persisted, ∀ j ∈ issued events V k, j < i → j ∈ persisted := by
  constructor
  · intro h
    refine ⟨pairwise_issued.sublist h.sublist, fun i hi => h.subset hi, fun i hi j hj hji => ?_⟩
    rw [List.prefix_iff_eq_take.mp h] at hi ⊢
    exact mem_take_of_lt pairwise_issued hj hi hji
  · exact fun h => prefix_of_closed pairwise_issued h.1 h.2.1 h.2.2

/-- The states of a model that keeps program order. -/
lemma mem_prefixStates_iff {V : ℤ} : s ∈ prefixStates events V k ↔
    s.crashPoint = k ∧ s.persisted <+: issued events V k ∧
      (∀ a ∈ alwaysPresent events V k, a ∈ s.persisted) ∧ s.partials = [] := by
  rw [mem_prefixStates]
  constructor
  · rintro ⟨n, -, rfl, hleast⟩
    exact ⟨rfl, List.take_prefix _ _, hleast, rfl⟩
  · obtain ⟨c, persisted, partials⟩ := s
    rintro ⟨rfl, hpre, hleast, rfl⟩
    have htake := List.prefix_iff_eq_take.mp hpre
    exact ⟨persisted.length, hpre.length_le, by rw [← htake], by rwa [← htake]⟩

/-! ### Reordering -/

/-- The selections of the masks. -/
lemma exists_mask_iff (hW : 1 ≤ W) (hW' : W ≤ 30) {persisted : List ℕ} :
    (∃ mask < maskCount (window events W k).length, persistedOf events W k mask = persisted) ↔
      persisted.Pairwise (· < ·) ∧ (∀ a ∈ alwaysPresent events W k, a ∈ persisted) ∧
        ∀ i ∈ persisted, i ∈ issued events W k := by
  rw [maskCount_window hW hW']
  constructor
  · rintro ⟨mask, -, rfl⟩
    exact ⟨pairwise_persistedOf hW, fun a ha => mem_persistedOf.mpr (Or.inl ha),
      fun i hi => mem_issued_of_mem_persistedOf hi⟩
  · rintro ⟨hasc, hleast, hissued⟩
    exact exists_persistedOf hW hW' hasc hleast hissued

/-- What of the window is torn in a selection that keeps the rest. -/
lemma mem_window_iff (hpins : PinsApplied events) {V : ℤ} {persisted : List ℕ}
    (hleast : ∀ a ∈ alwaysPresent events V k, a ∈ persisted) (hi : i ∉ persisted) :
    i ∈ window events V k ↔ i < k + 1 ∧ Applied events i := by
  rw [← mem_issued_iff_applied hpins (V := V), mem_issued]
  have hnot : i ∉ alwaysPresent events V k := fun h => hi (hleast i h)
  rw [mem_alwaysPresent, not_or] at hnot
  rw [or_iff_right hnot.1]
  exact ⟨fun h => window_sublist.subset h, fun h => (mem_older_or_window h).resolve_left hnot.2⟩

/-- The parts of a write that the enumerator tears off. -/
lemma sectorsOf_iff {op bytes : ℕ} :
    SectorsOf events op bytes ↔ ∃ event ∈ events[op]?, bytes ∈ strictSectorPrefixes event := by
  refine exists_congr fun event => and_congr_right fun _ => ?_
  constructor
  · rintro ⟨hwrite, sectors, hlow, hhigh, rfl⟩
    exact (mem_strictSectorPrefixes hwrite).mpr ⟨hlow, hhigh⟩
  · intro h
    refine ⟨?_, exists_of_mem_strictSectorPrefixes h⟩
    by_contra hother
    rw [strictSectorPrefixes_other hother] at h
    cases h

/-- The states of a model that reorders. -/
lemma mem_maskStates_iff (hpins : PinsApplied events) (hbounds : bounds.maxUnpersistedWindow = W)
    (hW : 1 ≤ W) (hW' : W ≤ 30) : s ∈ maskStates events bounds k ↔
      s.crashPoint = k ∧ (s.persisted.Pairwise (· < ·) ∧
        (∀ a ∈ alwaysPresent events W k, a ∈ s.persisted) ∧
          ∀ i ∈ s.persisted, i ∈ issued events W k) ∧ existsOnDisk events s.persisted = true ∧
        ∃ torn : Option (ℕ × ℕ), s.partials = torn.toList.map (fun t => ⟨t.1, t.2⟩) ∧
          ∀ t ∈ torn, bounds.tornWrites = true ∧ t.1 ∉ s.persisted ∧
            (t.1 < k + 1 ∧ Applied events t.1) ∧ SectorsOf events t.1 t.2 := by
  rw [mem_maskStates, hbounds]
  constructor
  · rintro ⟨mask, hmask, hdisk, rfl | ⟨htorn, hs⟩⟩
    · exact ⟨rfl, (exists_mask_iff hW hW').mp ⟨mask, hmask, rfl⟩, hdisk, none, rfl,
        fun _ h => absurd h (Option.not_mem_none _)⟩
    · obtain ⟨op, hop, hnot, event, hevent, bytes, hbytes, rfl⟩ := mem_tornStates.mp hs
      have hselection := (@exists_mask_iff events k W hW hW' _).mp ⟨mask, hmask, rfl⟩
      refine ⟨rfl, hselection, hdisk, some (op, bytes), rfl, fun t ht => ?_⟩
      obtain rfl : (op, bytes) = t := Option.some.inj ht
      exact ⟨htorn, hnot, (mem_window_iff hpins hselection.2.1 hnot).mp hop,
        sectorsOf_iff.mpr ⟨event, hevent, hbytes⟩⟩
  · obtain ⟨c, persisted, partials⟩ := s
    rintro ⟨rfl, hselection, hdisk, torn, rfl, htorn⟩
    obtain ⟨mask, hmask, hmem⟩ := (exists_mask_iff hW hW').mpr hselection
    change persistedOf events W c mask = persisted at hmem
    subst hmem
    refine ⟨mask, hmask, hdisk, ?_⟩
    cases torn with
    | none => exact Or.inl rfl
    | some t =>
        obtain ⟨hflag, hnot, happlied, hpart⟩ := htorn t rfl
        obtain ⟨event, hevent, hbytes⟩ := sectorsOf_iff.mp hpart
        exact Or.inr ⟨hflag, mem_tornStates.mpr ⟨t.1,
          (mem_window_iff hpins hselection.2.1 hnot).mpr happlied, hnot, event, hevent, t.2,
          hbytes, rfl⟩⟩

end CrashPoint

/-! ### The states of a crash point -/

/-- Nothing that tears is a size change. -/
lemma SectorsOf.not_resizesAt {bytes : ℕ} (h : SectorsOf events i bytes) :
    ¬ ResizesAt events i := by
  obtain ⟨event, hevent, hwrite, -⟩ := h
  rintro ⟨e, he, hresize⟩
  obtain rfl : e = event := Option.mem_unique he hevent
  rcases hwrite with h | h | h <;> simp [h, needsExistingFile] at hresize

lemma pinned_of_kept {V : ℤ} {persisted : List ℕ}
    (h : ∀ a ∈ CrashPoint.alwaysPresent events V k, a ∈ persisted) :
    ∀ i, Pinned events k i → i ∈ persisted := fun i hi =>
  h i (CrashPoint.mem_alwaysPresent.mpr (Or.inl hi))

/-- A model that keeps program order tears nothing, and keeps a prefix of what was issued. -/
lemma mem_states_iff_of_ordered (hmodel : model.totalOrder = true) (hpins : PinsApplied events) :
    s ∈ CrashPoint.states events model bounds k ↔ s.crashPoint = k ∧ LeftBy events model bounds s ∧
      ∀ a ∈ CrashPoint.alwaysPresent events bounds.maxUnpersistedWindow k, a ∈ s.persisted := by
  rw [CrashPoint.states, if_pos hmodel, CrashPoint.mem_prefixStates_iff,
    CrashPoint.prefix_issued_iff]
  constructor
  · rintro ⟨rfl, ⟨hasc, hissued, hclosed⟩, hleast, hwhole⟩
    refine ⟨rfl, ⟨hasc, none, crash_iff.mpr ⟨(consistent_iff hpins).mpr
      ⟨hissued, pinned_of_kept hleast, fun i hi => ?_⟩,
      fun _ h => absurd h (Option.not_mem_none _)⟩, hwhole⟩, hleast⟩
    rw [ready_ordered hmodel]
    intro j hji happlied
    have hik := ((mem_issued_iff_applied hpins).mp (hissued i hi)).1
    exact hclosed i hi j ((mem_issued_iff_applied hpins).mpr ⟨hji.trans hik, happlied⟩) hji
  · rintro ⟨rfl, ⟨hasc, torn, hcrash, hparts⟩, hleast⟩
    obtain ⟨hconsistent, htorn⟩ := crash_iff.mp hcrash
    obtain ⟨hissued, -, hordered⟩ := (consistent_iff hpins).mp hconsistent
    refine ⟨rfl, ⟨hasc, hissued, fun i hi j hj hji => ?_⟩, hleast, ?_⟩
    · exact (ready_ordered hmodel).mp (hordered i hi) j hji
        ((mem_issued_iff_applied hpins).mp hj).2
    · cases torn with
      | none => exact hparts
      | some t => exact absurd (hmodel.symm.trans (htorn t rfl).2.2.2.2.1) (by decide)

/-- One that reorders keeps what backs its size changes, and may tear one write more. -/
lemma mem_states_iff_of_reordered (hmodel : model.totalOrder = false) (hpins : PinsApplied events)
    (hbounds : bounds.maxUnpersistedWindow = W) (hW : 1 ≤ W) (hW' : W ≤ 30) :
    s ∈ CrashPoint.states events model bounds k ↔ s.crashPoint = k ∧ LeftBy events model bounds s ∧
      ∀ a ∈ CrashPoint.alwaysPresent events W k, a ∈ s.persisted := by
  rw [CrashPoint.states, if_neg (by simp [hmodel]),
    CrashPoint.mem_maskStates_iff hpins hbounds hW hW', existsOnDisk_iff]
  constructor
  · rintro ⟨rfl, ⟨hasc, hleast, hissued⟩, hbacked, torn, hparts, htorn⟩
    refine ⟨rfl, ⟨hasc, torn, crash_iff.mpr ⟨(consistent_iff hpins).mpr
      ⟨hissued, pinned_of_kept hleast, fun i hi => ?_⟩, fun t ht => ?_⟩, hparts⟩, hleast⟩
    · exact (ready_reordered hmodel).mpr (hbacked i hi)
    · obtain ⟨hflag, hnot, ⟨hlt, happlied⟩, hpart⟩ := htorn t ht
      have hready : (diskOf events model bounds).Ready {i | i ∈ s.persisted} t.1 :=
        (ready_reordered hmodel).mpr fun h => absurd h hpart.not_resizesAt
      exact ⟨hlt, happlied, hnot, hready, hmodel, hflag, hpart⟩
  · rintro ⟨rfl, ⟨hasc, torn, hcrash, hparts⟩, hleast⟩
    obtain ⟨hconsistent, htorn⟩ := crash_iff.mp hcrash
    obtain ⟨hissued, -, hready⟩ := (consistent_iff (V := W) hpins).mp hconsistent
    refine ⟨rfl, ⟨hasc, hleast, hissued⟩,
      fun i hi => (ready_reordered hmodel).mp (hready i hi), torn, hparts, fun t ht => ?_⟩
    obtain ⟨hlt, happlied, hnot, -, -, hflag, hpart⟩ := htorn t ht
    exact ⟨hflag, hnot, ⟨hlt, happlied⟩, hpart⟩

/-- **The states of a crash point** are what a crash may leave of the disk that keep what
is older than the window. -/
theorem mem_states_iff (hpins : PinsApplied events) (hbounds : bounds.maxUnpersistedWindow = W)
    (hW : 1 ≤ W) (hW' : W ≤ 30) : s ∈ CrashPoint.states events model bounds k ↔
      s.crashPoint = k ∧ LeftBy events model bounds s ∧
        ∀ i, AlwaysKept events W k i → i ∈ s.persisted := by
  have hkept : (∀ i, AlwaysKept events W k i → i ∈ s.persisted) ↔
      ∀ a ∈ CrashPoint.alwaysPresent events W k, a ∈ s.persisted :=
    forall_congr' fun i => by rw [CrashPoint.mem_alwaysPresent_iff]
  rw [hkept]
  cases hmodel : model.totalOrder with
  | true => rw [mem_states_iff_of_ordered hmodel hpins, hbounds]
  | false => exact mem_states_iff_of_reordered hmodel hpins hbounds hW hW'

/-- No window leaves anything out when it has room for all that is unpinned. -/
lemma LeftBy.kept (h : LeftBy events model bounds s) (hpins : PinsApplied events)
    (hroom : unpinnedCount events s.crashPoint ≤ W) :
    ∀ i, AlwaysKept events W s.crashPoint i → i ∈ s.persisted := by
  obtain ⟨torn, hcrash, -⟩ := h.crash
  have hpinned := ((consistent_iff (V := W) hpins).mp (crash_iff.mp hcrash).1).2.1
  intro i hi
  by_cases hp : Pinned events s.crashPoint i
  · exact hpinned i hp
  · obtain ⟨hik, happlied, hlater⟩ := hi.resolve_left hp
    have hlt := CrashPoint.length_later_lt (CrashPoint.mem_free.mpr ⟨hik, happlied, hp⟩)
    rw [CrashPoint.length_later, CrashPoint.length_free] at hlt
    omega

/-- **What the enumerator emits** is what a crash may leave of the disk and keeps what is
older than the window, which is no condition if the window has room for all that is
unpinned. -/
theorem emitted_iff_left {trace : Trace} (hpins : PinsApplied trace.events)
    (hbounds : bounds.maxUnpersistedWindow = W) (hW : 1 ≤ W) (hW' : W ≤ 30)
    (k : Fin trace.events.length) :
    (EmittedAt trace model bounds k s ↔
      s.crashPoint = k ∧ LeftBy trace.events model bounds s ∧
        ∀ i, AlwaysKept trace.events W k i → i ∈ s.persisted) ∧
    (unpinnedCount trace.events k ≤ W → (EmittedAt trace model bounds k s ↔
      s.crashPoint = k ∧ LeftBy trace.events model bounds s)) := by
  have hemitted : EmittedAt trace model bounds k s ↔
      s.crashPoint = k ∧ LeftBy trace.events model bounds s ∧
        ∀ i, AlwaysKept trace.events W k i → i ∈ s.persisted := by
    rw [emittedAt_iff, and_iff_right k.isLt, mem_states_iff hpins hbounds hW hW']
  refine ⟨hemitted, fun hroom => hemitted.trans ⟨fun h => ⟨h.1, h.2.1⟩, fun h => ?_⟩⟩
  exact ⟨h.1, h.2, h.1 ▸ h.2.kept hpins (h.1.symm ▸ hroom)⟩

/-- A write, a size change of its file and a write elsewhere: a crash may leave the first and
the last one. -/
theorem left_resize : LeftBy resizeTrace.events xfs ⟨true, 8⟩ ⟨2, [0, 2], []⟩ := by
  have hall : AllSucceeded resizeTrace.events := by simp [AllSucceeded, resizeTrace, callAt]
  have hemitted : EmittedAt resizeTrace xfs ⟨true, 8⟩ 2 ⟨2, [0, 2], []⟩ :=
    emittedAt_iff.mpr ⟨by decide, by decide⟩
  exact ((@emitted_iff_left xfs ⟨true, 8⟩ 8 _ resizeTrace hall.pinsApplied rfl (by decide)
    (by decide) ⟨2, by decide⟩).1.mp hemitted).2.1

/-! ### Two disks -/

/-- **Program order** leaves nothing that a disk that reorders could not leave. -/
lemma le_reordering {model' : FilesystemModel} {bounds' : Bounds}
    (hmodel : model.totalOrder = false)
    (htorn : bounds'.tornWrites = true → bounds.tornWrites = true) :
    (diskOf events model' bounds').Le (diskOf events model bounds) where
  writes _ h := h
  waits _ _ h := h
  part _ _ h := ⟨hmodel, htorn h.2.1, h.2.2⟩
  ready D i h := by
    rw [ready_reordered hmodel]
    change if model'.totalOrder then InOrder events D i else Backed events D i at h
    split at h
    · rintro - ⟨j, hj⟩
      exact ⟨j, h j hj.1 hj.applied, hj⟩
    · exact h

/-- What a crash leaves under one model, it may leave under every model that reorders and
has torn writes where the first has them. -/
theorem LeftBy.reordered {model' : FilesystemModel} {bounds' : Bounds}
    (h : LeftBy events model' bounds' s) (hmodel : model.totalOrder = false)
    (htorn : bounds'.tornWrites = true → bounds.tornWrites = true) :
    LeftBy events model bounds s := by
  obtain ⟨torn, hcrash, hparts⟩ := h.crash
  exact ⟨h.ascending, torn, (le_reordering hmodel htorn).crash hcrash, hparts⟩

/-! ### A window with room -/

namespace CrashPoint

/-- Nothing is older than a window with room. -/
lemma notMem_older_of_room (hroom : unpinnedCount events k ≤ W) : i ∉ older events W k := by
  intro hold
  obtain ⟨hfree, hlater⟩ := mem_older.mp hold
  have hlt := length_later_lt hfree
  rw [length_free] at hlt
  omega

/-- **A window with room** has, under a model that reorders, the states of every model and
every window. -/
lemma mem_states_of_room {model' : FilesystemModel} {bounds' : Bounds} {V : ℕ}
    (hmodel : model.totalOrder = false) (hbounds : bounds.maxUnpersistedWindow = W) (hW : 1 ≤ W)
    (hW' : W ≤ 30) (hroom : unpinnedCount events k ≤ W)
    (hbounds' : bounds'.maxUnpersistedWindow = V) (hV : 1 ≤ V) (hV' : V ≤ 30)
    (htorn : bounds'.tornWrites = true → bounds.tornWrites = true)
    (hs : s ∈ states events model' bounds' k) : s ∈ states events model bounds k := by
  have hissue : issued events V k = issued events W k := issued_eq_issued _ _
  have hselect : ∀ {persisted : List ℕ}, persisted.Pairwise (· < ·) →
      (∀ a ∈ alwaysPresent events V k, a ∈ persisted) →
      (∀ i ∈ persisted, i ∈ issued events V k) →
      ∃ mask < maskCount (window events W k).length, persistedOf events W k mask = persisted := by
    intro persisted hasc hleast hissued
    refine (exists_mask_iff hW hW').mpr ⟨hasc, fun a ha => hleast a ?_, hissue ▸ hissued⟩
    exact mem_alwaysPresent.mpr (.inl ((mem_alwaysPresent.mp ha).resolve_right
      (notMem_older_of_room hroom)))
  rw [states, if_neg (by simp [hmodel]), mem_maskStates, hbounds]
  cases hmodel' : model'.totalOrder with
  | true =>
      rw [states, if_pos hmodel', mem_prefixStates_iff, hbounds'] at hs
      obtain ⟨hpoint, hprefix, hleast, hwhole⟩ := hs
      obtain ⟨hasc, hissued, hclosed⟩ := prefix_issued_iff.mp hprefix
      obtain ⟨mask, hmask, hpersisted⟩ := hselect hasc hleast hissued
      rw [← hpersisted] at hissued hclosed
      refine ⟨mask, hmask, existsOnDisk_iff.mpr ?_, .inl ?_⟩
      · -- what comes before it on its path was issued, and a prefix holds it
        rintro t ht - ⟨j, hj⟩
        refine ⟨j, ?_, hj⟩
        have hle := le_of_mem_issued (hissued t ht)
        exact hclosed t ht j (mem_issued_of_applied (hj.1.le.trans hle) hj.applied) hj.1
      · rw [hpersisted, ← hpoint, ← hwhole]
  | false =>
      rw [states, if_neg (by simp [hmodel']), mem_maskStates, hbounds'] at hs
      obtain ⟨mask', hmask', hdisk, hs⟩ := hs
      obtain ⟨hasc, hleast, hissued⟩ := (@exists_mask_iff events k V hV hV' _).mp
        ⟨mask', hmask', rfl⟩
      obtain ⟨mask, hmask, hpersisted⟩ := hselect hasc hleast hissued
      refine ⟨mask, hmask, hpersisted.symm ▸ hdisk, ?_⟩
      rw [hpersisted]
      refine hs.imp_right fun h => ⟨htorn h.1, ?_⟩
      obtain ⟨op, hop, hrest⟩ := mem_tornStates.mp h.2
      have hwindow := (mem_older_or_window (W := W) (window_sublist.subset hop)).resolve_left
        (notMem_older_of_room hroom)
      exact mem_tornStates.mpr ⟨op, hwindow, hrest⟩

end CrashPoint

end CrashFuzz
