import CrashFuzz.Enumerate.Tearing
import CrashFuzz.Lib.Runs
import CrashFuzz.Shim.Reproduce

/-!
Where concurrent writes on one descriptor are recorded.

* `Sharing`: a file open on a descriptor that several threads write to. A call
  lands in one step of the kernel and is recorded in a later one, from the
  position that `lseek` reads then.
* `Sharing.step`: one step of one call.
* `Undisturbed`: no call moves the position while another one has landed and is
  not yet recorded.
* `Exact`: a recorded offset is where the call landed. `exact_of_undisturbed`
  carries it over a run and `Late.run` carries a wrong position to the record.
* `offsets_exact_iff`: the offsets of a run are exact precisely when it is
  undisturbed, and then its replay leaves the bytes of the file.
-/

namespace CrashFuzz.Shim

open FileTree

/-- How far a call has come: where it landed with how many bytes, what was
recorded of it. -/
inductive Progress where
  | issued
  | landed (start ret : ℕ)
  | recorded (start ret completion : ℕ) (offset : ℤ)
  | failed (errno : ℤ) (completion : ℕ)
  deriving DecidableEq, Repr

/-- The call is between the kernel and its record. -/
def Progress.isLanded : Progress → Bool
  | .landed _ _ => true
  | .issued | .recorded _ _ _ _ | .failed _ _ => false

/-- The call has returned. -/
def Progress.isDone : Progress → Bool
  | .recorded _ _ _ _ | .failed _ _ => true
  | .issued | .landed _ _ => false

lemma Progress.isLanded_iff {progress : Progress} :
    progress.isLanded = true ↔ ∃ start ret, progress = .landed start ret := by
  cases progress <;> simp [isLanded]

lemma Progress.isDone_iff {progress : Progress} : progress.isDone = true ↔
    (∃ start ret completion offset, progress = .recorded start ret completion offset) ∨
      ∃ errno completion, progress = .failed errno completion := by
  cases progress <;> simp [isDone]

/-- A `write` or `writev` on the shared descriptor. -/
structure Transfer where
  threadId : ℤ
  vectored : Bool
  buffer : List UInt8
  /-- The submission stamp. -/
  index : ℕ
  progress : Progress

/-- A descriptor that threads share, and the calls on it, numbered as they were
issued. -/
structure Sharing where
  bytes : List UInt8
  /-- The position of the open file. -/
  position : ℕ
  /-- The stamp counter of the interposer. -/
  stamp : ℕ
  count : ℕ
  calls : ℕ → Transfer
  /-- The calls in the order in which they landed. -/
  order : List ℕ

/-- A step of a call. -/
inductive SharingStep where
  | issue (threadId : ℤ) (vectored : Bool) (buffer : List UInt8)
  | land (i ret : ℕ)
  | fail (i : ℕ) (errno : ℤ)
  | record (i : ℕ)
  deriving DecidableEq, Repr

namespace Sharing

variable (append : Bool) (s : Sharing)

/-- A descriptor that was just opened. -/
def opened (bytes : List UInt8) : Sharing where
  bytes := bytes
  position := 0
  stamp := 0
  count := 0
  calls := fun _ => ⟨0, false, [], 0, .issued⟩
  order := []

/-- The progress of one call changes. -/
def advance (i : ℕ) (progress : Progress) : Sharing :=
  { s with calls := Function.update s.calls i { s.calls i with progress := progress } }

/-- `next_stamp` before the real call. -/
def issue (threadId : ℤ) (vectored : Bool) (buffer : List UInt8) : Sharing :=
  { s with
    stamp := s.stamp + 1
    count := s.count + 1
    calls := Function.update s.calls s.count ⟨threadId, vectored, buffer, s.stamp, .issued⟩ }

/-- Where the kernel writes: at the position, or at the end of the file. -/
def start (ret : ℕ) : ℕ := if append ∧ 0 < ret then s.bytes.length else s.position

/-- The real call, which writes `ret` bytes and advances the position at once. -/
def land (i ret : ℕ) : Sharing :=
  { s.advance i (.landed (s.start append ret) ret) with
    bytes := Volume.splice s.bytes (s.start append ret) ((s.calls i).buffer.take ret)
    position := s.start append ret + ret
    order := s.order ++ [i] }

/-- A record, which draws the completion stamp. -/
def complete (i : ℕ) (progress : Progress) : Sharing :=
  { s.advance i progress with stamp := s.stamp + 1 }

/-- `write_offset`, when the call returned `ret`. -/
def writeOffset (ret : ℕ) : ℤ := s.position - ret

/-- One step of one call. -/
def step : SharingStep → Option Sharing
  | .issue threadId vectored buffer => some (s.issue threadId vectored buffer)
  | .land i ret =>
      if i < s.count ∧ (s.calls i).progress = .issued ∧ ret ≤ (s.calls i).buffer.length then
        some (s.land append i ret)
      else none
  | .fail i errno =>
      if i < s.count ∧ (s.calls i).progress = .issued then
        some (s.complete i (.failed errno s.stamp))
      else none
  | .record i =>
      match (s.calls i).progress with
      | .landed start ret =>
          some (s.complete i (.recorded start ret s.stamp (s.writeOffset ret)))
      | _ => none

/-- The steps of a run. -/
def run (steps : List SharingStep) : Option Sharing := steps.foldlM (step append) s

end Sharing

variable {append : Bool} {s s' m : Sharing} {a : SharingStep} {steps : List SharingStep} {i j : ℕ}
  {bytes : List UInt8}

namespace Sharing

/-- What one step can do. -/
lemma step_cases (h : s.step append a = some s') :
    (∃ threadId vectored buffer, a = .issue threadId vectored buffer ∧
      s' = s.issue threadId vectored buffer) ∨
    (∃ i ret, a = .land i ret ∧ i < s.count ∧ (s.calls i).progress = .issued ∧
      ret ≤ (s.calls i).buffer.length ∧ s' = s.land append i ret) ∨
    (∃ i errno, a = .fail i errno ∧ i < s.count ∧ (s.calls i).progress = .issued ∧
      s' = s.complete i (.failed errno s.stamp)) ∨
    (∃ i start ret, a = .record i ∧ (s.calls i).progress = .landed start ret ∧
      s' = s.complete i (.recorded start ret s.stamp (s.writeOffset ret))) := by
  cases a with
  | issue threadId vectored buffer => exact .inl ⟨_, _, _, rfl, (Option.some.inj h).symm⟩
  | land i ret =>
      rw [step] at h
      split at h
      · next hguard =>
          exact .inr (.inl ⟨i, ret, rfl, hguard.1, hguard.2.1, hguard.2.2,
            (Option.some.inj h).symm⟩)
      · cases h
  | fail i errno =>
      rw [step] at h
      split at h
      · next hguard =>
          exact .inr (.inr (.inl ⟨i, errno, rfl, hguard.1, hguard.2, (Option.some.inj h).symm⟩))
      · cases h
  | record i =>
      rw [step] at h
      split at h
      · next start ret hprogress =>
          exact .inr (.inr (.inr ⟨i, start, ret, rfl, hprogress, (Option.some.inj h).symm⟩))
      · cases h

/-! ### One call among the others -/

@[simp] lemma calls_advance_of_ne {progress : Progress} (h : j ≠ i) :
    (s.advance i progress).calls j = s.calls j := Function.update_of_ne h _ _

@[simp] lemma calls_advance_self {progress : Progress} :
    (s.advance i progress).calls i = { s.calls i with progress := progress } :=
  Function.update_self _ _ _

@[simp] lemma calls_land {ret : ℕ} : (s.land append i ret).calls =
    (s.advance i (.landed (s.start append ret) ret)).calls := rfl

@[simp] lemma calls_complete {progress : Progress} :
    (s.complete i progress).calls = (s.advance i progress).calls := rfl

lemma calls_issue_of_ne {threadId : ℤ} {vectored : Bool} {buffer : List UInt8}
    (h : j ≠ s.count) : (s.issue threadId vectored buffer).calls j = s.calls j :=
  Function.update_of_ne h _ _

lemma calls_issue_self {threadId : ℤ} {vectored : Bool} {buffer : List UInt8} :
    (s.issue threadId vectored buffer).calls s.count =
      ⟨threadId, vectored, buffer, s.stamp, .issued⟩ := Function.update_self _ _ _

end Sharing

/-- Where a call landed, once it has, and with how many bytes. -/
def Transfer.spot (t : Transfer) : Option (ℕ × ℕ) :=
  match t.progress with
  | .landed start ret | .recorded start ret _ _ => some (start, ret)
  | .issued | .failed _ _ => none

/-- What a call does to the bytes of the file. -/
def Transfer.apply (bytes : List UInt8) (t : Transfer) : List UInt8 :=
  match t.spot with
  | some (start, ret) => Volume.splice bytes start (t.buffer.take ret)
  | none => bytes

namespace Sharing

/-- If both calls landed, the first one ends before the other one starts. -/
def Apart (s : Sharing) (i j : ℕ) : Prop :=
  ∀ start ret start' ret', (s.calls i).spot = some (start, ret) →
    (s.calls j).spot = some (start', ret') → start + ret ≤ start'

/-- What holds in every run: landed calls lie one after the other, in the order
in which they landed, and the file has the bytes of each. -/
structure Valid (bytes : List UInt8) (s : Sharing) : Prop where
  fresh : ∀ i, s.count ≤ i → (s.calls i).progress = .issued
  position_le : s.position ≤ s.bytes.length
  end_le : ∀ i start ret, (s.calls i).spot = some (start, ret) → start + ret ≤ s.position
  mem_order : ∀ i, i ∈ s.order ↔ (s.calls i).spot ≠ none
  nodup : s.order.Nodup
  apart : s.order.Pairwise s.Apart
  bytes_eq : s.bytes = s.order.foldl (fun bytes i => (s.calls i).apply bytes) bytes
  index_lt : ∀ i < s.count, (s.calls i).index < s.stamp
  ascending : ∀ i j, i < j → j < s.count → (s.calls i).index < (s.calls j).index

lemma valid_opened (bytes : List UInt8) : Valid bytes (opened bytes) where
  fresh _ _ := rfl
  position_le := Nat.zero_le _
  end_le _ _ _ h := by cases h
  mem_order i := iff_of_false List.not_mem_nil fun h => h rfl
  nodup := List.nodup_nil
  apart := List.Pairwise.nil
  bytes_eq := rfl
  index_lt i hi := absurd hi (Nat.not_lt_zero i)
  ascending i j _ hj := absurd hj (Nat.not_lt_zero j)

namespace Valid

lemma lt_count (h : Valid bytes s) (hi : (s.calls i).progress ≠ .issued) : i < s.count := by
  by_contra hge
  exact hi (h.fresh i (not_lt.mp hge))

/-- A step that leaves the file, and where each call landed. -/
lemma congr (h : Valid bytes s) (hspot : ∀ i, (s'.calls i).spot = (s.calls i).spot)
    (hbuffer : ∀ i ∈ s.order, (s'.calls i).buffer = (s.calls i).buffer)
    (hbytes : s'.bytes = s.bytes) (hposition : s'.position = s.position)
    (horder : s'.order = s.order)
    (hfresh : ∀ i, s'.count ≤ i → (s'.calls i).progress = .issued)
    (hindex : ∀ i < s'.count, (s'.calls i).index < s'.stamp)
    (hasc : ∀ i j, i < j → j < s'.count → (s'.calls i).index < (s'.calls j).index) :
    Valid bytes s' where
  fresh := hfresh
  position_le := by
    rw [hposition, hbytes]
    exact h.position_le
  end_le i := by
    rw [hspot, hposition]
    exact h.end_le i
  mem_order i := by
    rw [hspot, horder]
    exact h.mem_order i
  nodup := horder ▸ h.nodup
  apart := by
    rw [horder]
    refine h.apart.imp fun {i j} hij => ?_
    rw [Apart, hspot, hspot]
    exact hij
  bytes_eq := by
    rw [hbytes, horder, h.bytes_eq]
    refine List.foldl_ext _ _ _ fun b i hi => ?_
    rw [Transfer.apply, Transfer.apply, hspot, hbuffer i hi]
  index_lt := hindex
  ascending := hasc

lemma issue (h : Valid bytes s) (threadId : ℤ) (vectored : Bool) (buffer : List UInt8) :
    Valid bytes (s.issue threadId vectored buffer) := by
  have hnone : (s.calls s.count).spot = none := by
    rw [Transfer.spot, h.fresh s.count le_rfl]
  have hspot : ∀ i, ((s.issue threadId vectored buffer).calls i).spot = (s.calls i).spot := by
    intro i
    by_cases hi : i = s.count
    · rw [hi, calls_issue_self, hnone]
      rfl
    · rw [calls_issue_of_ne hi]
  refine h.congr hspot (fun i hi => ?_) rfl rfl rfl (fun i hi => ?_) (fun i hi => ?_)
    fun i j hij hj => ?_
  · have hne : i ≠ s.count := fun heq => (h.mem_order i).mp hi (heq ▸ hnone)
    rw [calls_issue_of_ne hne]
  · have hlt : s.count < i := hi
    rw [calls_issue_of_ne (by omega)]
    exact h.fresh i (by omega)
  · have hle : i < s.count + 1 := hi
    have hstamp : (s.issue threadId vectored buffer).stamp = s.stamp + 1 := rfl
    by_cases heq : i = s.count
    · rw [heq, calls_issue_self, hstamp]
      exact Nat.lt_succ_self _
    · rw [calls_issue_of_ne heq, hstamp]
      have hlt := h.index_lt i (by omega)
      omega
  · have hle : j < s.count + 1 := hj
    rw [calls_issue_of_ne (by omega : i ≠ s.count)]
    by_cases heq : j = s.count
    · rw [heq, calls_issue_self]
      exact h.index_lt i (by omega)
    · rw [calls_issue_of_ne heq]
      exact h.ascending i j hij (by omega)

/-- The progress of a call that was issued changes, and its spot does not. -/
lemma complete (h : Valid bytes s) {progress : Progress} (hi : i < s.count)
    (hspot : Transfer.spot { s.calls i with progress := progress } = (s.calls i).spot) :
    Valid bytes (s.complete i progress) := by
  have hindex : ∀ j, ((s.complete i progress).calls j).index = (s.calls j).index := by
    intro j
    by_cases hj : j = i
    · rw [calls_complete, hj, calls_advance_self]
    · rw [calls_complete, calls_advance_of_ne hj]
  refine h.congr (fun j => ?_) (fun j _ => ?_) rfl rfl rfl (fun j hj => ?_) (fun j hj => ?_)
    fun j k hjk hk => ?_
  · by_cases hj : j = i
    · rw [calls_complete, hj, calls_advance_self, hspot]
    · rw [calls_complete, calls_advance_of_ne hj]
  · by_cases hj : j = i
    · rw [calls_complete, hj, calls_advance_self]
    · rw [calls_complete, calls_advance_of_ne hj]
  · have hle : s.count ≤ j := hj
    rw [calls_complete, calls_advance_of_ne (by omega)]
    exact h.fresh j hle
  · have hstamp : (s.complete i progress).stamp = s.stamp + 1 := rfl
    have hlt := h.index_lt j hj
    rw [hindex, hstamp]
    omega
  · rw [hindex, hindex]
    exact h.ascending j k hjk hk

/-- A call lands where nothing landed before. -/
lemma position_le_start (h : Valid bytes s) (append : Bool) (ret : ℕ) :
    s.position ≤ s.start append ret := by
  rw [start]
  split
  · exact h.position_le
  · exact le_rfl

lemma start_le_length (h : Valid bytes s) (append : Bool) (ret : ℕ) :
    s.start append ret ≤ s.bytes.length := by
  rw [start]
  split
  · exact le_rfl
  · exact h.position_le

lemma land (h : Valid bytes s) {ret : ℕ} (hi : i < s.count)
    (hissued : (s.calls i).progress = .issued) (hret : ret ≤ (s.calls i).buffer.length) :
    Valid bytes (s.land append i ret) := by
  have hle := h.position_le_start append ret
  have hspot : ((s.land append i ret).calls i).spot = some (s.start append ret, ret) := by
    rw [calls_land, calls_advance_self]
    rfl
  have hother : ∀ j ≠ i, (s.land append i ret).calls j = s.calls j := fun j hj =>
    calls_advance_of_ne hj
  have hnone : (s.calls i).spot = none := by
    rw [Transfer.spot, hissued]
  have hnot : i ∉ s.order := fun hmem => (h.mem_order i).mp hmem hnone
  have hindex : ∀ j, ((s.land append i ret).calls j).index = (s.calls j).index := by
    intro j
    by_cases hj : j = i
    · rw [calls_land, hj, calls_advance_self]
    · rw [hother j hj]
  refine ⟨fun j hj => ?_, ?_, fun j start' ret' hj => ?_, fun j => ?_, ?_, ?_, ?_,
    fun j hj => ?_, fun j k hjk hk => ?_⟩
  · have hcount : s.count ≤ j := hj
    rw [hother j (by omega)]
    exact h.fresh j hcount
  · have hlength := Volume.length_splice s.bytes ((s.calls i).buffer.take ret)
      (s.start append ret) (h.start_le_length append ret)
    rw [List.length_take, min_eq_left hret] at hlength
    calc s.start append ret + ret ≤ max s.bytes.length (s.start append ret + ret) :=
          le_max_right _ _
      _ = (s.land append i ret).bytes.length := hlength.symm
  · have hposition : (s.land append i ret).position = s.start append ret + ret := rfl
    by_cases heq : j = i
    · rw [heq, hspot] at hj
      cases hj
      exact le_rfl
    · rw [hother j heq] at hj
      have hend := h.end_le j start' ret' hj
      omega
  · have horder : (s.land append i ret).order = s.order ++ [i] := rfl
    rw [horder, List.mem_append, List.mem_singleton]
    by_cases heq : j = i
    · rw [heq, hspot]
      exact iff_of_true (.inr rfl) (Option.some_ne_none _)
    · rw [hother j heq, h.mem_order j]
      exact or_iff_left heq
  · refine List.nodup_append.mpr ⟨h.nodup, List.nodup_singleton i, fun j hj k hk heq => ?_⟩
    exact hnot (List.mem_singleton.mp hk ▸ heq ▸ hj)
  · refine List.pairwise_append.mpr ⟨?_, List.pairwise_singleton _ _, fun j hj k hk => ?_⟩
    · refine h.apart.imp_of_mem fun {j k} hj hk hjk => ?_
      rw [Apart, hother j fun heq => hnot (heq ▸ hj), hother k fun heq => hnot (heq ▸ hk)]
      exact hjk
    · intro start' ret' start'' ret'' hjspot hkspot
      obtain rfl := List.mem_singleton.mp hk
      rw [hspot] at hkspot
      cases hkspot
      rw [hother j fun heq => hnot (heq ▸ hj)] at hjspot
      exact (h.end_le j start' ret' hjspot).trans hle
  · have horder : (s.land append i ret).order = s.order ++ [i] := rfl
    have hfold : s.order.foldl (fun bytes j => ((s.land append i ret).calls j).apply bytes) bytes =
        s.bytes := by
      rw [h.bytes_eq]
      refine List.foldl_ext _ _ _ fun b j hj => ?_
      rw [hother j fun heq => hnot (heq ▸ hj)]
    rw [horder, List.foldl_append, hfold, List.foldl_cons, List.foldl_nil, Transfer.apply, hspot,
      calls_land, calls_advance_self]
    rfl
  · rw [hindex]
    exact h.index_lt j hj
  · rw [hindex, hindex]
    exact h.ascending j k hjk hk

/-- The step lemma. -/
lemma step (h : Valid bytes s) (hstep : s.step append a = some s') : Valid bytes s' := by
  obtain ⟨threadId, vectored, buffer, -, rfl⟩ | ⟨i, ret, -, hi, hissued, hret, rfl⟩ |
    ⟨i, errno, -, hi, hissued, rfl⟩ | ⟨i, start, ret, -, hlanded, rfl⟩ := step_cases hstep
  · exact h.issue threadId vectored buffer
  · exact h.land hi hissued hret
  · refine h.complete hi ?_
    rw [Transfer.spot, Transfer.spot, hissued]
  · have hi : i < s.count := h.lt_count (by rw [hlanded]; exact nofun)
    refine h.complete hi ?_
    rw [Transfer.spot, Transfer.spot, hlanded]

lemma run (h : Valid bytes s) (hrun : s.run append steps = some s') : Valid bytes s' :=
  Runs.invariant (fun _ _ _ h hm => h.step hm) h hrun

end Valid

/-! ### Recorded offsets -/

/-- No call is between its landing and its record, unless the step moves nothing. -/
def Alone (s : Sharing) : SharingStep → Prop
  | .land _ ret => ret = 0 ∨ ∀ j < s.count, (s.calls j).progress.isLanded = false
  | .issue _ _ _ | .fail _ _ | .record _ => True

instance (s : Sharing) : (a : SharingStep) → Decidable (s.Alone a)
  | .land _ _ => inferInstanceAs (Decidable (_ ∨ _))
  | .issue _ _ _ | .fail _ _ | .record _ => inferInstanceAs (Decidable True)

/-- Every step of a run leaves landed calls alone. -/
def Undisturbed (append : Bool) (s : Sharing) : List SharingStep → Prop
  | [] => True
  | a :: steps => s.Alone a ∧ ∀ m ∈ s.step append a, m.Undisturbed append steps

instance (append : Bool) :
    (s : Sharing) → (steps : List SharingStep) → Decidable (s.Undisturbed append steps)
  | _, [] => inferInstanceAs (Decidable True)
  | s, a :: steps =>
      have := fun m => instDecidableUndisturbed append m steps
      inferInstanceAs (Decidable (s.Alone a ∧ ∀ m ∈ s.step append a, m.Undisturbed append steps))

/-- Recorded offsets are where the calls landed. -/
def Exact (s : Sharing) : Prop :=
  ∀ i start ret completion offset,
    (s.calls i).progress = .recorded start ret completion offset → offset = start

/-- Every call has returned. -/
def Settled (s : Sharing) : Prop :=
  ∀ i < s.count, (s.calls i).progress.isDone = true

/-- The position is still where the landed calls left it. -/
structure OnTime (s : Sharing) : Prop where
  pending : ∀ i start ret, (s.calls i).progress = .landed start ret → s.position = start + ret
  exact : s.Exact

/-- What a step does to one call: nothing, or it lands it, fails it or records it. -/
lemma progress_step (hvalid : Valid bytes s) (hstep : s.step append a = some s') (j : ℕ) :
    (s'.calls j).progress = (s.calls j).progress ∨
    (∃ ret, a = .land j ret ∧ (s.calls j).progress = .issued ∧
      (s'.calls j).progress = .landed (s.start append ret) ret ∧
      s'.position = s.start append ret + ret) ∨
    (∃ errno, a = .fail j errno ∧ (s.calls j).progress = .issued ∧
      (s'.calls j).progress = .failed errno s.stamp) ∨
    (∃ start ret, a = .record j ∧ (s.calls j).progress = .landed start ret ∧
      (s'.calls j).progress = .recorded start ret s.stamp (s.writeOffset ret)) := by
  obtain ⟨threadId, vectored, buffer, rfl, rfl⟩ | ⟨i, ret, rfl, hi, hissued, hret, rfl⟩ |
    ⟨i, errno, rfl, hi, hissued, rfl⟩ | ⟨i, start, ret, rfl, hlanded, rfl⟩ := step_cases hstep
  · refine .inl ?_
    by_cases heq : j = s.count
    · rw [heq, calls_issue_self, hvalid.fresh s.count le_rfl]
    · rw [calls_issue_of_ne heq]
  · by_cases heq : j = i
    · subst heq
      exact .inr (.inl ⟨ret, rfl, hissued, by rw [calls_land, calls_advance_self], rfl⟩)
    · exact .inl (by rw [calls_land, calls_advance_of_ne heq])
  · by_cases heq : j = i
    · subst heq
      exact .inr (.inr (.inl ⟨errno, rfl, hissued, by rw [calls_complete, calls_advance_self]⟩))
    · exact .inl (by rw [calls_complete, calls_advance_of_ne heq])
  · by_cases heq : j = i
    · subst heq
      exact .inr (.inr (.inr ⟨start, ret, rfl, hlanded, by
        rw [calls_complete, calls_advance_self]⟩))
    · exact .inl (by rw [calls_complete, calls_advance_of_ne heq])

/-- Only a call that lands moves the position. -/
lemma position_step (hstep : s.step append a = some s') : s'.position = s.position ∨
    ∃ i ret, a = .land i ret ∧ s'.position = s.start append ret + ret := by
  obtain ⟨threadId, vectored, buffer, rfl, rfl⟩ | ⟨i, ret, rfl, hi, hissued, hret, rfl⟩ |
    ⟨i, errno, rfl, hi, hissued, rfl⟩ | ⟨i, start, ret, rfl, hlanded, rfl⟩ := step_cases hstep
  · exact .inl rfl
  · exact .inr ⟨i, ret, rfl, rfl⟩
  · exact .inl rfl
  · exact .inl rfl

lemma position_le_step (hvalid : Valid bytes s) (hstep : s.step append a = some s') :
    s.position ≤ s'.position := by
  rcases position_step hstep with hposition | ⟨i, ret, -, hposition⟩
  · exact hposition.ge
  · have hstart := hvalid.position_le_start append ret
    omega

/-- One undisturbed step. -/
lemma OnTime.step (h : OnTime s) (hvalid : Valid bytes s) (halone : s.Alone a)
    (hstep : s.step append a = some s') : OnTime s' := by
  constructor
  · intro j start ret hj
    rcases progress_step hvalid hstep j with hsame | ⟨ret', -, -, hnow, hposition⟩ |
      ⟨errno, -, -, hnow⟩ | ⟨start', ret', -, -, hnow⟩
    · rw [hsame] at hj
      have hbefore := h.pending j start ret hj
      rcases position_step hstep with hposition | ⟨i, ret', rfl, hposition⟩
      · rw [hposition, hbefore]
      · -- an other call has landed, so nothing moved
        have hzero : ret' = 0 := halone.resolve_right fun hno => by
          have hfalse := hno j (hvalid.lt_count (by rw [hj]; exact nofun))
          rw [hj] at hfalse
          cases hfalse
        have hstart : s.start append ret' = s.position := by
          rw [Sharing.start, if_neg]
          omega
        omega
    · rw [hnow] at hj
      cases hj
      exact hposition
    · rw [hnow] at hj
      cases hj
    · rw [hnow] at hj
      cases hj
  · intro j start ret completion offset hj
    rcases progress_step hvalid hstep j with hsame | ⟨ret', -, -, hnow, -⟩ |
      ⟨errno, -, -, hnow⟩ | ⟨start', ret', -, hlanded, hnow⟩
    · exact h.exact j start ret completion offset (hsame ▸ hj)
    · rw [hnow] at hj
      cases hj
    · rw [hnow] at hj
      cases hj
    · rw [hnow] at hj
      cases hj
      have hposition := h.pending j start ret hlanded
      rw [writeOffset]
      omega

lemma OnTime.run (h : OnTime s) (hvalid : Valid bytes s) (halone : s.Undisturbed append steps)
    (hrun : s.run append steps = some s') : OnTime s' := by
  refine (Runs.induct (P := fun s => OnTime s ∧ Valid bytes s) (Undisturbed append) ?_ ⟨h, hvalid⟩
    halone hrun).1
  exact fun s a steps m h halone hm =>
    ⟨⟨h.1.step h.2 halone.1 hm, h.2.step hm⟩, halone.2 m hm⟩

/-- A call has been overtaken: the position moved on before it was recorded. -/
def Late (s : Sharing) (j : ℕ) : Prop :=
  (∃ start ret, (s.calls j).progress = .landed start ret ∧ start + ret < s.position) ∨
    ∃ start ret completion offset,
      (s.calls j).progress = .recorded start ret completion offset ∧ (start : ℤ) < offset

/-- It stays overtaken. -/
lemma Late.step (h : Late s j) (hvalid : Valid bytes s) (hstep : s.step append a = some s') :
    Late s' j := by
  have hposition := position_le_step hvalid hstep
  rcases progress_step hvalid hstep j with hsame | ⟨-, -, hissued, -⟩ | ⟨-, -, hissued, -⟩ |
    ⟨start, ret, -, hlanded, hnow⟩
  · rw [Late, hsame]
    exact h.imp_left fun ⟨start, ret, hj, hlt⟩ => ⟨start, ret, hj, hlt.trans_le hposition⟩
  · rw [Late, hissued] at h
    rcases h with ⟨_, _, h, -⟩ | ⟨_, _, _, _, h, -⟩ <;> cases h
  · rw [Late, hissued] at h
    rcases h with ⟨_, _, h, -⟩ | ⟨_, _, _, _, h, -⟩ <;> cases h
  · rw [Late, hlanded] at h
    rcases h with ⟨start', ret', hj, hlt⟩ | ⟨_, _, _, _, hj, -⟩
    · cases hj
      refine .inr ⟨start, ret, s.stamp, s.writeOffset ret, hnow, ?_⟩
      rw [writeOffset]
      omega
    · cases hj

lemma Late.run (h : Late s j) (hvalid : Valid bytes s) (hrun : s.run append steps = some s') :
    Late s' j := by
  refine (Runs.invariant (P := fun s => Late s j ∧ Valid bytes s) ?_ ⟨h, hvalid⟩ hrun).1
  exact fun s a m h hm => ⟨h.1.step h.2 hm, h.2.step hm⟩

/-- A step that does not leave landed calls alone makes one late. -/
lemma exists_late (hvalid : Valid bytes s) (hstep : s.step append a = some s')
    (h : ¬ s.Alone a) : ∃ j, Late s' j := by
  obtain ⟨threadId, vectored, buffer, rfl, rfl⟩ | ⟨i, ret, rfl, hi, hissued, hret, rfl⟩ |
    ⟨i, errno, rfl, hi, hissued, rfl⟩ | ⟨i, start, ret, rfl, hlanded, rfl⟩ := step_cases hstep
  · exact absurd trivial h
  · rw [Alone] at h
    push Not at h
    obtain ⟨hpos, j, -, hlanded⟩ := h
    obtain ⟨start, ret', hj⟩ := Progress.isLanded_iff.mp (Bool.eq_true_of_not_eq_false hlanded)
    have hne : j ≠ i := by
      rintro rfl
      rw [hissued] at hj
      cases hj
    have hend := hvalid.end_le j start ret' (by rw [Transfer.spot, hj])
    have hstart := hvalid.position_le_start append ret
    refine ⟨j, .inl ⟨start, ret', ?_, ?_⟩⟩
    · rw [calls_land, calls_advance_of_ne hne, hj]
    · have hposition : (s.land append i ret).position = s.start append ret + ret := rfl
      omega
  · exact absurd trivial h
  · exact absurd trivial h

/-- When every call has returned, exact offsets mean that none was overtaken. -/
lemma undisturbed_of_exact (hvalid : Valid bytes s) (hrun : s.run append steps = some s')
    (hsettled : s'.Settled) (hexact : s'.Exact) : s.Undisturbed append steps := by
  induction steps generalizing s with
  | nil => trivial
  | cons a steps ih =>
      obtain ⟨m, hm, hrest⟩ := Runs.cons_eq_some.mp hrun
      refine ⟨?_, fun m' hm' => ?_⟩
      · by_contra hno
        obtain ⟨j, hj⟩ := exists_late hvalid hm hno
        have hvalid' := (hvalid.step hm).run hrest
        rcases hj.run (hvalid.step hm) hrest with ⟨start, ret, hprogress, -⟩ |
          ⟨start, ret, completion, offset, hprogress, hlt⟩
        · have hdone := hsettled j (hvalid'.lt_count (by rw [hprogress]; exact nofun))
          rw [hprogress] at hdone
          cases hdone
        · exact absurd (hexact j start ret completion offset hprogress) hlt.ne'
      · obtain rfl : m = m' := Option.some.inj (hm.symm.trans hm')
        exact ih (hvalid.step hm) hrest

end Sharing

/-! ### Replay -/

section Replay

variable {options : ReplayOptions} {store : Store} {disk : Disk} {path : String}
  {events : List TraceEvent}

/-- In an empty directory there is nothing in the way of a path. -/
lemma EmptyDir.clear (h : EmptyDir options.target disk) (hpath : BelowRoot options path) :
    (∀ q ∈ Volume.way (place options path), disk.NoFile q) ∧
      disk.node (place options path) = none := by
  have hnil := hpath.below_ne_nil
  refine ⟨fun q hq i hi => ?_, h.empty _ hnil⟩
  rcases Volume.mem_way_append hnil hq with hq | ⟨r, -, rfl⟩
  · have hdir : disk.node q = some .dir := by
      rcases Volume.mem_inits_iff.mp hq with rfl | hq
      · exact h.dir
      · exact h.wf.reached (by simp [h.dir]) q hq
    rw [hdir] at hi
    cases hi
  · by_cases hr : r = []
    · rw [hr, List.append_nil, h.dir] at hi
      cases hi
    · rw [h.empty r hr] at hi
      cases hi

/-- Writes to a file that exists. -/
lemma runCalls_writes {i : ℕ} (hpath : BelowRoot options path)
    (hevents : ∀ e ∈ events, IsWrite e ∧ e.path = path ∧
      (store (payloadObject options e)).isSome)
    (hreach : disk.Reached (place options path))
    (hfile : disk.node (place options path) = some (.file i)) :
    ∃ disk', runCalls options.cwd.toList store disk
        (events.flatMap fun e => applySelected options e none) = .ok disk' ∧
      disk'.node (place options path) = some (.file i) ∧
      disk'.data i = events.foldl (fun bytes e => Volume.splice bytes e.offset.toNat
        ((store (payloadObject options e)).getD [])) (disk.data i) := by
  induction events generalizing disk with
  | nil => exact ⟨disk, rfl, hfile, rfl⟩
  | cons e events ih =>
      obtain ⟨hwrite, rfl, hstored⟩ := hevents e List.mem_cons_self
      have hsame : disk.ensured (place options e.path) = disk := by
        rw [Volume.ensured, Volume.addDirs_eq_self hreach, Volume.touch_of_file hfile]
      have hedit : ∀ f, disk.edit (place options e.path) f = disk.setData i (f (disk.data i)) := by
        intro f
        rw [Volume.edit, hfile]
      have hone : runCalls options.cwd.toList store disk (applySelected options e none) =
          .ok (disk.setData i (Volume.splice (disk.data i) e.offset.toNat
            ((store (payloadObject options e)).getD []))) := by
        have hcalls : applySelected options e none = applyWrite options e none := by
          rcases hwrite with h | h | h <;> rw [applySelected, h]
        rw [hcalls, runCalls_applyWrite_iff hpath hstored]
        refine ⟨⟨fun q hq j hj => ?_, ?_⟩, ?_⟩
        · rw [hreach q hq] at hj
          cases hj
        · rw [hfile]
          exact fun h => by cases h
        · rw [hsame, hedit, Option.getD_none, List.take_length]
      obtain ⟨disk', hrun, hnode, hdata⟩ :=
        @ih (disk.setData i (Volume.splice (disk.data i) e.offset.toNat
          ((store (payloadObject options e)).getD [])))
          (fun e' he' => hevents e' (List.mem_cons_of_mem _ he')) hreach hfile
      refine ⟨disk', ?_, hnode, ?_⟩
      · rw [List.flatMap_cons, runCalls_append, hone]
        exact hrun
      · rw [hdata, Volume.data_setData, if_pos rfl]
        rfl

/-- Writes to a file that is not there yet. -/
lemma runCalls_writes_fresh (h : EmptyDir options.target disk) (hpath : BelowRoot options path)
    (hevents : ∀ e ∈ events, IsWrite e ∧ e.path = path ∧
      (store (payloadObject options e)).isSome) (hne : events ≠ []) :
    ∃ disk', runCalls options.cwd.toList store disk
        (events.flatMap fun e => applySelected options e none) = .ok disk' ∧
      disk'.contents (place options path) = some (some (events.foldl (fun bytes e =>
        Volume.splice bytes e.offset.toNat ((store (payloadObject options e)).getD [])) [])) := by
  obtain ⟨hway, hnone⟩ := EmptyDir.clear h hpath
  -- the first write makes the file, which the others then find
  obtain ⟨i, hi⟩ := Volume.exists_node_ensured (t := disk) (p := place options path)
  have hempty : (disk.ensured (place options path)).data i = [] := by
    have hnode : (disk.addDirs (Volume.way (place options path))).node (place options path) =
        none := by
      rw [Volume.node_addDirs_way hpath.place_ne_nil, hnone]
    have htouch := Volume.touch_of_not_file (t := disk.addDirs (Volume.way (place options path)))
      (p := place options path) fun j hj => by
        rw [hnode] at hj
        cases hj
    rw [Volume.ensured, htouch] at hi ⊢
    rw [Volume.node_addFile, if_pos rfl] at hi
    cases hi
    rw [Volume.data_addFile, if_pos rfl]
  obtain ⟨disk', hrun, hnode, hdata⟩ := runCalls_writes hpath hevents
    (Volume.reached_ensured hpath.place_ne_nil) hi
  refine ⟨disk', ?_, ?_⟩
  · cases events with
    | nil => exact absurd rfl hne
    | cons e events =>
        obtain ⟨hwrite, rfl, hstored⟩ := hevents e List.mem_cons_self
        have hcalls : applySelected options e none = applyWrite options e none := by
          rcases hwrite with h | h | h <;> rw [applySelected, h]
        have hsame : (disk.ensured (place options e.path)).ensured (place options e.path) =
            disk.ensured (place options e.path) := by
          rw [Volume.ensured, Volume.addDirs_eq_self
            (Volume.reached_ensured hpath.place_ne_nil), Volume.touch_of_file hi]
        rw [List.flatMap_cons, runCalls_append] at hrun ⊢
        obtain ⟨m, hm, hrest⟩ := bind_eq_ok.mp hrun
        refine bind_eq_ok.mpr ⟨m, ?_, hrest⟩
        rw [hcalls] at hm ⊢
        rw [runCalls_applyWrite_iff hpath hstored] at hm ⊢
        rw [hsame] at hm
        refine ⟨⟨hway, ?_⟩, hm.2⟩
        rw [hnone]
        exact fun h => by cases h
  · rw [hempty] at hdata
    rw [Volume.contents, hnode, ← hdata]
    rfl

end Replay

/-! ### The trace of a run -/

section Trace

variable (p : Process) (fd : ℤ) (path : String)

def Transfer.name (t : Transfer) : CallName := if t.vectored then .writev else .write

/-- A vectored payload larger than the staging buffer gets no digest. -/
def Transfer.digest (t : Transfer) : String :=
  if t.vectored ∧ iovStageMax < t.buffer.length then "" else p.sha256 t.buffer

/-- The record of a call. -/
def Transfer.event? (t : Transfer) : Option TraceEvent :=
  match t.progress with
  | .recorded _ ret completion offset =>
      some ⟨t.index, completion, t.name, fd, t.threadId, path, "", offset, t.buffer.length, ret, 0,
        t.digest p⟩
  | .failed errno completion =>
      some ⟨t.index, completion, t.name, fd, t.threadId, path, "", -1, t.buffer.length, -1, errno,
        t.digest p⟩
  | .issued | .landed _ _ => none

/-- The records, in submission order, as the reader leaves them. -/
def Sharing.events (s : Sharing) : List TraceEvent :=
  (List.range s.count).filterMap fun i => (s.calls i).event? p fd path

/-- Every call that landed transferred all of its buffer, which is in the store. -/
def Whole (options : ReplayOptions) (store : Store) (s : Sharing) : Prop :=
  ∀ i start ret, (s.calls i).spot = some (start, ret) → ret = (s.calls i).buffer.length ∧
    store (PosixPath.join options.casDir.toList ((s.calls i).digest p).toList) =
      some (s.calls i).buffer

variable {p fd path} {options : ReplayOptions} {store : Store} {disk : Disk}

namespace Sharing

lemma Apart.apply_comm {i j : ℕ} (h : s.Apart i j) (b : List UInt8) :
    (s.calls j).apply ((s.calls i).apply b) = (s.calls i).apply ((s.calls j).apply b) := by
  simp only [Transfer.apply]
  cases hi : (s.calls i).spot with
  | none => rfl
  | some spot =>
      cases hj : (s.calls j).spot with
      | none => rfl
      | some spot' =>
          refine Volume.splice_comm_of_le b ?_
          have hend := h spot.1 spot.2 spot'.1 spot'.2 hi hj
          rw [List.length_take]
          omega

/-- Landed calls commute. -/
lemma Valid.apply_comm (h : Valid bytes s) {i j : ℕ} (hi : i ∈ s.order) (hj : j ∈ s.order)
    (b : List UInt8) : (s.calls j).apply ((s.calls i).apply b) =
      (s.calls i).apply ((s.calls j).apply b) := by
  by_cases heq : i = j
  · rw [heq]
  · have hsymm : Std.Symm fun i j => s.Apart i j ∨ s.Apart j i := ⟨fun _ _ h => h.symm⟩
    have hpair : s.order.Pairwise fun i j => s.Apart i j ∨ s.Apart j i := h.apart.imp .inl
    rcases hpair.forall hi hj heq with hij | hji
    · exact hij.apply_comm b
    · exact (hji.apply_comm b).symm

/-- The bytes of the file, applied in the order of submission. -/
lemma Valid.bytes_eq_range (h : Valid bytes s) :
    s.bytes = (List.range s.count).foldl (fun b i => (s.calls i).apply b) bytes := by
  have hperm : ((List.range s.count).filter fun i => (s.calls i).spot ≠ none).Perm s.order := by
    refine (List.perm_ext_iff_of_nodup (List.nodup_range.filter _) h.nodup).mpr fun i => ?_
    rw [List.mem_filter, List.mem_range, decide_eq_true_eq, h.mem_order, and_iff_right_iff_imp]
    intro hspot
    by_contra hge
    rw [Transfer.spot, h.fresh i (not_lt.mp hge)] at hspot
    exact hspot rfl
  have hskip : ∀ (is : List ℕ) (b : List UInt8),
      (is.filter fun i => (s.calls i).spot ≠ none).foldl (fun b i => (s.calls i).apply b) b =
        is.foldl (fun b i => (s.calls i).apply b) b := by
    intro is
    induction is with
    | nil => exact fun b => rfl
    | cons i is ih =>
        intro b
        by_cases hspot : (s.calls i).spot = none
        · rw [List.filter_cons_of_neg (by simp [hspot]), List.foldl_cons, ih, Transfer.apply, hspot]
        · rw [List.filter_cons_of_pos (by simp [hspot]), List.foldl_cons, List.foldl_cons, ih]
  rw [← hskip, h.bytes_eq]
  refine (hperm.foldl_eq' (fun i hi j hj b => ?_) _).symm
  exact h.apply_comm (hperm.mem_iff.mp hi) (hperm.mem_iff.mp hj) b

/-- When offsets are exact, the records apply what the calls did. -/
lemma foldl_events (hexact : s.Exact) (hwhole : Whole p options store s) {is : List ℕ}
    (hsettled : ∀ i ∈ is, (s.calls i).progress.isDone = true) (b : List UInt8) :
    ((is.filterMap fun i => (s.calls i).event? p fd path).filter
        fun e => ¬ e.returnValue < 0).foldl (fun bytes e => Volume.splice bytes e.offset.toNat
          ((store (payloadObject options e)).getD [])) b =
      is.foldl (fun b i => (s.calls i).apply b) b := by
  induction is generalizing b with
  | nil => rfl
  | cons i is ih =>
      have hrest := fun b => ih (fun j hj => hsettled j (List.mem_cons_of_mem _ hj)) b
      rcases Progress.isDone_iff.mp (hsettled i List.mem_cons_self) with
        ⟨start, ret, completion, offset, hi⟩ | ⟨errno, completion, hi⟩
      · have hspot : (s.calls i).spot = some (start, ret) := by rw [Transfer.spot, hi]
        obtain ⟨hret, hstored⟩ := hwhole i start ret hspot
        have hevent : (s.calls i).event? p fd path = some ⟨(s.calls i).index, completion,
            (s.calls i).name, fd, (s.calls i).threadId, path, "", start, (s.calls i).buffer.length,
            ret, 0, (s.calls i).digest p⟩ := by
          rw [Transfer.event?, hi, hexact i start ret completion offset hi]
        have happly : (s.calls i).apply b = Volume.splice b start (s.calls i).buffer := by
          rw [Transfer.apply, hspot, hret]
          exact congrArg (Volume.splice b start) List.take_length
        have hkept : ¬ (ret : ℤ) < 0 := by omega
        rw [List.filterMap_cons_some (f := fun i => (s.calls i).event? p fd path) hevent,
          List.filter_cons_of_pos (p := fun e : TraceEvent => decide (¬ e.returnValue < 0))
            (decide_eq_true hkept), List.foldl_cons, List.foldl_cons, happly, ← hrest,
          payloadObject, hstored]
        rfl
      · have hspot : (s.calls i).spot = none := by rw [Transfer.spot, hi]
        have hevent : (s.calls i).event? p fd path = some ⟨(s.calls i).index, completion,
            (s.calls i).name, fd, (s.calls i).threadId, path, "", -1, (s.calls i).buffer.length,
            -1, errno, (s.calls i).digest p⟩ := by
          rw [Transfer.event?, hi]
        rw [List.filterMap_cons_some (f := fun i => (s.calls i).event? p fd path) hevent,
          List.filter_cons_of_neg (p := fun e : TraceEvent => decide (¬ e.returnValue < 0))
            (fun h => of_decide_eq_true h neg_one_lt_zero), hrest, List.foldl_cons, Transfer.apply,
          hspot]

lemma flatMap_ite_nil {α β : Type} {q : α → Prop} [DecidablePred q] {f : α → List β}
    (l : List α) : (l.flatMap fun x => if q x then [] else f x) =
      (l.filter fun x => ¬ q x).flatMap f := by
  induction l with
  | nil => rfl
  | cons x l ih =>
      by_cases hx : q x
      · rw [List.flatMap_cons, if_pos hx, List.nil_append, ih,
          List.filter_cons_of_neg (by simpa using hx)]
      · rw [List.flatMap_cons, if_neg hx, ih, List.filter_cons_of_pos (by simpa using hx),
          List.flatMap_cons]

/-- The replay of exact records reproduces the file. -/
lemma Valid.replay (h : Valid [] s) (hexact : s.Exact) (hsettled : s.Settled)
    (hwhole : Whole p options store s) (hempty : EmptyDir options.target disk)
    (hpath : BelowRoot options path) (header : TraceHeader) (markers : List TraceMarker) :
    ∃ disk', runCalls options.cwd.toList store disk
        (replayTrace options ⟨header, s.events p fd path, markers⟩) = .ok disk' ∧
      ((∃ i, (s.calls i).spot ≠ none) →
        disk'.contents (place options path) = some (some s.bytes)) := by
  have hbytes : s.bytes = ((s.events p fd path).filter fun e => ¬ e.returnValue < 0).foldl
      (fun bytes e => Volume.splice bytes e.offset.toNat
        ((store (payloadObject options e)).getD [])) [] := by
    rw [h.bytes_eq_range, events,
      foldl_events hexact hwhole fun i hi => hsettled i (List.mem_range.mp hi)]
  have hevents : ∀ e ∈ (s.events p fd path).filter fun e => ¬ e.returnValue < 0,
      IsWrite e ∧ e.path = path ∧ (store (payloadObject options e)).isSome := by
    intro e he
    obtain ⟨hmem, hret⟩ := List.mem_filter.mp he
    obtain ⟨i, -, hi⟩ := List.mem_filterMap.mp hmem
    rw [Transfer.event?] at hi
    split at hi
    · next start ret completion offset hprogress =>
        obtain ⟨-, hstored⟩ := hwhole i start ret (by rw [Transfer.spot, hprogress])
        cases hi
        refine ⟨?_, rfl, ?_⟩
        · rw [IsWrite, Transfer.name]
          cases (s.calls i).vectored <;> simp
        · rw [payloadObject, hstored]
          rfl
    · cases hi
      exact absurd neg_one_lt_zero (of_decide_eq_true hret)
    · cases hi
    · cases hi
  rw [replayTrace, hempty.runCalls_cons, flatMap_ite_nil]
  by_cases hnil : ((s.events p fd path).filter fun e => ¬ e.returnValue < 0) = []
  · refine ⟨disk, by rw [hnil]; rfl, ?_⟩
    rintro ⟨i, hi⟩
    have hlt : i < s.count := h.lt_count fun hissued => hi (by rw [Transfer.spot, hissued])
    exfalso
    rcases Progress.isDone_iff.mp (hsettled i hlt) with
      ⟨start, ret, completion, offset, hprogress⟩ | ⟨errno, completion, hprogress⟩
    · refine List.filter_eq_nil_iff.mp hnil _ (List.mem_filterMap.mpr
        ⟨i, List.mem_range.mpr hlt, by rw [Transfer.event?, hprogress]⟩) ?_
      have hkept : ¬ (ret : ℤ) < 0 := by omega
      exact decide_eq_true hkept
    · rw [Transfer.spot, hprogress] at hi
      exact hi rfl
  · obtain ⟨disk', hrun, hcontents⟩ := runCalls_writes_fresh hempty hpath hevents hnil
    exact ⟨disk', hrun, fun _ => by rw [hcontents, hbytes]⟩

/-- **When recorded offsets are exact**, and that the replay then reproduces the
file. -/
theorem offsets_exact_iff (bytes : List UInt8)
    (hrun : (opened bytes).run append steps = some s) :
    ((opened bytes).Undisturbed append steps → s.Exact) ∧
      (s.Settled → (s.Exact ↔ (opened bytes).Undisturbed append steps)) ∧
      (bytes = [] → s.Settled → (opened bytes).Undisturbed append steps →
        ∀ p fd path options store disk header markers, Whole p options store s →
          EmptyDir options.target disk → BelowRoot options path →
          ∃ disk', runCalls options.cwd.toList store disk
              (replayTrace options ⟨header, s.events p fd path, markers⟩) = .ok disk' ∧
            ((∃ i, (s.calls i).spot ≠ none) →
              disk'.contents (place options path) = some (some s.bytes))) := by
  have hstart : OnTime (opened bytes) :=
    ⟨fun _ _ _ h => (by cases h), fun _ _ _ _ _ h => (by cases h)⟩
  have hexact : (opened bytes).Undisturbed append steps → s.Exact :=
    fun halone => (hstart.run (valid_opened bytes) halone hrun).exact
  have hvalid := (valid_opened bytes).run hrun
  refine ⟨hexact, fun hsettled => ⟨?_, hexact⟩, ?_⟩
  · exact undisturbed_of_exact (valid_opened bytes) hrun hsettled
  · rintro rfl hsettled halone p fd path options store disk header markers hwhole hempty hpath
    exact hvalid.replay (hexact halone) hsettled hwhole hempty hpath header markers

/-- Two writes, one after the other. -/
def alternating : List SharingStep :=
  [.issue 7 false [97], .land 0 1, .record 0, .issue 8 true [98], .land 1 1, .record 1]

/-- Two writes, of which the second one lands before the first one is recorded. -/
def overtaken : List SharingStep :=
  [.issue 7 false [97], .issue 8 false [98], .land 0 1, .land 1 1, .record 0, .record 1]

def after (steps : List SharingStep) : Sharing :=
  ((opened []).run false steps).getD (opened [])

lemma run_after {steps : List SharingStep} (h : ((opened []).run false steps).isSome = true) :
    (opened []).run false steps = some (after steps) := by
  obtain ⟨s, hs⟩ := Option.isSome_iff_exists.mp h
  rw [after, hs]
  rfl

/-- Both are recorded where they landed. -/
theorem alternating_exact : (after alternating).Exact :=
  (offsets_exact_iff [] (run_after (by decide +kernel) :
    (opened []).run false alternating = some (after alternating))).1 (by decide +kernel)

/-- The payloads of both. -/
def overtakenStore : Store :=
  storeOf captureOptions [(liveProcess.sha256 [97], [97]), (liveProcess.sha256 [98], [98])]

/-- The first one is recorded where the second one landed, and its byte is lost. -/
theorem overtaken_lost :
    (opened []).run false overtaken = some (after overtaken) ∧
      (after overtaken).bytes = [97, 98] ∧ (after overtaken).Settled ∧
      ((after overtaken).calls 0).progress = .recorded 0 1 2 1 ∧ ¬ (after overtaken).Exact ∧
      ((runCalls captureOptions.cwd.toList overtakenStore (freshDisk "image".toList)
          (replayTrace captureOptions ⟨⟨traceVersion, 7⟩,
            (after overtaken).events liveProcess 3 "/live/f", []⟩)).toOption.bind fun image =>
          image.contents ["image".toList, "f".toList]) = some (some [0, 98]) := by
  have hfirst : ((after overtaken).calls 0).progress = .recorded 0 1 2 1 := by decide +kernel
  refine ⟨run_after (by decide +kernel), by decide +kernel, ?_, hfirst, fun hexact => ?_,
    by decide +kernel⟩
  · unfold Settled
    decide +kernel
  · have hoffset := hexact 0 0 1 2 1 hfirst
    revert hoffset
    decide

end Sharing

end Trace

end CrashFuzz.Shim
