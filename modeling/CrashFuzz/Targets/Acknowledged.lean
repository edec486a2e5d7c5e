import CrashFuzz.Oracle.ShortMarkers
import CrashFuzz.Targets.Workload

/-!
What the writers of a workload acknowledge, in whatever order they move.

* `Numbered`: no two writers have one number, and none goes beyond the last.
* `Staged`: how far the markers and the commit of each operation are.
* `Marked`: the markers that were recorded are those of the operations, and rests
  of them.
* `run_ackLog`: the acknowledgement log of a run has one record for each operation
  that began, and is complete when all writers are done.
-/

namespace CrashFuzz.World

variable {w : Workload} {s s' : World w} {t t' : Fin w.threads} {op : ℕ} {phase : Phase}

/-! ### The numbers -/

/-- The writers that found no number left. -/
def finished (s : World w) : Finset (Fin w.threads) := Finset.univ.filter (s.threads · = .done)

/-- What the writers know of the numbers. -/
structure Numbered (s : World w) : Prop where
  pos : 1 ≤ s.next
  held : ∀ t op, (s.threads t).op = some op → 1 ≤ op ∧ op ≤ w.operations ∧ op < s.next
  apart : ∀ t t' op, (s.threads t).op = some op → (s.threads t').op = some op → t = t'
  /-- A writer stops only after the last number. -/
  beyond : ∀ t, s.threads t = .done → w.operations < s.next
  next_le : s.next ≤ w.operations + 1 + s.finished.card

lemma Numbered.congr (h : Numbered s) (hnext : s'.next = s.next)
    (hthreads : s'.threads = s.threads) : Numbered s' := by
  have hfinished : s'.finished = s.finished := by rw [finished, finished, hthreads]
  refine ⟨hnext ▸ h.pos, ?_, ?_, ?_, ?_⟩
  · rw [hthreads, hnext]
    exact h.held
  · rw [hthreads]
    exact h.apart
  · rw [hthreads, hnext]
    exact h.beyond
  · rw [hnext, hfinished]
    exact h.next_le

/-- A writer that keeps its number, or gives it up. -/
lemma Numbered.keep (h : Numbered s) (hnext : s'.next = s.next)
    (hthreads : s'.threads = Function.update s.threads t phase)
    (hop : ∀ op, phase.op = some op → (s.threads t).op = some op) (hdone : phase ≠ .done)
    (hdone' : s.threads t ≠ .done) : Numbered s' := by
  have hsame : ∀ t' op, (s'.threads t').op = some op → (s.threads t').op = some op := by
    intro t' op ht'
    rw [hthreads] at ht'
    by_cases heq : t' = t
    · rw [heq, Function.update_self] at ht'
      rw [heq]
      exact hop op ht'
    · rwa [Function.update_of_ne heq] at ht'
  have hfinished : ∀ t', s'.threads t' = .done ↔ s.threads t' = .done := by
    intro t'
    rw [hthreads]
    by_cases heq : t' = t
    · rw [heq, Function.update_self]
      exact iff_of_false hdone hdone'
    · rw [Function.update_of_ne heq]
  refine ⟨hnext ▸ h.pos, fun t' op ht' => hnext ▸ h.held t' op (hsame t' op ht'),
    fun t₁ t₂ op h₁ h₂ => h.apart t₁ t₂ op (hsame t₁ op h₁) (hsame t₂ op h₂),
    fun t' ht' => hnext ▸ h.beyond t' ((hfinished t').mp ht'), ?_⟩
  have hcard : s'.finished = s.finished := Finset.filter_congr fun t' _ => hfinished t'
  rw [hnext, hcard]
  exact h.next_le

/-- The counter does not wrap around. -/
lemma Numbered.successor_eq (h : Numbered s) (hsmall : w.operations + w.threads + 1 < 2 ^ 64)
    (ht : s.threads t = .ready) : s.successor = s.next + 1 := by
  have hready : t ∉ s.finished := by
    rw [finished, Finset.mem_filter]
    rintro ⟨-, hdone⟩
    rw [ht] at hdone
    cases hdone
  have hcard : s.finished.card < w.threads := by
    have hlt := Finset.card_lt_univ_of_notMem hready
    rwa [Fintype.card_fin] at hlt
  have hnext := h.next_le
  rw [successor]
  split
  · rfl
  · exact Nat.mod_eq_of_lt (by omega)

/-- The writer that takes the next number. -/
lemma Numbered.take (h : Numbered s) (hsmall : w.operations + w.threads + 1 < 2 ^ 64)
    (ht : s.threads t = .ready) : Numbered (s.take t) := by
  have hnext : (s.take t).next = s.next + 1 := h.successor_eq hsmall ht
  have hself := threads_take_self (s := s) (t := t)
  have hold : ∀ t' op, t' ≠ t → ((s.take t).threads t').op = some op →
      1 ≤ op ∧ op ≤ w.operations ∧ op < s.next := fun t' op hne hop =>
    h.held t' op (threads_take_of_ne hne ▸ hop)
  have hnew : ∀ op, ((s.take t).threads t).op = some op → op = s.next ∧ op ≤ w.operations := by
    intro op hop
    rw [hself] at hop
    split at hop
    · next hle =>
        obtain rfl := Option.some.inj hop
        exact ⟨rfl, hle⟩
    · cases hop
  refine ⟨by omega, fun t' op hop => ?_, fun t₁ t₂ op h₁ h₂ => ?_, fun t' hdone => ?_, ?_⟩
  · by_cases heq : t' = t
    · obtain ⟨rfl, hle⟩ := hnew op (heq ▸ hop)
      exact ⟨h.pos, hle, by omega⟩
    · have hrange := hold t' op heq hop
      omega
  · by_cases heq₁ : t₁ = t
    · by_cases heq₂ : t₂ = t
      · rw [heq₁, heq₂]
      · have hnext' := (hnew op (heq₁ ▸ h₁)).1
        have hrange := hold t₂ op heq₂ h₂
        omega
    · by_cases heq₂ : t₂ = t
      · have hnext' := (hnew op (heq₂ ▸ h₂)).1
        have hrange := hold t₁ op heq₁ h₁
        omega
      · rw [threads_take_of_ne heq₁] at h₁
        rw [threads_take_of_ne heq₂] at h₂
        exact h.apart t₁ t₂ op h₁ h₂
  · by_cases heq : t' = t
    · rw [heq, hself] at hdone
      split at hdone
      · cases hdone
      · omega
    · have hbeyond := h.beyond t' (threads_take_of_ne heq ▸ hdone)
      omega
  · by_cases hle : s.next ≤ w.operations
    · omega
    · -- one more writer is done
      have hfinished : (s.take t).finished = insert t s.finished := by
        ext t'
        rw [finished, finished, Finset.mem_insert, Finset.mem_filter, Finset.mem_filter]
        by_cases heq : t' = t
        · subst heq
          simp [hself, hle]
        · simp [threads_take_of_ne heq, heq]
      have hready : t ∉ s.finished := by
        rw [finished, Finset.mem_filter, ht]
        rintro ⟨-, hdone⟩
        cases hdone
      have hnext' := h.next_le
      rw [hfinished, Finset.card_insert_of_notMem hready]
      omega

/-- **The numbers after a step.** -/
lemma Numbered.step (h : Numbered s) (hsmall : w.operations + w.threads + 1 < 2 ^ 64)
    (hmove : s.Moves s') : Numbered s' := by
  cases hmove with
  | call => exact h.congr rfl rfl
  | take t ht => exact h.take hsmall ht
  | markBegin t op hfile ht => exact h.congr rfl rfl
  | markAck t op hfile ht => exact h.congr rfl rfl
  | markRest t text written hfile hwritten hlt => exact h.congr rfl rfl
  | releaseBegin t op hfile ht =>
      exact h.keep rfl rfl (fun _ hop => by rw [ht]; exact hop) (by simp) (by simp [ht])
  | releaseAck t op hfile ht =>
      exact h.keep rfl rfl (fun _ hop => by cases hop) (by decide) (by simp [ht])
  | beginWrite t op ht =>
      exact h.keep rfl rfl (fun _ hop => by rw [ht]; exact hop) (by simp) (by simp [ht])
  | commit t op ht =>
      exact h.keep rfl rfl (fun _ hop => by rw [ht]; exact hop) (by simp) (by simp [ht])
  | fail t op ht =>
      rcases ht with ht | ht
      · exact h.keep rfl rfl (fun _ hop => by rw [ht]; exact hop) (by simp) (by simp [ht])
      · exact h.keep rfl rfl (fun _ hop => by rw [ht]; exact hop) (by simp) (by simp [ht])

/-! ### Markers and commits -/

/-- Who holds the mutex of the marker file. -/
def holder (s : World w) : Option (Fin w.threads) := s.file.map (·.1)

/-- What happened to the operation a writer is at. -/
def Stage (s : World w) (t : Fin w.threads) : Phase → Prop
  | .ready | .done | .failed _ => True
  | .taken op => ((∃ b, s.begunAt op = some b) ↔ s.holder = some t) ∧
      s.committedAt op = none ∧ s.ackedAt op = none
  | .begun op | .writing op => (∃ b, s.begunAt op = some b) ∧ s.committedAt op = none ∧
      s.ackedAt op = none
  | .committed op => (∃ c, s.committedAt op = some c) ∧
      ((∃ a, s.ackedAt op = some a) ↔ s.holder = some t)

/-- How far the operations are. -/
structure Staged (s : World w) : Prop where
  stage : ∀ t, s.Stage t (s.threads t)
  holding : ∀ t, s.holder = some t → ∃ op, s.threads t = .taken op ∨ s.threads t = .committed op
  begun : ∀ op b, s.begunAt op = some b →
    b < s.clock ∧ 1 ≤ op ∧ op ≤ w.operations ∧ op < s.next
  committed : ∀ op c, s.committedAt op = some c → c ≤ s.clock ∧ ∃ b, s.begunAt op = some b ∧ b < c
  acked : ∀ op a, s.ackedAt op = some a → a < s.clock ∧ ∃ c, s.committedAt op = some c ∧ c ≤ a
  /-- An operation is given up only when it was acknowledged. -/
  covered : ∀ op, 1 ≤ op → op ≤ w.operations → op < s.next →
    (∃ t, (s.threads t).op = some op) ∨ ∃ a, s.ackedAt op = some a

lemma Stage.congr (h : s.Stage t phase) (hholder : s'.holder = some t ↔ s.holder = some t)
    (hsame : ∀ op, phase.op = some op → s'.begunAt op = s.begunAt op ∧
      s'.committedAt op = s.committedAt op ∧ s'.ackedAt op = s.ackedAt op) :
    s'.Stage t phase := by
  cases phase with
  | ready | done | failed => trivial
  | taken op | begun op | writing op | committed op =>
      obtain ⟨hbegun, hcommitted, hacked⟩ := hsame op rfl
      simpa only [Stage, hholder, hbegun, hcommitted, hacked] using h

/-- The stages of all writers, after one of them moved. -/
lemma Staged.stage_of (h : Staged s) (hnumbered : Numbered s)
    (hthreads : s'.threads = Function.update s.threads t phase)
    (hholder : ∀ t' ≠ t, s'.holder = some t' ↔ s.holder = some t')
    (hsame : ∀ op, (s.threads t).op ≠ some op → s'.begunAt op = s.begunAt op ∧
      s'.committedAt op = s.committedAt op ∧ s'.ackedAt op = s.ackedAt op)
    (hself : s'.Stage t phase) : ∀ t', s'.Stage t' (s'.threads t') := by
  intro t'
  rw [hthreads]
  by_cases heq : t' = t
  · rwa [heq, Function.update_self]
  · rw [Function.update_of_ne heq]
    refine (h.stage t').congr (hholder t' heq) fun op hop => hsame op fun ht => ?_
    exact heq (hnumbered.apart t' t op hop ht)

/-- Where the operation of a writer stays with it, or was acknowledged. -/
lemma Staged.covered_of (h : Staged s) (hnext : s'.next = s.next)
    (hthreads : s'.threads = Function.update s.threads t phase)
    (hop : ∀ op, (s.threads t).op = some op → phase.op = some op ∨ ∃ a, s.ackedAt op = some a)
    (hacked : ∀ op a, s.ackedAt op = some a → ∃ a', s'.ackedAt op = some a') :
    ∀ op, 1 ≤ op → op ≤ w.operations → op < s'.next →
      (∃ t, (s'.threads t).op = some op) ∨ ∃ a, s'.ackedAt op = some a := by
  intro op hpos hle hlt
  rcases h.covered op hpos hle (hnext ▸ hlt) with ⟨t', ht'⟩ | ⟨a, ha⟩
  · by_cases heq : t' = t
    · rcases hop op (heq ▸ ht') with hkept | ⟨a, ha⟩
      · refine .inl ⟨t, ?_⟩
        rwa [hthreads, Function.update_self]
      · exact .inr (hacked op a ha)
    · refine .inl ⟨t', ?_⟩
      rwa [hthreads, Function.update_of_ne heq]
  · exact .inr (hacked op a ha)

lemma update_threads (s : World w) (t : Fin w.threads) :
    s.threads = Function.update s.threads t (s.threads t) := (Function.update_eq_self _ _).symm

/-- A writer that goes on while nothing is recorded. -/
lemma Staged.move (h : Staged s) (hnumbered : Numbered s) (ht : s.holder ≠ some t)
    (hop : ∀ op, (s.threads t).op = some op → phase.op = some op)
    (hself : s.Stage t phase) : Staged (s.setThread t phase) where
  stage := h.stage_of hnumbered rfl (fun _ _ => Iff.rfl) (fun _ _ => ⟨rfl, rfl, rfl⟩)
    (hself.congr Iff.rfl fun _ _ => ⟨rfl, rfl, rfl⟩)
  holding := fun t' ht' => by
    have hne : t' ≠ t := fun heq => ht (heq ▸ ht')
    obtain ⟨op, hphase⟩ := h.holding t' ht'
    exact ⟨op, by rwa [threads_setThread_of_ne hne]⟩
  begun := h.begun
  committed := h.committed
  acked := h.acked
  covered := h.covered_of rfl rfl (fun op hphase => .inl (hop op hphase)) fun _ a ha => ⟨a, ha⟩

/-- A writer that takes a number. -/
lemma Staged.take (h : Staged s) (hnumbered : Numbered s)
    (hsmall : w.operations + w.threads + 1 < 2 ^ 64) (ht : s.threads t = .ready) :
    Staged (s.take t) := by
  have hnext : (s.take t).next = s.next + 1 := hnumbered.successor_eq hsmall ht
  have hidle : s.holder ≠ some t := fun hheld => by
    obtain ⟨op, hphase⟩ := h.holding t hheld
    rw [ht] at hphase
    rcases hphase with hphase | hphase <;> cases hphase
  have hfresh : s.begunAt s.next = none := by
    by_contra hbegun
    obtain ⟨b, hb⟩ := Option.ne_none_iff_exists'.mp hbegun
    have hlt := (h.begun _ b hb).2.2.2
    omega
  have hcommitted : s.committedAt s.next = none := by
    by_contra hsome
    obtain ⟨c, hc⟩ := Option.ne_none_iff_exists'.mp hsome
    obtain ⟨-, b, hb, -⟩ := h.committed _ c hc
    rw [hfresh] at hb
    cases hb
  have hacked : s.ackedAt s.next = none := by
    by_contra hsome
    obtain ⟨a, ha⟩ := Option.ne_none_iff_exists'.mp hsome
    obtain ⟨-, c, hc, -⟩ := h.acked _ a ha
    rw [hcommitted] at hc
    cases hc
  refine ⟨h.stage_of hnumbered rfl (fun _ _ => Iff.rfl) (fun _ _ => ⟨rfl, rfl, rfl⟩) ?_,
    fun t' ht' => ?_, fun op b hb => ?_, h.committed, h.acked, fun op hpos hle hlt => ?_⟩
  · split
    · refine ⟨iff_of_false ?_ hidle, hcommitted, hacked⟩
      rintro ⟨b, hb⟩
      have hb' : s.begunAt s.next = some b := hb
      rw [hfresh] at hb'
      cases hb'
    · trivial
  · have hne : t' ≠ t := fun heq => hidle (heq ▸ ht')
    obtain ⟨op, hphase⟩ := h.holding t' ht'
    exact ⟨op, by rwa [threads_take_of_ne hne]⟩
  · have hrange := h.begun op b hb
    refine ⟨hrange.1, hrange.2.1, hrange.2.2.1, ?_⟩
    omega
  · by_cases heq : op = s.next
    · refine .inl ⟨t, ?_⟩
      rw [threads_take_self, if_pos (heq ▸ hle), heq]
      rfl
    · rcases h.covered op hpos hle (by omega) with ⟨t', ht'⟩ | hdone
      · have hne : t' ≠ t := by
          rintro rfl
          rw [ht] at ht'
          cases ht'
        exact .inl ⟨t', by rwa [threads_take_of_ne hne]⟩
      · exact .inr hdone

/-- Nobody else holds the mutex that was free. -/
lemma holder_record_iff (hfile : s.file = none) {text : List Char} (hne : t' ≠ t) :
    (s.record t text).holder = some t' ↔ s.holder = some t' := by
  have hnew : (s.record t text).holder = some t := rfl
  have hold : s.holder = none := by rw [holder, hfile, Option.map_none]
  rw [hnew, hold]
  exact iff_of_false (fun heq => hne (Option.some.inj heq).symm) (by simp)

/-- A begin marker. -/
lemma Staged.markBegin (h : Staged s) (hnumbered : Numbered s) (hfile : s.file = none)
    (ht : s.threads t = .taken op) : Staged (s.markBegin t op) := by
  have hstage := h.stage t
  rw [ht] at hstage
  obtain ⟨-, hcommitted, hacked⟩ := hstage
  have hop : (s.threads t).op = some op := by rw [ht]; rfl
  have hself : (s.markBegin t op).begunAt op = some s.clock := Function.update_self _ _ _
  have hothers : ∀ op' ≠ op, (s.markBegin t op).begunAt op' = s.begunAt op' := fun op' hne =>
    Function.update_of_ne hne _ _
  refine ⟨h.stage_of hnumbered (update_threads s t) (fun _ hne => holder_record_iff hfile hne)
    (fun op' hne => ⟨hothers op' fun heq => hne (heq ▸ hop), rfl, rfl⟩) ?_, fun t' ht' => ?_,
    fun op' b hb => ?_, fun op' c hc => ?_, fun op' a ha => ?_,
    h.covered_of rfl (update_threads s t) (fun _ hkept => .inl hkept) fun _ a ha => ⟨a, ha⟩⟩
  · rw [ht]
    exact ⟨iff_of_true ⟨_, hself⟩ rfl, hcommitted, hacked⟩
  · obtain rfl := Option.some.inj ht'
    exact ⟨op, .inl ht⟩
  · by_cases heq : op' = op
    · subst heq
      obtain rfl := Option.some.inj (hself.symm.trans hb)
      exact ⟨Nat.lt_succ_self _, hnumbered.held t op' hop⟩
    · have hrange := h.begun op' b (hothers op' heq ▸ hb)
      exact ⟨Nat.lt_succ_of_lt hrange.1, hrange.2⟩
  · have hold := h.committed op' c hc
    have hne : op' ≠ op := by
      rintro rfl
      have hnone := hcommitted.symm.trans hc
      cases hnone
    exact ⟨Nat.le_succ_of_le hold.1, by rw [hothers op' hne]; exact hold.2⟩
  · have hold := h.acked op' a ha
    exact ⟨Nat.lt_succ_of_lt hold.1, hold.2⟩

/-- An ack marker. -/
lemma Staged.markAck (h : Staged s) (hnumbered : Numbered s) (hfile : s.file = none)
    (ht : s.threads t = .committed op) : Staged (s.markAck t op) := by
  have hstage := h.stage t
  rw [ht] at hstage
  obtain ⟨⟨c, hc⟩, -⟩ := hstage
  have hop : (s.threads t).op = some op := by rw [ht]; rfl
  have hself : (s.markAck t op).ackedAt op = some s.clock := Function.update_self _ _ _
  have hothers : ∀ op' ≠ op, (s.markAck t op).ackedAt op' = s.ackedAt op' := fun op' hne =>
    Function.update_of_ne hne _ _
  refine ⟨h.stage_of hnumbered (update_threads s t) (fun _ hne => holder_record_iff hfile hne)
    (fun op' hne => ⟨rfl, rfl, hothers op' fun heq => hne (heq ▸ hop)⟩) ?_, fun t' ht' => ?_,
    fun op' b hb => ?_, fun op' c' hc' => ?_, fun op' a ha => ?_,
    h.covered_of rfl (update_threads s t) (fun _ hkept => .inl hkept) fun op' a ha => ?_⟩
  · rw [ht]
    exact ⟨⟨c, hc⟩, iff_of_true ⟨_, hself⟩ rfl⟩
  · obtain rfl := Option.some.inj ht'
    exact ⟨op, .inr ht⟩
  · have hrange := h.begun op' b hb
    exact ⟨Nat.lt_succ_of_lt hrange.1, hrange.2⟩
  · have hold := h.committed op' c' hc'
    exact ⟨Nat.le_succ_of_le hold.1, hold.2⟩
  · by_cases heq : op' = op
    · subst heq
      obtain rfl := Option.some.inj (hself.symm.trans ha)
      exact ⟨Nat.lt_succ_self _, c, hc, (h.committed op' c hc).1⟩
    · have hold := h.acked op' a (hothers op' heq ▸ ha)
      exact ⟨Nat.lt_succ_of_lt hold.1, hold.2⟩
  · by_cases heq : op' = op
    · exact ⟨s.clock, by rw [heq, hself]⟩
    · exact ⟨a, by rwa [hothers op' heq]⟩

/-- A further write of the marker. -/
lemma Staged.markRest (h : Staged s) {text rest : List Char} (hfile : s.file = some (t, text)) :
    Staged (s.record t rest) := by
  have hholder : (s.record t rest).holder = s.holder := by
    rw [holder, holder, hfile]
    rfl
  refine ⟨fun t' => (h.stage t').congr (by rw [hholder]) fun _ _ => ⟨rfl, rfl, rfl⟩,
    fun t' ht' => h.holding t' (hholder ▸ ht'), fun op b hb => ?_, fun op c hc => ?_,
    fun op a ha => ?_, h.covered⟩
  · have hrange := h.begun op b hb
    exact ⟨Nat.lt_succ_of_lt hrange.1, hrange.2⟩
  · have hold := h.committed op c hc
    exact ⟨Nat.le_succ_of_le hold.1, hold.2⟩
  · have hold := h.acked op a ha
    exact ⟨Nat.lt_succ_of_lt hold.1, hold.2⟩

/-- The mutex is released. -/
lemma Staged.release (h : Staged s) (hnumbered : Numbered s) (hheld : s.holder = some t)
    (hop : ∀ op, (s.threads t).op = some op → phase.op = some op ∨ ∃ a, s.ackedAt op = some a)
    (hself : (s.release t phase).Stage t phase) : Staged (s.release t phase) where
  stage := by
    refine h.stage_of hnumbered rfl (fun t' hne => ?_) (fun _ _ => ⟨rfl, rfl, rfl⟩) hself
    have hnone : (s.release t phase).holder = none := rfl
    rw [hnone, hheld]
    exact iff_of_false (by simp) fun heq => hne (Option.some.inj heq).symm
  holding := fun t' ht' => by cases ht'
  begun := h.begun
  committed := h.committed
  acked := h.acked
  covered := h.covered_of rfl rfl hop fun _ a ha => ⟨a, ha⟩

/-- A commit that returned. -/
lemma Staged.commit (h : Staged s) (hnumbered : Numbered s) (ht : s.threads t = .writing op) :
    Staged (s.commit t op) := by
  have hstage := h.stage t
  rw [ht] at hstage
  obtain ⟨⟨b, hb⟩, hcommitted, hacked⟩ := hstage
  have hop : (s.threads t).op = some op := by rw [ht]; rfl
  have hidle : s.holder ≠ some t := fun hheld => by
    obtain ⟨op, hphase⟩ := h.holding t hheld
    rw [ht] at hphase
    rcases hphase with hphase | hphase <;> cases hphase
  have hself : (s.commit t op).committedAt op = some s.clock := Function.update_self _ _ _
  have hothers : ∀ op' ≠ op, (s.commit t op).committedAt op' = s.committedAt op' := fun op' hne =>
    Function.update_of_ne hne _ _
  refine ⟨h.stage_of hnumbered rfl (fun _ _ => Iff.rfl)
    (fun op' hne => ⟨rfl, hothers op' fun heq => hne (heq ▸ hop), rfl⟩) ?_, fun t' ht' => ?_,
    h.begun, fun op' c hc => ?_, fun op' a ha => ?_,
    h.covered_of rfl rfl (fun op' hkept => .inl (hop.symm.trans hkept)) fun _ a ha => ⟨a, ha⟩⟩
  · refine ⟨⟨_, hself⟩, iff_of_false ?_ hidle⟩
    rintro ⟨a, ha⟩
    have hnone := hacked.symm.trans ha
    cases hnone
  · have hne : t' ≠ t := fun heq => hidle (heq ▸ ht')
    obtain ⟨op', hphase⟩ := h.holding t' ht'
    refine ⟨op', ?_⟩
    have hthreads : (s.commit t op).threads t' = s.threads t' := threads_setThread_of_ne hne
    rwa [hthreads]
  · by_cases heq : op' = op
    · subst heq
      obtain rfl := Option.some.inj (hself.symm.trans hc)
      exact ⟨le_rfl, b, hb, (h.begun op' b hb).1⟩
    · exact h.committed op' c (hothers op' heq ▸ hc)
  · obtain ⟨hlt, c, hc, hle⟩ := h.acked op' a ha
    have hne : op' ≠ op := by
      rintro rfl
      have hnone := hacked.symm.trans ha
      cases hnone
    exact ⟨hlt, c, by rwa [hothers op' hne], hle⟩

/-- **The operations after a step.** -/
lemma Staged.step (h : Staged s) (hnumbered : Numbered s)
    (hsmall : w.operations + w.threads + 1 < 2 ^ 64) (hmove : s.Moves s') : Staged s' := by
  have hidle : ∀ {t op}, s.threads t = .begun op ∨ s.threads t = .writing op →
      s.holder ≠ some t := by
    intro t op ht hheld
    obtain ⟨op', hphase⟩ := h.holding t hheld
    rcases ht with ht | ht <;> rw [ht] at hphase <;> rcases hphase with hphase | hphase <;>
      cases hphase
  cases hmove with
  | call =>
      refine ⟨fun t => (h.stage t).congr Iff.rfl fun _ _ => ⟨rfl, rfl, rfl⟩, h.holding,
        fun op b hb => ?_, fun op c hc => ?_, fun op a ha => ?_, h.covered⟩
      · have hrange := h.begun op b hb
        exact ⟨Nat.lt_succ_of_lt hrange.1, hrange.2⟩
      · have hold := h.committed op c hc
        exact ⟨Nat.le_succ_of_le hold.1, hold.2⟩
      · have hold := h.acked op a ha
        exact ⟨Nat.lt_succ_of_lt hold.1, hold.2⟩
  | take t ht => exact h.take hnumbered hsmall ht
  | markBegin t op hfile ht => exact h.markBegin hnumbered hfile ht
  | markAck t op hfile ht => exact h.markAck hnumbered hfile ht
  | markRest t text written hfile hwritten hlt => exact h.markRest hfile
  | releaseBegin t op hfile ht =>
      have hstage := h.stage t
      rw [ht] at hstage
      refine h.release hnumbered hfile (fun op' hop => .inl ?_) ⟨hstage.1.mpr hfile, hstage.2⟩
      rwa [ht] at hop
  | releaseAck t op hfile ht =>
      have hstage := h.stage t
      rw [ht] at hstage
      refine h.release hnumbered hfile (fun op' hop => .inr ?_) trivial
      rw [ht] at hop
      obtain rfl := Option.some.inj hop
      exact hstage.2.mpr hfile
  | beginWrite t op ht =>
      have hstage := h.stage t
      rw [ht] at hstage
      exact h.move hnumbered (hidle (.inl ht)) (fun op' hop => by rwa [ht] at hop) hstage
  | commit t op ht => exact h.commit hnumbered ht
  | fail t op ht =>
      refine h.move hnumbered (hidle ht) (fun op' hop => ?_) trivial
      rcases ht with ht | ht <;> rwa [ht] at hop

/-! ### The markers -/

/-- A digit is no `=`. -/
lemma ne_equals_of_mem_toDigits {n : ℕ} : '=' ∉ Nat.toDigits 10 n := fun h =>
  absurd (Decimal.isDigit_toDigits h) (by decide)

lemma equals_notMem_number (op : ℕ) : '=' ∉ (toString (op : ℤ)).toList := by
  rw [Decimal.toList_toString_int, Decimal.integerChars, if_neg (by simp)]
  exact ne_equals_of_mem_toDigits

lemma equals_notMem_opKey (op : ℕ) : '=' ∉ (opKey op).toList := by
  rw [toList_opKey, List.mem_cons, not_or]
  exact ⟨by decide, ne_equals_of_mem_toDigits⟩

lemma equals_notMem_digestOf (value : List UInt8) : '=' ∉ (digestOf value).toList := fun h =>
  forall_mem_digestOf (P := (· ≠ '=')) (by decide) value '=' h rfl

/-- The texts of the workload's markers. -/
def IsMarker (w : Workload) (text : List Char) : Prop :=
  ∃ op, text = (Workload.beginText op).toList ∨ text = (w.ackText op).toList

/-- **The rest of a marker** has no `op` field. -/
lemma get?_op_drop {text full : List Char} (hfull : IsMarker w full) (htext : text <:+ full)
    {written : ℕ} (hwritten : 0 < written) (hlt : written < text.length) :
    (fields (String.ofList (text.drop written))).get? "op" = none := by
  have hrest : text.drop written <:+ full := (List.drop_suffix _ _).trans htext
  have hne : text.drop written ≠ full := by
    intro heq
    have hlength := congrArg List.length heq
    have hle := htext.length_le
    rw [List.length_drop] at hlength
    omega
  obtain ⟨op, rfl | rfl⟩ := hfull
  · refine get?_op_rest (equals_notMem_number op) ?_ hrest hne
    simp only [List.forall_mem_cons]
    exact ⟨by decide, by decide, ⟨by decide, by decide, equals_notMem_opKey op⟩,
      List.forall_mem_nil _⟩
  · refine get?_op_rest (equals_notMem_number op) ?_ hrest hne
    have hdurable : '=' ∉ (if w.durable op then "1" else "0").toList := by
      cases w.durable op <;> decide
    simp only [List.forall_mem_cons]
    exact ⟨by decide, by decide, ⟨by decide, by decide, equals_notMem_opKey op⟩,
      ⟨by decide, by decide, equals_notMem_digestOf _⟩, ⟨by decide, by decide, hdurable⟩,
      List.forall_mem_nil _⟩

/-- The markers that were recorded are those of the operations, and rests of them. -/
structure Marked (s : World w) : Prop where
  increasing : s.markers.Pairwise (·.index < ·.index)
  lt_clock : ∀ m ∈ s.markers, m.index < s.clock
  begun : ∀ op b, s.begunAt op = some b →
    ∃ m ∈ s.markers, m.index = b ∧ m.text = Workload.beginText op
  acked : ∀ op a, s.ackedAt op = some a →
    ∃ m ∈ s.markers, m.index = a ∧ m.text = w.ackText op
  others : ∀ m ∈ s.markers,
    (∃ op, s.begunAt op = some m.index ∧ m.text = Workload.beginText op) ∨
      (∃ op, s.ackedAt op = some m.index ∧ m.text = w.ackText op) ∨
      (fields m.text).get? "op" = none
  file : ∀ t text, s.file = some (t, text) → ∃ full, IsMarker w full ∧ text <:+ full

/-- One more marker. -/
lemma Marked.record (h : Marked s) {text : List Char}
    (hmarkers : s'.markers = s.markers ++ [⟨s.clock, w.tid t, String.ofList text⟩])
    (hclock : s'.clock = s.clock + 1) (hfile : s'.file = some (t, text))
    (hfull : ∃ full, IsMarker w full ∧ text <:+ full)
    (hbegun : ∀ op b, s.begunAt op = some b → s'.begunAt op = some b)
    (hacked : ∀ op a, s.ackedAt op = some a → s'.ackedAt op = some a)
    (hnewBegun : ∀ op b, s'.begunAt op = some b → s.begunAt op = some b ∨
      b = s.clock ∧ String.ofList text = Workload.beginText op)
    (hnewAcked : ∀ op a, s'.ackedAt op = some a → s.ackedAt op = some a ∨
      a = s.clock ∧ String.ofList text = w.ackText op)
    (hnew : (∃ op, s'.begunAt op = some s.clock ∧ String.ofList text = Workload.beginText op) ∨
      (∃ op, s'.ackedAt op = some s.clock ∧ String.ofList text = w.ackText op) ∨
      (fields (String.ofList text)).get? "op" = none) : Marked s' := by
  have hold : ∀ m ∈ s.markers, m ∈ s'.markers := fun m hm => by
    rw [hmarkers]
    exact List.mem_append_left _ hm
  have hlast : (⟨s.clock, w.tid t, String.ofList text⟩ : TraceMarker) ∈ s'.markers := by
    rw [hmarkers]
    exact List.mem_append_right _ (List.mem_singleton_self _)
  refine ⟨?_, fun m hm => ?_, fun op b hb => ?_, fun op a ha => ?_, fun m hm => ?_,
    fun t' text' hfile' => ?_⟩
  · rw [hmarkers, List.pairwise_append]
    refine ⟨h.increasing, List.pairwise_singleton _ _, fun m hm m' hm' => ?_⟩
    rw [List.mem_singleton.mp hm']
    exact h.lt_clock m hm
  · rw [hclock]
    rw [hmarkers, List.mem_append, List.mem_singleton] at hm
    rcases hm with hm | rfl
    · exact Nat.lt_succ_of_lt (h.lt_clock m hm)
    · exact Nat.lt_succ_self _
  · rcases hnewBegun op b hb with hb | ⟨rfl, htext⟩
    · obtain ⟨m, hm, hindex, htext⟩ := h.begun op b hb
      exact ⟨m, hold m hm, hindex, htext⟩
    · exact ⟨_, hlast, rfl, htext⟩
  · rcases hnewAcked op a ha with ha | ⟨rfl, htext⟩
    · obtain ⟨m, hm, hindex, htext⟩ := h.acked op a ha
      exact ⟨m, hold m hm, hindex, htext⟩
    · exact ⟨_, hlast, rfl, htext⟩
  · rw [hmarkers, List.mem_append, List.mem_singleton] at hm
    rcases hm with hm | rfl
    · rcases h.others m hm with ⟨op, hb, htext⟩ | ⟨op, ha, htext⟩ | hnone
      · exact .inl ⟨op, hbegun op _ hb, htext⟩
      · exact .inr (.inl ⟨op, hacked op _ ha, htext⟩)
      · exact .inr (.inr hnone)
    · exact hnew
  · rw [hfile, Option.some.injEq, Prod.mk.injEq] at hfile'
    rwa [← hfile'.2]

/-- **The markers after a step.** -/
lemma Marked.step (h : Marked s) (hstaged : Staged s) (hmove : s.Moves s') : Marked s' := by
  cases hmove with
  | call =>
      exact ⟨h.increasing, fun m hm => Nat.lt_succ_of_lt (h.lt_clock m hm), h.begun, h.acked,
        h.others, h.file⟩
  | markBegin t op hfile ht =>
      have hnone : s.begunAt op = none := by
        have hstage := hstaged.stage t
        rw [ht] at hstage
        have hfree : s.holder ≠ some t := by simp [holder, hfile]
        exact Option.eq_none_iff_forall_ne_some.mpr fun b hb => hfree (hstage.1.mp ⟨b, hb⟩)
      have hself : (s.markBegin t op).begunAt op = some s.clock := Function.update_self _ _ _
      have hothers : ∀ op' ≠ op, (s.markBegin t op).begunAt op' = s.begunAt op' := fun op' hne =>
        Function.update_of_ne hne _ _
      have htext : String.ofList (Workload.beginText op).toList = Workload.beginText op :=
        String.ofList_toList
      refine h.record rfl rfl rfl ⟨_, ⟨op, .inl rfl⟩, List.suffix_rfl⟩ (fun op' b hb => ?_)
        (fun _ _ ha => ha) (fun op' b hb => ?_) (fun _ _ ha => .inl ha)
        (.inl ⟨op, hself, htext⟩)
      · have hne : op' ≠ op := by
          rintro rfl
          rw [hnone] at hb
          cases hb
        rwa [hothers op' hne]
      · by_cases heq : op' = op
        · subst heq
          exact .inr ⟨(Option.some.inj (hself.symm.trans hb)).symm, htext⟩
        · exact .inl (hothers op' heq ▸ hb)
  | markAck t op hfile ht =>
      have hnone : s.ackedAt op = none := by
        have hstage := hstaged.stage t
        rw [ht] at hstage
        have hfree : s.holder ≠ some t := by simp [holder, hfile]
        exact Option.eq_none_iff_forall_ne_some.mpr fun a ha => hfree (hstage.2.mp ⟨a, ha⟩)
      have hself : (s.markAck t op).ackedAt op = some s.clock := Function.update_self _ _ _
      have hothers : ∀ op' ≠ op, (s.markAck t op).ackedAt op' = s.ackedAt op' := fun op' hne =>
        Function.update_of_ne hne _ _
      have htext : String.ofList (w.ackText op).toList = w.ackText op := String.ofList_toList
      refine h.record rfl rfl rfl ⟨_, ⟨op, .inr rfl⟩, List.suffix_rfl⟩ (fun _ _ hb => hb)
        (fun op' a ha => ?_) (fun _ _ hb => .inl hb) (fun op' a ha => ?_)
        (.inr (.inl ⟨op, hself, htext⟩))
      · have hne : op' ≠ op := by
          rintro rfl
          rw [hnone] at ha
          cases ha
        rwa [hothers op' hne]
      · by_cases heq : op' = op
        · subst heq
          exact .inr ⟨(Option.some.inj (hself.symm.trans ha)).symm, htext⟩
        · exact .inl (hothers op' heq ▸ ha)
  | markRest t text written hfile hwritten hlt =>
      obtain ⟨full, hfull, htext⟩ := h.file t text hfile
      exact h.record rfl rfl rfl ⟨full, hfull, (List.drop_suffix _ _).trans htext⟩
        (fun _ _ hb => hb) (fun _ _ ha => ha) (fun _ _ hb => .inl hb) (fun _ _ ha => .inl ha)
        (.inr (.inr (get?_op_drop hfull htext hwritten hlt)))
  | releaseBegin | releaseAck =>
      exact ⟨h.increasing, h.lt_clock, h.begun, h.acked, h.others, fun _ _ hfile => by cases hfile⟩
  | take | beginWrite | commit | fail =>
      exact ⟨h.increasing, h.lt_clock, h.begun, h.acked, h.others, h.file⟩

/-! ### Runs -/

/-- What holds after every run. -/
structure Inv (s : World w) : Prop where
  numbered : Numbered s
  staged : Staged s
  marked : Marked s

lemma numbered_start (w : Workload) : Numbered (start w) where
  pos := le_rfl
  held := fun _ _ h => by cases h
  apart := fun _ _ _ h => by cases h
  beyond := fun _ h => by cases h
  next_le := by
    simp only [start]
    omega

lemma staged_start (w : Workload) : Staged (start w) where
  stage := fun _ => trivial
  holding := fun _ h => by cases h
  begun := fun _ _ h => by cases h
  committed := fun _ _ h => by cases h
  acked := fun _ _ h => by cases h
  covered := fun op hpos _ hlt => by
    simp only [start] at hlt
    omega

lemma marked_start (w : Workload) : Marked (start w) where
  increasing := List.Pairwise.nil
  lt_clock := fun _ h => by cases h
  begun := fun _ _ h => by cases h
  acked := fun _ _ h => by cases h
  others := fun _ h => by cases h
  file := fun _ _ h => by cases h

/-- **Every run** keeps the invariant. -/
lemma Inv.run (hsmall : w.operations + w.threads + 1 < 2 ^ 64)
    {steps : List (WorkloadStep w.threads)} (h : run w steps = some s) : Inv s :=
  run_induct ⟨numbered_start w, staged_start w, marked_start w⟩
    (fun _ _ hs hmove => ⟨hs.numbered.step hsmall hmove,
      hs.staged.step hs.numbered hsmall hmove, hs.marked.step hs.staged hmove⟩) h

lemma solid_put : Solid "put" := by decide

/-- The operation with its markers, when its number is read as itself. -/
def logged (s : World w) (op : ℕ) : Option Logged :=
  if h : op ≤ 2 ^ 53 then
    (s.begunAt op).map fun b =>
      { id := op
        kind := "put"
        key := opKey op
        beganAt := b
        ack := (s.ackedAt op).map fun a =>
          ⟨a, digestOf (w.value op), w.durable op, solid_digestOf _⟩
        kind_solid := solid_put
        key_solid := solid_opKey op
        number := op
        number_eq := toNumber_toString_of_natAbs_le (by simpa using h) }
  else none

/-- The operations that began. -/
def loggedOps (s : World w) : List Logged := (List.range' 1 w.operations).filterMap s.logged

/-- What the log should say of an operation. -/
def recordOf (s : World w) (op : ℕ) : Option AckedOperation :=
  (s.begunAt op).map fun b =>
    { op := op
      kind := "put"
      key := opKey op
      digest := if (s.ackedAt op).isSome then digestOf (w.value op) else ""
      beganAt := b
      acknowledgedAt := s.ackedAt op
      durable := (s.ackedAt op).isSome && w.durable op }

/-- What it should say of all. -/
def records (s : World w) : List AckedOperation :=
  (List.range' 1 w.operations).filterMap s.recordOf

lemma logged_eq_some_iff {o : Logged} : s.logged op = some o ↔ op ≤ 2 ^ 53 ∧
    ∃ h b, s.begunAt op = some b ∧ o = ⟨op, "put", opKey op, b,
      (s.ackedAt op).map fun a => ⟨a, digestOf (w.value op), w.durable op, solid_digestOf _⟩,
      solid_put, solid_opKey op, op, h⟩ := by
  rw [logged]
  split
  · next hle =>
      rw [Option.map_eq_some_iff]
      constructor
      · rintro ⟨b, hb, rfl⟩
        exact ⟨hle, _, b, hb, rfl⟩
      · rintro ⟨-, _, b, hb, rfl⟩
        exact ⟨b, hb, rfl⟩
  · next hgt => exact iff_of_false (by simp) fun h => hgt h.1

lemma map_record_logged (hle : op ≤ 2 ^ 53) : (s.logged op).map Logged.record = s.recordOf op := by
  rw [logged, dif_pos hle, recordOf, Option.map_map]
  congr 1
  funext b
  cases hack : s.ackedAt op with
  | none => simp [Logged.record, Logged.begun]
  | some a => simp [Logged.record, Logged.acked]

lemma mem_loggedOps {o : Logged} : o ∈ s.loggedOps ↔
    ∃ op, 1 ≤ op ∧ op ≤ w.operations ∧ s.logged op = some o := by
  simp only [loggedOps, List.mem_filterMap, List.mem_range'_1]
  refine exists_congr fun op => ⟨fun ⟨⟨hpos, hlt⟩, ho⟩ => ⟨hpos, by omega, ho⟩,
    fun ⟨hpos, hle, ho⟩ => ⟨⟨hpos, by omega⟩, ho⟩⟩

/-- The numbers of the operations differ. -/
lemma nodup_number_loggedOps (s : World w) : (s.loggedOps.map (·.number)).Nodup := by
  refine Logged.nodup_number ?_ fun o ho => ?_
  · have hids : s.loggedOps.map (·.id) =
        (List.range' 1 w.operations).filterMap fun op => (s.logged op).map (·.id) := by
      rw [loggedOps, List.map_filterMap]
    rw [hids]
    refine (List.nodup_range').filterMap fun op op' x hx hx' => ?_
    obtain ⟨o, ho, rfl⟩ := Option.map_eq_some_iff.mp hx
    obtain ⟨o', ho', hid⟩ := Option.map_eq_some_iff.mp hx'
    obtain ⟨-, _, b, -, rfl⟩ := logged_eq_some_iff.mp ho
    obtain ⟨-, _, b', -, rfl⟩ := logged_eq_some_iff.mp ho'
    exact Nat.cast_injective (R := ℤ) hid.symm
  · obtain ⟨op, -, -, hlogged⟩ := mem_loggedOps.mp ho
    obtain ⟨hle, _, b, -, rfl⟩ := logged_eq_some_iff.mp hlogged
    simpa using hle

/-- The markers of a run are those of its operations, interleaved. -/
lemma Inv.interleaved (h : Inv s) (hops : w.operations ≤ 2 ^ 53) :
    Interleaved s.loggedOps 0 s.markers where
  increasing := h.marked.increasing
  from_stamp := fun _ _ => Nat.zero_le _
  begun := fun o ho _ => by
    obtain ⟨op, -, -, ho⟩ := mem_loggedOps.mp ho
    obtain ⟨-, _, b, hb, rfl⟩ := logged_eq_some_iff.mp ho
    exact h.marked.begun op b hb
  acked := fun o ho a ha => by
    obtain ⟨op, -, -, ho⟩ := mem_loggedOps.mp ho
    obtain ⟨-, _, b, hb, rfl⟩ := logged_eq_some_iff.mp ho
    obtain ⟨stamp, hstamp, rfl⟩ := Option.map_eq_some_iff.mp ha
    obtain ⟨-, c, hc, hle⟩ := h.staged.acked op stamp hstamp
    obtain ⟨-, b', hb', hlt⟩ := h.staged.committed op c hc
    obtain rfl := Option.some.inj (hb.symm.trans hb')
    exact ⟨Nat.lt_of_lt_of_le hlt hle, fun _ => h.marked.acked op stamp hstamp⟩
  others := fun m hm => by
    have hlogged : ∀ op b, s.begunAt op = some b → ∃ o ∈ s.loggedOps, s.logged op = some o := by
      intro op b hb
      obtain ⟨-, hpos, hle, -⟩ := h.staged.begun op b hb
      have hsmall : op ≤ 2 ^ 53 := hle.trans hops
      have hsome : ∃ o, s.logged op = some o := by
        rw [logged, dif_pos hsmall, hb]
        exact ⟨_, rfl⟩
      obtain ⟨o, ho⟩ := hsome
      exact ⟨o, mem_loggedOps.mpr ⟨op, hpos, hle, ho⟩, ho⟩
    rcases h.marked.others m hm with ⟨op, hb, htext⟩ | ⟨op, ha, htext⟩ | hnone
    · obtain ⟨o, hmem, ho⟩ := hlogged op _ hb
      obtain ⟨-, _, b, hb', rfl⟩ := logged_eq_some_iff.mp ho
      exact .inl ⟨_, hmem, Option.some.inj (hb.symm.trans hb'), htext⟩
    · obtain ⟨-, c, hc, -⟩ := h.staged.acked op _ ha
      obtain ⟨-, b, hb, -⟩ := h.staged.committed op c hc
      obtain ⟨o, hmem, ho⟩ := hlogged op _ hb
      obtain ⟨-, _, b', -, rfl⟩ := logged_eq_some_iff.mp ho
      refine .inr (.inl ⟨_, hmem, ⟨m.index, digestOf (w.value op), w.durable op,
        solid_digestOf _⟩, ?_, rfl, htext⟩)
      rw [ha, Option.map_some]
    · exact .inr (.inr hnone)

/-- The log of a trace with these markers. -/
lemma Inv.parseAckLog_perm (h : Inv s) (hops : w.operations ≤ 2 ^ 53) {trace : Trace}
    (htrace : trace.markers = s.markers) : (parseAckLog trace).Perm s.records := by
  have hrecords : s.loggedOps.map Logged.record = s.records := by
    rw [loggedOps, records, List.map_filterMap]
    refine List.filterMap_congr fun op hop => map_record_logged ?_
    have hrange := List.mem_range'_1.mp hop
    omega
  rw [← hrecords]
  exact Interleaved.parseAckLog_perm (htrace ▸ h.interleaved hops) (nodup_number_loggedOps s)

/-- **What a workload acknowledges**, in whatever order its writers move and
wherever they fail. The acknowledgement log of its trace has one record for each
operation that began, in the order in which they began. An operation that was acknowledged
was committed before, and when all writers are done every operation was. -/
theorem run_ackLog {steps : List (WorkloadStep w.threads)} {trace : Trace}
    (hops : w.operations ≤ 2 ^ 53) (hthreads : w.threads < 2 ^ 63)
    (hrun : run w steps = some s) (htrace : trace.markers = s.markers) :
    (parseAckLog trace).Perm s.records ∧
      (parseAckLog trace).Pairwise (·.beganAt < ·.beganAt) ∧
      (∀ op a, s.ackedAt op = some a → ∃ b c, s.begunAt op = some b ∧
        s.committedAt op = some c ∧ b < c ∧ c ≤ a) ∧
      ((∀ t, s.threads t = .done) →
        ∀ op, 1 ≤ op → op ≤ w.operations → ∃ a, s.ackedAt op = some a) := by
  have hinv : Inv s := Inv.run (by omega) hrun
  have hordered := Interleaved.pairwise_parseAckLog (htrace ▸ hinv.interleaved hops)
    (nodup_number_loggedOps s)
  refine ⟨hinv.parseAckLog_perm hops htrace, hordered, fun op a ha => ?_,
    fun hdone op hpos hle => ?_⟩
  · obtain ⟨-, c, hc, hca⟩ := hinv.staged.acked op a ha
    obtain ⟨-, b, hb, hbc⟩ := hinv.staged.committed op c hc
    exact ⟨b, c, hb, hc, hbc, hca⟩
  · have hlast := hinv.numbered.beyond ⟨0, w.threads_pos⟩ (hdone _)
    rcases hinv.staged.covered op hpos hle (by omega) with ⟨t, ht⟩ | hacked
    · rw [hdone t] at ht
      cases ht
    · exact hacked

/-- Two puts by four writers. -/
def crossingPuts : Workload := redbWorkload (shapeFor "concurrent") 2 fun t => t

/-- The second put begins first and is acknowledged last, and its first marker is
written short. -/
def crossingSteps : List (WorkloadStep crossingPuts.threads) :=
  let first : Fin crossingPuts.threads := ⟨0, by decide⟩
  let second : Fin crossingPuts.threads := ⟨1, by decide⟩
  [.take first, .take second, .take ⟨2, by decide⟩, .take ⟨3, by decide⟩, .mark second,
    .markRest second 1, .release second, .mark first, .release first, .beginWrite first, .call,
    .commit first, .beginWrite second, .mark first, .release first, .call, .commit second,
    .mark second, .release second, .take first, .take second]

lemma exists_run {steps : List (WorkloadStep w.threads)} {P : World w → Prop} [DecidablePred P]
    (h : ((run w steps).any fun s => decide (P s)) = true) : ∃ s, run w steps = some s ∧ P s := by
  obtain ⟨s, hs, hP⟩ := (Option.any_eq_true _ _).mp h
  exact ⟨s, hs, of_decide_eq_true hP⟩

/-- What they acknowledge. -/
theorem crossingPuts_acknowledged : ∃ s, run crossingPuts crossingSteps = some s ∧
    (∀ t, s.threads t = .done) ∧
    (∀ trace : Trace, trace.markers = s.markers → (parseAckLog trace).Perm s.records ∧
      (parseAckLog trace).Pairwise (·.beganAt < ·.beganAt)) ∧
    ∀ op, 1 ≤ op → op ≤ 2 → ∃ a, s.ackedAt op = some a := by
  obtain ⟨s, hs, hdone⟩ : ∃ s, run crossingPuts crossingSteps = some s ∧
      ∀ t, s.threads t = .done := exists_run (by decide +kernel)
  have hlog := fun trace htrace =>
    @run_ackLog _ _ _ trace (by decide) (by decide) hs htrace
  exact ⟨s, hs, hdone, fun trace htrace => ⟨(hlog trace htrace).1, (hlog trace htrace).2.1⟩,
    (hlog ⟨⟨1, 7⟩, [], s.markers⟩ rfl).2.2.2 hdone⟩

end CrashFuzz.World
