import Mathlib.Data.Set.Insert
import Mathlib.Logic.Relation
import Mathlib.Tactic

/-!
A device with a volatile cache, over the positions of a log of calls.

* `Device`: which calls write, which wait for earlier ones, over what a write may
  reach the medium, and what a crash may leave of one that is on its way.
* `Device.Step`: a call returns once what it waits for is durable; meanwhile
  cached writes reach the medium in any order the device permits.
* `Device.reachable_iff`: what is durable in some run, without the runs.
* `Device.Crash`, `Device.crash_iff`: what a crash leaves.
* `Device.Le.crash`: a device that permits more leaves more.
-/

namespace Writeback

variable {β : Type}

/-- A device with a volatile cache, and parts of type `β` of a write. -/
structure Device (β : Type) where
  /-- The call at `i` writes. -/
  Writes : ℕ → Prop
  /-- The call at `f` returns once the one at `i` is durable. -/
  Waits : ℕ → ℕ → Prop
  /-- The write at `i` may reach a medium that holds the others. -/
  Ready : Set ℕ → ℕ → Prop
  /-- A crash may leave this part of the write at `i`. -/
  Part : ℕ → β → Prop
  waits_lt {f i : ℕ} : Waits f i → i < f
  ready_mono {D E : Set ℕ} {i : ℕ} : D ⊆ E → Ready D i → Ready E i
  /-- Only what was issued earlier matters. -/
  ready_before {D : Set ℕ} {i : ℕ} : Ready D i → Ready (D ∩ {j | j < i}) i

/-- The calls that were issued, and the writes on the medium. -/
structure Disk where
  clock : ℕ
  durable : Set ℕ

namespace Device

variable (d e : Device β)

/-- A call returns, or a write leaves the cache. -/
inductive Step : Disk → Disk → Prop
  | issue {n : ℕ} {D : Set ℕ} (h : ∀ i, d.Waits n i → i ∈ D) : Step ⟨n, D⟩ ⟨n + 1, D⟩
  | flush {n : ℕ} {D : Set ℕ} {i : ℕ} (hlt : i < n) (hwrites : d.Writes i)
      (hready : d.Ready D i) : Step ⟨n, D⟩ ⟨n, insert i D⟩

/-- What runs reach from the empty medium. -/
def Reachable (disk : Disk) : Prop := Relation.ReflTransGen d.Step ⟨0, ∅⟩ disk

/-- What holds of a disk in every run. -/
structure Consistent (disk : Disk) : Prop where
  issued : ∀ i ∈ disk.durable, i < disk.clock ∧ d.Writes i
  ready : ∀ i ∈ disk.durable, d.Ready disk.durable i
  waited : ∀ f < disk.clock, ∀ i, d.Waits f i → i ∈ disk.durable

variable {d e} {disk disk' : Disk} {n : ℕ} {D : Set ℕ}

lemma consistent_empty : d.Consistent ⟨0, ∅⟩ :=
  ⟨fun _ h => h.elim, fun _ h => h.elim, fun _ h => absurd h (Nat.not_lt_zero _)⟩

/-- One step keeps it. -/
lemma Consistent.step (h : d.Consistent disk) (hstep : d.Step disk disk') :
    d.Consistent disk' := by
  cases hstep with
  | issue hwaits =>
      refine ⟨fun i hi => ⟨(h.issued i hi).1.trans (Nat.lt_succ_self _), (h.issued i hi).2⟩,
        h.ready, fun f hf i hi => ?_⟩
      rcases Nat.lt_succ_iff_lt_or_eq.mp hf with hlt | rfl
      · exact h.waited f hlt i hi
      · exact hwaits i hi
  | flush hlt hwrites hready =>
      refine ⟨?_, ?_, fun f hf i hi => Set.mem_insert_of_mem _ (h.waited f hf i hi)⟩
      · rintro j (rfl | hj)
        · exact ⟨hlt, hwrites⟩
        · exact h.issued j hj
      · rintro j (rfl | hj)
        · exact d.ready_mono (Set.subset_insert _ _) hready
        · exact d.ready_mono (Set.subset_insert _ _) (h.ready j hj)

/-- So does every run. -/
lemma Reachable.consistent (h : d.Reachable disk) : d.Consistent disk := by
  induction h with
  | refl => exact consistent_empty
  | tail _ hstep ih => exact ih.step hstep

/-- A run that writes back at once reaches what was durable of each part of the log. -/
lemma Consistent.reachable_upTo (h : d.Consistent ⟨n, D⟩) {m : ℕ} (hm : m ≤ n) :
    d.Reachable ⟨m, D ∩ {i | i < m}⟩ := by
  induction m with
  | zero =>
      have hnone : D ∩ {i | i < 0} = ∅ := by simp
      rw [hnone]
      exact .refl
  | succ m ih =>
      have hwaits : ∀ i, d.Waits m i → i ∈ D ∩ {i | i < m} := fun i hi =>
        ⟨h.waited m hm i hi, d.waits_lt hi⟩
      have hissued := (ih (by omega)).tail (.issue hwaits)
      by_cases hmem : m ∈ D
      · have hinsert : D ∩ {i | i < m + 1} = insert m (D ∩ {i | i < m}) := by
          ext i
          simp only [Set.mem_inter_iff, Set.mem_ofPred_eq, Set.mem_insert_iff]
          constructor
          · rintro ⟨hi, hlt⟩
            rcases Nat.lt_succ_iff_lt_or_eq.mp hlt with hlt | rfl
            · exact Or.inr ⟨hi, hlt⟩
            · exact Or.inl rfl
          · rintro (rfl | ⟨hi, hlt⟩)
            · exact ⟨hmem, Nat.lt_succ_self _⟩
            · exact ⟨hi, hlt.trans (Nat.lt_succ_self _)⟩
        rw [hinsert]
        exact hissued.tail (.flush (Nat.lt_succ_self m) (h.issued m hmem).2
          (d.ready_before (h.ready m hmem)))
      · have hsame : D ∩ {i | i < m + 1} = D ∩ {i | i < m} := by
          ext i
          refine and_congr_right fun hi => ?_
          have hne : i ≠ m := fun heq => hmem (heq ▸ hi)
          simp only [Set.mem_ofPred_eq]
          omega
        rwa [hsame]

/-- **What is durable** in some run. -/
theorem reachable_iff : d.Reachable disk ↔ d.Consistent disk := by
  refine ⟨Reachable.consistent, fun h => ?_⟩
  have hall : disk.durable ∩ {i | i < disk.clock} = disk.durable :=
    Set.inter_eq_left.mpr fun i hi => (h.issued i hi).1
  have hreached := h.reachable_upTo le_rfl
  rwa [hall] at hreached

/-! ### What a crash leaves -/

variable (d) in
/-- A crash after `n` calls leaves the writes of `D`, and of the one on its way a
part. -/
structure Crash (n : ℕ) (D : Set ℕ) (torn : Option (ℕ × β)) : Prop where
  reachable : d.Reachable ⟨n, D⟩
  torn : ∀ t ∈ torn, t.1 < n ∧ d.Writes t.1 ∧ t.1 ∉ D ∧ d.Ready D t.1 ∧ d.Part t.1 t.2

lemma crash_iff {torn : Option (ℕ × β)} : d.Crash n D torn ↔ d.Consistent ⟨n, D⟩ ∧
    ∀ t ∈ torn, t.1 < n ∧ d.Writes t.1 ∧ t.1 ∉ D ∧ d.Ready D t.1 ∧ d.Part t.1 t.2 :=
  ⟨fun h => ⟨h.reachable.consistent, h.torn⟩, fun h => ⟨reachable_iff.mpr h.1, h.2⟩⟩

variable (d e) in
/-- Device `e` does what `d` does. -/
structure Le : Prop where
  writes : ∀ i, d.Writes i → e.Writes i
  waits : ∀ f i, e.Waits f i → d.Waits f i
  ready : ∀ D i, d.Ready D i → e.Ready D i
  part : ∀ i b, d.Part i b → e.Part i b

/-- Each step of `d` is one of `e`. -/
lemma Le.step (h : d.Le e) (hstep : d.Step disk disk') : e.Step disk disk' := by
  cases hstep with
  | issue hwaits => exact .issue fun i hi => hwaits i (h.waits _ i hi)
  | flush hlt hwrites hready => exact .flush hlt (h.writes _ hwrites) (h.ready _ _ hready)

/-- **What `d` leaves** after a crash, `e` leaves too. -/
theorem Le.crash (h : d.Le e) {torn : Option (ℕ × β)} (hcrash : d.Crash n D torn) :
    e.Crash n D torn := by
  refine ⟨Relation.ReflTransGen.mono (fun _ _ => h.step) _ _ hcrash.reachable, fun t ht => ?_⟩
  obtain ⟨hlt, hwrites, hnot, hready, hpart⟩ := hcrash.torn t ht
  exact ⟨hlt, h.writes _ hwrites, hnot, h.ready _ _ hready, h.part _ _ hpart⟩

end Device

end Writeback
