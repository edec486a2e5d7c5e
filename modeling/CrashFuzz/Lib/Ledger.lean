import Mathlib.Data.List.Basic
import Mathlib.Data.List.Nodup
import Mathlib.Logic.Function.Basic

/-!
Numbers drawn from one counter.

* `Ledger`: a counter, what its holders have drawn and not yet put on record,
  and the record. No number is in two places, and each holder has its numbers in
  the order in which they were drawn.
* `Ledger.draw`, `Ledger.drop`, `Ledger.record`: a holder draws a number, some
  holders lose theirs, a holder puts its numbers on record.
-/

namespace CrashFuzz

variable {ι : Type*}

/-- A counter, its holders and the record. -/
structure Ledger (ι : Type*) where
  /-- The next number. -/
  next : ℕ
  held : ι → List ℕ
  recorded : List ℕ
  sorted : ∀ who, (held who).Pairwise (· < ·)
  held_lt : ∀ who, ∀ k ∈ held who, k < next
  unshared : ∀ who who' k, k ∈ held who → k ∈ held who' → who = who'
  nodup : recorded.Nodup
  recorded_lt : ∀ k ∈ recorded, k < next
  unrecorded : ∀ who, ∀ k ∈ held who, k ∉ recorded

namespace Ledger

/-- Nothing is drawn yet. -/
def empty : Ledger ι where
  next := 0
  held _ := []
  recorded := []
  sorted _ := List.Pairwise.nil
  held_lt _ := List.forall_mem_nil _
  unshared _ _ _ hk := absurd hk List.not_mem_nil
  nodup := List.nodup_nil
  recorded_lt := List.forall_mem_nil _
  unrecorded _ := List.forall_mem_nil _

variable (l : Ledger ι)

section Draw

variable [DecidableEq ι]

/-- A number that is held after a draw was held before, or is the one drawn. -/
lemma mem_update_draw {who who' : ι} {k : ℕ}
    (hk : k ∈ Function.update l.held who (l.held who ++ [l.next]) who') :
    k ∈ l.held who' ∨ (who' = who ∧ k = l.next) := by
  rcases eq_or_ne who' who with rfl | hne
  · rw [Function.update_self, List.mem_append, List.mem_singleton] at hk
    exact hk.imp_right fun h => ⟨rfl, h⟩
  · rw [Function.update_of_ne hne] at hk
    exact .inl hk

/-- A holder draws the next number. -/
def draw (who : ι) : Ledger ι where
  next := l.next + 1
  held := Function.update l.held who (l.held who ++ [l.next])
  recorded := l.recorded
  sorted := by
    intro who'
    rcases eq_or_ne who' who with rfl | hne
    · rw [Function.update_self]
      refine List.pairwise_append.mpr ⟨l.sorted who', List.pairwise_singleton _ _, ?_⟩
      intro k hk k' hk'
      rw [List.mem_singleton.mp hk']
      exact l.held_lt who' k hk
    · rw [Function.update_of_ne hne]
      exact l.sorted who'
  held_lt := by
    intro who' k hk
    rcases l.mem_update_draw hk with hk | ⟨-, rfl⟩
    · exact Nat.lt_succ_of_lt (l.held_lt who' k hk)
    · exact Nat.lt_succ_self _
  unshared := by
    intro a b k ha hb
    rcases l.mem_update_draw ha with hka | ⟨rfl, hka⟩ <;>
      rcases l.mem_update_draw hb with hkb | ⟨rfl, hkb⟩
    · exact l.unshared a b k hka hkb
    -- the number drawn is not one that was held
    · exact absurd (l.held_lt a k hka) (by omega)
    · exact absurd (l.held_lt b k hkb) (by omega)
    · rfl
  nodup := l.nodup
  recorded_lt k hk := Nat.lt_succ_of_lt (l.recorded_lt k hk)
  unrecorded := by
    intro who' k hk hrecorded
    rcases l.mem_update_draw hk with hk | ⟨-, rfl⟩
    · exact l.unrecorded who' k hk hrecorded
    · exact Nat.lt_irrefl _ (l.recorded_lt _ hrecorded)

end Draw

/-- Some holders lose what they hold. -/
def drop (gone : ι → Prop) [DecidablePred gone] : Ledger ι where
  next := l.next
  held who := if gone who then [] else l.held who
  recorded := l.recorded
  sorted := by
    intro who
    split
    · exact List.Pairwise.nil
    · exact l.sorted who
  held_lt := by
    intro who k hk
    split at hk
    · exact absurd hk List.not_mem_nil
    · exact l.held_lt who k hk
  unshared := by
    intro a b k ha hb
    split at ha
    · exact absurd ha List.not_mem_nil
    · split at hb
      · exact absurd hb List.not_mem_nil
      · exact l.unshared a b k ha hb
  nodup := l.nodup
  recorded_lt := l.recorded_lt
  unrecorded := by
    intro who k hk
    split at hk
    · exact absurd hk List.not_mem_nil
    · exact l.unrecorded who k hk

/-- A holder puts its numbers on record. -/
def record [DecidableEq ι] (who : ι) : Ledger ι where
  next := l.next
  held := (l.drop (· = who)).held
  recorded := l.recorded ++ l.held who
  sorted := (l.drop (· = who)).sorted
  held_lt := (l.drop (· = who)).held_lt
  unshared := (l.drop (· = who)).unshared
  nodup :=
    List.Nodup.append l.nodup ((l.sorted who).imp Nat.ne_of_lt)
      fun k hk hheld => l.unrecorded who k hheld hk
  recorded_lt := by
    intro k hk
    rcases List.mem_append.mp hk with hk | hk
    · exact l.recorded_lt k hk
    · exact l.held_lt who k hk
  unrecorded := by
    intro who' k hk hrecorded
    have hkept : who' ≠ who ∧ k ∈ l.held who' := by
      by_cases hgone : who' = who
      · simp [drop, hgone] at hk
      · exact ⟨hgone, by simpa [drop, hgone] using hk⟩
    rcases List.mem_append.mp hrecorded with h | h
    · exact l.unrecorded who' k hkept.2 h
    · exact hkept.1 (l.unshared who' who k hkept.2 h)

end Ledger

end CrashFuzz
