import Mathlib.Tactic

/-!
Runs of a step that may be refused: a list of steps, each taken in the state
that the one before it left.

* `cons_eq_some`: the first step of a run, and the rest of it.
* `induct`: what every step preserves holds at the end of a run. The steps may
  be taken under a condition that passes from a run to the rest of it.
* `invariant`: the same without a condition.
* `exists_step_of_mem`: a run is cut at a step it takes.
* `fill_eq`: a loop that fills a table from its earlier entries.
-/

namespace Runs

variable {σ α : Type} {step : σ → α → Option σ} {s s' : σ} {a : α} {steps : List α}

lemma cons_eq_some : (a :: steps).foldlM step s = some s' ↔
    ∃ m, step s a = some m ∧ steps.foldlM step m = some s' := by
  rw [List.foldlM_cons, Option.bind_eq_bind, Option.bind_eq_some_iff]

/-- **The run lemma**, by induction on the steps: `guard` is what is known of the
steps that are left, in the state where they are taken. -/
theorem induct {P : σ → Prop} (guard : σ → List α → Prop)
    (hstep : ∀ s a steps m, P s → guard s (a :: steps) → step s a = some m →
      P m ∧ guard m steps)
    (h : P s) (hguard : guard s steps) (hrun : steps.foldlM step s = some s') : P s' := by
  induction steps generalizing s with
  | nil =>
      obtain rfl : s = s' := Option.some.inj hrun
      exact h
  | cons a steps ih =>
      obtain ⟨m, hm, hrest⟩ := cons_eq_some.mp hrun
      obtain ⟨hnext, hguard'⟩ := hstep s a steps m h hguard hm
      exact ih hnext hguard' hrest

/-- An invariant of every step. -/
theorem invariant {P : σ → Prop} (hstep : ∀ s a m, P s → step s a = some m → P m) (h : P s)
    (hrun : steps.foldlM step s = some s') : P s' := by
  have hguarded : ∀ s a (steps : List α) m, P s → True → step s a = some m → P m ∧ True :=
    fun s a _ m hs _ hm => ⟨hstep s a m hs hm, trivial⟩
  exact induct (fun _ _ => True) hguarded h trivial hrun

/-- A run is cut at a step it takes. -/
lemma exists_step_of_mem (ha : a ∈ steps) (hrun : steps.foldlM step s = some s') :
    ∃ before m m' after, steps = before ++ a :: after ∧ before.foldlM step s = some m ∧
      step m a = some m' ∧ after.foldlM step m' = some s' := by
  obtain ⟨before, after, rfl⟩ := List.append_of_mem ha
  rw [List.foldlM_append, Option.bind_eq_bind, Option.bind_eq_some_iff] at hrun
  obtain ⟨m, hbefore, hrest⟩ := hrun
  obtain ⟨m', hm, hafter⟩ := cons_eq_some.mp hrest
  exact ⟨before, m, m', after, rfl, hbefore, hm, hafter⟩

/-- **A loop that fills a table** from `start` on, each entry from the earlier
ones, leaves what the entries are meant to be. -/
lemma fill_eq {size : ℕ} {entry : Vector α size → ℕ → α} {meant : ℕ → α} {n : ℕ} {start : ℕ}
    {table : Vector α size} (hsize : start + n ≤ size)
    (htable : ∀ t < start, table[t]? = some (meant t))
    (hentry : ∀ i, start ≤ i → i < start + n → ∀ table' : Vector α size,
      (∀ t < i, table'[t]? = some (meant t)) → entry table' i = meant i) :
    ∀ t < start + n, ((List.range' start n).foldl
      (fun table i => table.set! i (entry table i)) table)[t]? = some (meant t) := by
  induction n generalizing start table with
  | zero => simpa using htable
  | succ n ih =>
      have hfirst : entry table start = meant start :=
        hentry start le_rfl (by omega) table htable
      rw [List.range'_succ, List.foldl_cons, hfirst, show start + (n + 1) = start + 1 + n by omega]
      refine ih (by omega) (fun t ht => ?_) fun i hi hi' => hentry i (by omega) (by omega)
      rcases Nat.lt_succ_iff_lt_or_eq.mp ht with hlt | rfl
      · rw [Vector.getElem?_set!_ne hlt.ne', htable t hlt]
      · exact Vector.getElem?_set!_self_of_lt (by omega)

end Runs
