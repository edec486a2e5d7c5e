import Mathlib.Tactic

/-!
Programs with a state that may throw (`EStateM`), as scripts are: what holds
when one ends, whether it returns or throws.

* `outcome`, `Ends`: how a program ends, and a condition on it.
* `Then`: a condition for each of the two.
* `ends_bind`, `ends_finally`: the rules of a sequence and of a `finally`, whose
  own error counts more than the one before it.
* `ends_foldlM`: the rule of a loop, by an invariant of the elements done.
-/

namespace Effects

variable {ε σ α β : Type} {x : EStateM ε σ α} {s : σ}

/-- How a program ends: with a value or an error, and in a state. -/
def outcome (x : EStateM ε σ α) (s : σ) : Except ε α × σ :=
  match x s with
  | .ok a s' => (.ok a, s')
  | .error e s' => (.error e, s')

/-- A condition holds when a program ends. -/
def Ends (x : EStateM ε σ α) (s : σ) (P : Except ε α → σ → Prop) : Prop :=
  P (outcome x s).1 (outcome x s).2

/-- One condition if a program returned, another if it threw. -/
def Then (next : α → σ → Prop) (fails : ε → σ → Prop) : Except ε α → σ → Prop
  | .ok a, s => next a s
  | .error e, s => fails e s

variable {P Q : Except ε α → σ → Prop} {R : Except ε β → σ → Prop} {next : α → σ → Prop}
  {fails : ε → σ → Prop}

@[simp] lemma then_ok {a : α} : Then next fails (.ok a) s ↔ next a s := Iff.rfl

@[simp] lemma then_error {e : ε} : Then next fails (.error e : Except ε α) s ↔ fails e s := Iff.rfl

lemma ends_of_ok {a : α} {s' : σ} (h : x s = .ok a s') : Ends x s P ↔ P (.ok a) s' := by
  rw [Ends, outcome, h]

lemma ends_of_error {e : ε} {s' : σ} (h : x s = .error e s') : Ends x s P ↔ P (.error e) s' := by
  rw [Ends, outcome, h]

lemma Ends.imp (h : Ends x s P) (himp : ∀ r s', P r s' → Q r s') : Ends x s Q := himp _ _ h

lemma ends_pure {a : α} : Ends (pure a) s P ↔ P (.ok a) s := Iff.rfl

/-- A computation that only returns or throws. -/
lemma ends_ofExcept {r : Except ε α} :
    Ends (MonadExcept.ofExcept r : EStateM ε σ α) s P ↔ P r s := by
  cases r <;> exact Iff.rfl

/-- **A sequence.** -/
lemma ends_bind {f : α → EStateM ε σ β} :
    Ends (x >>= f) s R ↔ Ends x s (Then (fun a s' => Ends (f a) s' R) fun e => R (.error e)) := by
  cases h : x s with
  | ok a s' =>
      have hbind : (x >>= f) s = f a s' := by
        change EStateM.bind x f s = f a s'
        rw [EStateM.bind, h]
      rw [ends_of_ok h, then_ok, Ends, Ends, outcome, outcome, hbind]
  | error e s' =>
      have hbind : (x >>= f) s = .error e s' := by
        change EStateM.bind x f s = .error e s'
        rw [EStateM.bind, h]
      rw [ends_of_error h, then_error, ends_of_error hbind]

/-- **A `finally`**: it runs however the program ended, and an error of its own
is the one that is thrown. -/
lemma ends_finally {y : EStateM ε σ β} : Ends (tryFinally x y) s P ↔
    Ends x s fun r s' => Ends y s' (Then (fun _ => P r) fun e => P (.error e)) := by
  have hmap : tryFinally x y = tryFinally' x (fun _ => y) >>= fun r => pure r.1 := rfl
  rw [hmap, ends_bind]
  cases h : x s with
  | ok a s' =>
      rw [ends_of_ok h]
      cases h' : y s' with
      | ok b s'' =>
          have hfinally : tryFinally' x (fun _ => y) s = .ok (a, b) s'' := by
            simp only [tryFinally', h, h']
          rw [ends_of_ok hfinally, ends_of_ok h', then_ok, then_ok, ends_pure]
      | error e s'' =>
          have hfinally : tryFinally' x (fun _ => y) s = .error e s'' := by
            simp only [tryFinally', h, h']
          rw [ends_of_error hfinally, ends_of_error h', then_error, then_error]
  | error e s' =>
      rw [ends_of_error h]
      cases h' : y s' with
      | ok b s'' =>
          have hfinally : tryFinally' x (fun _ => y) s = .error e s'' := by
            simp only [tryFinally', h, h']
          rw [ends_of_error hfinally, ends_of_ok h', then_error, then_ok]
      | error e' s'' =>
          have hfinally : tryFinally' x (fun _ => y) s = .error e' s'' := by
            simp only [tryFinally', h, h']
          rw [ends_of_error hfinally, ends_of_error h', then_error, then_error]

/-- **A loop**: `I` holds of the elements that are done and of what was made of
them, before each round and after the last one. -/
lemma ends_foldlM {f : β → α → EStateM ε σ β} {I : List α → β → σ → Prop} {b : β} {l : List α}
    (hfirst : I [] b s)
    (hround : ∀ done a rest, l = done ++ a :: rest → ∀ b s, I done b s →
      Ends (f b a) s (Then (I (done ++ [a])) fun e => R (.error e)))
    (hlast : ∀ b s, I l b s → R (.ok b) s) : Ends (l.foldlM f b) s R := by
  have hrest : ∀ rest done b s, l = done ++ rest → I done b s → Ends (rest.foldlM f b) s R := by
    intro rest
    induction rest with
    | nil =>
        intro done b s hl h
        rw [List.append_nil] at hl
        rw [List.foldlM_nil, ends_pure]
        exact hlast b s (hl ▸ h)
    | cons a rest ih =>
        intro done b s hl h
        rw [List.foldlM_cons, ends_bind]
        refine (hround done a rest hl b s h).imp fun r s' hr => ?_
        cases r with
        | ok b' => exact ih (done ++ [a]) b' s' (by rw [hl, List.append_assoc]; rfl) hr
        | error e => exact hr
  exact hrest l [] b s rfl hfirst

end Effects
