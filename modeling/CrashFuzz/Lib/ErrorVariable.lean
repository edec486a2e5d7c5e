import Mathlib.Tactic

/-!
Programs over one error variable, such as the `errno` of a thread.

* `Program`: calls in sequence. Each returns a value and may set the variable,
  so the last one that does decides. A program writes output, and it may fault.
* `Effect`: a program that does not look at the variable has one value, one list
  of settings and one output, whatever the variable held before.
* `Effect.call`, `Effect.bind`: the rules that compute it. `Faults` has its own.
* `Gives`: what the runs that do not fault return and write, for programs with a
  part of which only that much is known.
-/

namespace ErrorVariable

variable {ε ω α β : Type}

/-- What a call returned, and what it set the variable to, if it did. -/
structure Outcome (ε α : Type) where
  value : α
  set : Option ε

/-- A program over a variable in `ε` with output in `ω`; none when it faults. -/
abbrev Program (ε ω α : Type) := StateT (ε × List ω) Option α

/-- A call with a given outcome. -/
def call (o : Outcome ε α) : Program ε ω α := fun s => some (o.value, o.set.getD s.1, s.2)

/-- Writes one output. -/
def output (x : ω) : Program ε ω Unit := fun s => some ((), s.1, s.2 ++ [x])

/-- A memory fault. -/
def fault : Program ε ω α := fun _ => none

/-- The last value the variable was set to. -/
def lastSet : List (Option ε) → Option ε
  | [] => none
  | s :: rest => (lastSet rest).or s

@[simp] lemma lastSet_nil : lastSet ([] : List (Option ε)) = none := rfl

lemma lastSet_append (sets rest : List (Option ε)) :
    lastSet (sets ++ rest) = (lastSet rest).or (lastSet sets) := by
  induction sets with
  | nil => simp
  | cons s sets ih => rw [List.cons_append, lastSet, lastSet, ih, Option.or_assoc]

/-- Whatever the variable holds, the program returns `a`, sets it to `sets` one
after the other and writes `written`. -/
def Effect (p : Program ε ω α) (a : α) (sets : List (Option ε)) (written : List ω) : Prop :=
  ∀ e out, p (e, out) = some (a, (lastSet sets).getD e, out ++ written)

/-- Whatever the variable holds, the program faults. -/
def Faults (p : Program ε ω α) : Prop := ∀ s, p s = none

variable {p : Program ε ω α} {f : α → Program ε ω β} {a : α} {b : β}
  {sets rest : List (Option ε)} {written more : List ω}

lemma Effect.pure (a : α) : Effect (pure a : Program ε ω α) a [] [] := by
  intro e out
  rw [List.append_nil]
  rfl

lemma Effect.call (o : Outcome ε α) : Effect (call o : Program ε ω α) o.value [o.set] [] := by
  intro e out
  rw [List.append_nil]
  rfl

lemma Effect.output (x : ω) : Effect (output x : Program ε ω Unit) () [] [x] := fun _ _ => rfl

lemma Effect.bind (hp : Effect p a sets written) (hf : Effect (f a) b rest more) :
    Effect (p >>= f) b (sets ++ rest) (written ++ more) := by
  intro e out
  have hrest := hf ((lastSet sets).getD e) (out ++ written)
  rw [lastSet_append, Option.getD_or, ← List.append_assoc, ← hrest]
  exact congrArg (Option.bind · _) (hp e out)

/-- The same, for settings and output that are given in another form. -/
lemma Effect.seq {all : List (Option ε)} {total : List ω} (hp : Effect p a sets written)
    (hf : Effect (f a) b rest more) (hall : all = sets ++ rest) (htotal : total = written ++ more) :
    Effect (p >>= f) b all total := by
  subst hall htotal
  exact hp.bind hf

lemma faults_fault : Faults (fault : Program ε ω α) := fun _ => rfl

lemma Faults.bind (hp : Faults p) : Faults (p >>= f) := fun s =>
  congrArg (Option.bind · _) (hp s)

lemma Effect.bind_faults (hp : Effect p a sets written) (hf : Faults (f a)) :
    Faults (p >>= f) := by
  rintro ⟨e, out⟩
  exact (congrArg (Option.bind · _) (hp e out)).trans (hf _)

/-- What a run that does not fault returns and writes is in `Q`. -/
def Gives (p : Program ε ω α) (Q : α → List ω → Prop) : Prop :=
  ∀ s a s', p s = some (a, s') → ∃ written, s'.2 = s.2 ++ written ∧ Q a written

variable {Q Q' : α → List ω → Prop} {R : β → List ω → Prop}

lemma Gives.mono (hp : Gives p Q) (h : ∀ a written, Q a written → Q' a written) : Gives p Q' := by
  intro s a s' hrun
  obtain ⟨written, hout, hQ⟩ := hp s a s' hrun
  exact ⟨written, hout, h a written hQ⟩

lemma Effect.gives (hp : Effect p a sets written) :
    Gives p fun b more => b = a ∧ more = written := by
  rintro ⟨e, out⟩ b s' hrun
  rw [hp e out] at hrun
  cases hrun
  exact ⟨written, rfl, rfl, rfl⟩

lemma gives_pure (a : α) :
    Gives (pure a : Program ε ω α) fun b written => b = a ∧ written = [] := (Effect.pure a).gives

lemma gives_call (o : Outcome ε α) :
    Gives (call o : Program ε ω α) fun a written => a = o.value ∧ written = [] :=
  (Effect.call o).gives

lemma Faults.gives (hp : Faults p) : Gives p Q := by
  intro s a s' hrun
  rw [hp s] at hrun
  cases hrun

lemma Gives.bind (hp : Gives p Q)
    (hf : ∀ a written, Q a written → Gives (f a) fun b more => R b (written ++ more)) :
    Gives (p >>= f) R := by
  intro s b s' hrun
  obtain ⟨⟨a, s₁⟩, hfirst, hrest⟩ := Option.bind_eq_some_iff.mp hrun
  obtain ⟨written, hout, hQ⟩ := hp s a s₁ hfirst
  obtain ⟨more, hmore, hR⟩ := hf a written hQ s₁ b s' hrest
  exact ⟨written ++ more, by rw [hmore, hout, List.append_assoc], hR⟩

/-- A part that writes nothing. -/
lemma Gives.seq {P : α → Prop} (hp : Gives p fun a written => P a ∧ written = [])
    (hf : ∀ a, P a → Gives (f a) R) : Gives (p >>= f) R := by
  refine hp.bind fun a written hQ => ?_
  obtain ⟨ha, rfl⟩ := hQ
  exact hf a ha

end ErrorVariable
