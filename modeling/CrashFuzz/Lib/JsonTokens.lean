import CrashFuzz.Lib.Json

/-!
JSON texts between their tokens.

* `inString`, `escaped`: whether the parser is within a string, and right after
  a backslash there. `step_outside`, `step_inside` say when a character changes
  this, so that a scanner can follow it.
* `Gap`: no token goes on here. `Gap.newline` says that a newline changes
  nothing about what can be read next.
* `eval`, `literals`: the value of the rest of a text, and its strings as they
  are written.
-/

namespace Json

variable {s s' : State} {c : Char} {text current : List Char}

/-! ### Within strings -/

/-- Between the quotes of a string. -/
def inString (s : State) : Bool :=
  match s.mode with
  | .string _ | .escape _ | .hex _ _ _ => true
  | _ => false

/-- After a backslash in a string. -/
def escaped (s : State) : Bool :=
  match s.mode with
  | .escape _ => true
  | _ => false

lemma inString_of_escaped (h : escaped s = true) : inString s = true := by
  obtain ⟨stack, mode⟩ := s
  cases mode <;> simp_all [inString, escaped]

lemma complete_outside (stack : List Frame) (v : Value) :
    inString (complete stack v) = false := by
  rcases stack with _ | ⟨frame, stack⟩
  · rfl
  · cases frame <;> rfl

lemma closeString_outside (stack : List Frame) (codes : List ℕ) :
    inString (closeString stack codes) = false := by
  rcases stack with _ | ⟨frame, stack⟩
  · rfl
  · cases frame <;> rfl

/-- A value begins with a quote exactly when it is a string. -/
lemma beginValue_inString {stack : List Frame} (h : beginValue stack c = some s') :
    inString s' = decide (c = '"') ∧ escaped s' = false := by
  rw [beginValue] at h
  split_ifs at h
  all_goals
    cases h
    simp_all [inString, escaped]

lemma afterValue_outside (hs : inString s = false) (h : afterValue s c = some s') :
    inString s' = false ∧ c ≠ '"' := by
  rw [afterValue] at h
  split at h
  · rename_i hspace
    cases h
    refine ⟨hs, ?_⟩
    rintro rfl
    cases hspace
  · split at h
    · split_ifs at h with hcomma hclose
      · cases h
        exact ⟨rfl, by simp [hcomma]⟩
      · cases h
        exact ⟨complete_outside _ _, by simp [hclose]⟩
    · split_ifs at h with hcomma hclose
      · cases h
        exact ⟨rfl, by simp [hcomma]⟩
      · cases h
        exact ⟨complete_outside _ _, by simp [hclose]⟩
    · cases h

/-- A number has no quotes, and neither has a word. -/
lemma nextPhase_quote (phase : Phase) (d : Decimal) : nextPhase phase d '"' = none := by
  cases phase <;> rfl

lemma word_quote (w : Word) (n : ℕ) : w.text[n]? ≠ some '"' := by
  intro h
  have hmem := List.mem_of_getElem? h
  cases w <;> simp [Word.text] at hmem

/-- Outside of strings a quote opens one, and nothing else does. -/
lemma step_outside (hs : inString s = false) (h : step s c = some s') :
    inString s' = decide (c = '"') ∧ escaped s' = false := by
  have hquiet : ∀ {t : State}, inString t = false → c ≠ '"' →
      inString t = decide (c = '"') ∧ escaped t = false := by
    intro t ht hc
    refine ⟨by simp [ht, hc], Bool.eq_false_iff.mpr fun he => ?_⟩
    rw [inString_of_escaped he] at ht
    cases ht
  have hafter : ∀ {t : State}, inString t = false → afterValue t c = some s' →
      inString s' = decide (c = '"') ∧ escaped s' = false := by
    intro t ht h
    obtain ⟨hout, hc⟩ := afterValue_outside ht h
    exact hquiet hout hc
  have hspace : isSpace c = true → c ≠ '"' := by
    rintro hspace rfl
    cases hspace
  obtain ⟨stack, mode⟩ := s
  cases mode with
  | string | escape | hex => cases hs
  | after | done v => exact hafter hs h
  | value first =>
      simp only [step] at h
      split_ifs at h with hc hclose
      · cases h
        exact hquiet rfl (hspace hc)
      · split at h
        · cases h
          have hbracket : c = ']' := by simp_all
          exact hquiet (complete_outside _ _) (by simp [hbracket])
        · cases h
      · exact beginValue_inString h
  | key first =>
      simp only [step] at h
      split_ifs at h with hc hquote hclose
      · cases h
        exact hquiet rfl (hspace hc)
      · cases h
        exact ⟨by simp [hquote, inString], rfl⟩
      · exact hafter rfl h
  | colon =>
      simp only [step] at h
      split_ifs at h with hc hcolon
      · cases h
        exact hquiet rfl (hspace hc)
      · cases h
        exact hquiet rfl (by simp [hcolon])
  | number phase d =>
      simp only [step] at h
      split at h
      · rename_i hnext
        cases h
        refine hquiet rfl ?_
        rintro rfl
        rw [nextPhase_quote] at hnext
        cases hnext
      · split_ifs at h
        exact hafter (complete_outside _ _) h
  | word w read =>
      simp only [step] at h
      split_ifs at h with hword hend
      · cases h
        exact hquiet (complete_outside _ _) fun hc => word_quote w read (hc ▸ hword)
      · cases h
        exact hquiet rfl fun hc => word_quote w read (hc ▸ hword)

/-- Within a string, a backslash that is not escaped escapes, and a quote that
is not escaped closes. -/
lemma step_inside (hs : inString s = true) (h : step s c = some s') :
    inString s' = (escaped s || decide (c ≠ '"')) ∧
      escaped s' = (!escaped s && decide (c = '\\')) := by
  obtain ⟨stack, mode⟩ := s
  cases mode with
  | value | key | colon | after | done | number | word => cases hs
  | string codes =>
      simp only [step] at h
      split_ifs at h with hquote hslash hprint
      · cases h
        have hout := closeString_outside stack codes
        refine ⟨by simp [hout, hquote, escaped], ?_⟩
        simp only [hquote]
        exact Bool.eq_false_iff.mpr fun he => by simp [inString_of_escaped he] at hout
      · cases h
        simp [inString, escaped, hslash]
      · cases h
        simp [inString, escaped, hquote, hslash]
  | escape codes =>
      simp only [step] at h
      split_ifs at h with hu
      · cases h
        simp [inString, escaped]
      · obtain ⟨code, -, rfl⟩ := Option.map_eq_some_iff.mp h
        simp [inString, escaped]
  | hex codes read unit =>
      simp only [step] at h
      obtain ⟨d, hd, rfl⟩ := Option.map_eq_some_iff.mp h
      have hc : c ≠ '"' ∧ c ≠ '\\' := by
        constructor <;> (rintro rfl; cases hd)
      split_ifs <;> simp [inString, escaped, hc]

lemma afterValue_slash (s : State) : afterValue s '/' = none := by
  rw [afterValue]
  split
  · rename_i hspace
    cases hspace
  · split <;> rfl

/-- A slash is no part of any token but a string. -/
lemma step_slash (hs : inString s = false) : step s '/' = none := by
  obtain ⟨stack, mode⟩ := s
  cases mode with
  | string | escape | hex => cases hs
  | after | done v => exact afterValue_slash _
  | colon => rfl
  | value first => cases first <;> rfl
  | key first => cases first <;> rfl
  | number phase d =>
      have hnext : nextPhase phase d '/' = none := by
        cases phase <;> rfl
      simp only [step, hnext, afterValue_slash, ite_self]
  | word w read =>
      have hword : w.text[read]? ≠ some '/' := by
        intro h
        have hmem := List.mem_of_getElem? h
        cases w <;> simp [Word.text] at hmem
      simp only [step, if_neg hword]

/-- No string goes on behind a newline. -/
lemma outside_of_newline (h : step s '\n' = some s') : inString s = false := by
  obtain ⟨stack, mode⟩ := s
  cases mode with
  | value | key | colon | after | done | number | word => rfl
  | string codes => cases h
  | escape codes => cases h
  | hex codes read unit => cases h

/-! ### Between tokens -/

/-- The parser is between two tokens: a number has ended before what follows. -/
def Gap (s : State) (rest : List Char) : Prop :=
  match s.mode with
  | .value _ | .key _ | .colon | .after | .done _ => True
  | .number phase d => ∀ c ∈ rest.head?, nextPhase phase d c = none
  | .string _ | .escape _ | .hex _ _ _ | .word _ _ => False

namespace Gap

lemma outside (h : Gap s text) : inString s = false := by
  obtain ⟨stack, mode⟩ := s
  cases mode with
  | string | escape | hex => cases h
  | value | key | colon | after | done | number | word => rfl

/-- Only the next character counts. -/
lemma congr_head {text' : List Char} (h : Gap s (c :: text)) : Gap s (c :: text') := by
  obtain ⟨stack, mode⟩ := s
  cases mode with
  | string | escape | hex | word => cases h
  | value | key | colon | after | done | number => exact h

/-- A token does not go on with a newline. -/
lemma cons_newline (h : Gap s text) (text' : List Char) : Gap s ('\n' :: text') := by
  obtain ⟨stack, mode⟩ := s
  cases mode with
  | string | escape | hex | word => cases h
  | value | key | colon | after | done => trivial
  | number phase d =>
      rintro c ⟨⟩
      cases phase <;> rfl

/-- A value that has ended is one before whatever follows. -/
lemma finish_complete (stack : List Frame) (v : Value) :
    finish (complete stack v) = if stack.isEmpty then some v else none := by
  rcases stack with _ | ⟨frame, stack⟩
  · rfl
  · cases frame <;> rfl

lemma step_complete (stack : List Frame) (v : Value) (c : Char) :
    step (complete stack v) c = afterValue (complete stack v) c := by
  rcases stack with _ | ⟨frame, stack⟩
  · rfl
  · cases frame <;> rfl

/-- A newline leaves what can be read next, and whether the text may end. -/
lemma newline (h : Gap s text) :
    (∃ s', step s '\n' = some s' ∧ inString s' = false ∧ finish s' = finish s ∧
        ∀ c ∈ text.head?, step s' c = step s c) ∨
      (step s '\n' = none ∧ finish s = none ∧ ∀ c ∈ text.head?, step s c = none) := by
  obtain ⟨stack, mode⟩ := s
  cases mode with
  | string | escape | hex | word => cases h
  | value | key | colon => exact .inl ⟨_, rfl, rfl, rfl, fun _ _ => rfl⟩
  | after | done v => exact .inl ⟨_, rfl, rfl, rfl, fun _ _ => rfl⟩
  | number phase d =>
      have hline : nextPhase phase d '\n' = none := by
        cases phase <;> rfl
      have hend : ∀ c, nextPhase phase d c = none → step ⟨stack, .number phase d⟩ c =
          if phase.accepts then afterValue (complete stack (.number d.number)) c else none := by
        intro c hc
        simp only [step, hc]
      have hnext : ∀ c ∈ text.head?, nextPhase phase d c = none := h
      cases haccepts : phase.accepts with
      | true =>
          refine .inl ⟨complete stack (.number d.number), ?_, complete_outside _ _, ?_, ?_⟩
          · rw [hend _ hline, if_pos haccepts, afterValue]
            rfl
          · rw [finish_complete, finish]
            simp only [haccepts, Bool.true_and]
          · intro c hc
            rw [step_complete, hend c (hnext c hc), if_pos haccepts]
      | false =>
          refine .inr ⟨?_, ?_, fun c hc => ?_⟩
          · rw [hend _ hline, haccepts]
            rfl
          · simp only [finish, haccepts]
            rfl
          · rw [hend c (hnext c hc), haccepts]
            rfl

end Gap

/-! ### What a text says -/

/-- The value of a text, from a state on. -/
def eval (s : State) (text : List Char) : Option Value := (run s text).bind finish

lemma eval_cons (s : State) (c : Char) (text : List Char) :
    eval s (c :: text) = (step s c).bind (eval · text) := by
  rw [eval, run_cons, Option.bind_assoc]
  rfl

/-- The strings of a text as they are written, with their quotes; `current` is
what was read of the one that the text begins in. -/
def literals (s : State) (current : List Char) : List Char → List (List Char)
  | [] => []
  | c :: text =>
      match step s c with
      | none => []
      | some s' =>
          if inString s' then literals s' (current ++ [c]) text
          else if inString s then (current ++ [c]) :: literals s' [] text
          else literals s' [] text

/-- A newline between two tokens does not count. -/
lemma Gap.eval_newline (h : Gap s text) : eval s ('\n' :: text) = eval s text := by
  rw [eval_cons]
  rcases h.newline with ⟨s', hstep, -, hfinish, hsame⟩ | ⟨hstep, hfinish, hnone⟩
  · rw [hstep, Option.bind_some]
    cases text with
    | nil => exact hfinish
    | cons c text => rw [eval_cons, eval_cons, hsame c rfl]
  · rw [hstep]
    cases text with
    | nil => exact hfinish.symm
    | cons c text =>
        rw [eval_cons, hnone c rfl]
        rfl

lemma Gap.literals_newline (h : Gap s text) :
    literals s [] ('\n' :: text) = literals s [] text := by
  have hout := h.outside
  rw [literals]
  rcases h.newline with ⟨s', hstep, hout', -, hsame⟩ | ⟨hstep, -, hnone⟩
  · simp only [hstep, hout, hout']
    cases text with
    | nil => rfl
    | cons c text => simp [literals, hsame c rfl, hout, hout']
  · simp only [hstep]
    cases text with
    | nil => rfl
    | cons c text => simp [literals, hnone c rfl]

end Json
