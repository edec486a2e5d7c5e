import CrashFuzz.Lib.JsonTokens

/-!
The file of the bounds (`core/src/enumerate/bounds.ts`), JSON with comments.

* `stripFrom`, `stripComments`, `loadBounds`: the scanner, which knows when it is
  within a string, and what is parsed of its text.
* `Commented`: a JSON text with comments between its tokens.
* `stripFrom_step`: the scanner keeps what the parser reads, and follows it in
  and out of strings.
* `stripComments_transparent`: the comments do not count.
-/

namespace CrashFuzz

open Json

/-! ### The scanner -/

/-- The loop of `stripComments`, with `inString` and `escaped`. -/
def stripFrom (inString escaped : Bool) : List Char → List Char
  | [] => []
  | ch :: text =>
      if inString then
        ch :: (if escaped then stripFrom true false text
          else if ch = '\\' then stripFrom true true text
          else if ch = '"' then stripFrom false false text
          else stripFrom true false text)
      else if ch = '"' then ch :: stripFrom true escaped text
      else if ch = '/' ∧ text.head? = some '/' then
        -- The newline is written again, also where the text ends without one.
        '\n' :: stripFrom false escaped ((text.dropWhile (· ≠ '\n')).drop 1)
      else ch :: stripFrom false escaped text
termination_by text => text.length
decreasing_by
  all_goals simp only [List.length_cons, List.length_drop]
  all_goals try omega
  have := (List.dropWhile_suffix (l := text) (· ≠ '\n')).length_le
  omega

/-- `stripComments`: removes `//` comments outside of string literals. -/
def stripComments (text : String) : String := String.ofList (stripFrom false false text.toList)

/-- `loadBounds` of the text of a file. -/
def loadBounds (text : String) : Option Json.Value := parse (stripComments text).toList

section Equations

variable {escaped : Bool} {c : Char} {text body : List Char}

/-- Within a string, up to a quote that is not escaped. -/
lemma stripFrom_inside : stripFrom true escaped (c :: text) =
    c :: stripFrom (escaped || decide (c ≠ '"')) (!escaped && decide (c = '\\')) text := by
  rw [stripFrom, if_pos rfl]
  cases escaped with
  | true => rfl
  | false =>
      by_cases hslash : c = '\\'
      · simp [hslash]
      · by_cases hquote : c = '"' <;> simp [hslash, hquote]

lemma stripFrom_quote :
    stripFrom false escaped ('"' :: text) = '"' :: stripFrom true escaped text := by
  rw [stripFrom, if_neg Bool.false_ne_true, if_pos rfl]

lemma stripFrom_outside (hquote : c ≠ '"') (hslash : ¬ (c = '/' ∧ text.head? = some '/')) :
    stripFrom false escaped (c :: text) = c :: stripFrom false escaped text := by
  rw [stripFrom, if_neg Bool.false_ne_true, if_neg hquote, if_neg hslash]

/-- The text of a comment is all of the line from its second slash on. -/
lemma comment_within_line (hbody : '\n' ∉ body) :
    ∀ d ∈ '/' :: body, decide (d ≠ '\n') = true := by
  intro d hd
  rcases List.mem_cons.mp hd with rfl | hd
  · decide
  · exact decide_eq_true fun h => hbody (h ▸ hd)

/-- A comment goes up to the next newline. -/
lemma stripFrom_comment (hbody : '\n' ∉ body) :
    stripFrom false escaped ('/' :: '/' :: (body ++ '\n' :: text)) =
      '\n' :: stripFrom false escaped text := by
  have hdrop : ('/' :: (body ++ '\n' :: text)).dropWhile (· ≠ '\n') = '\n' :: text := by
    rw [← List.cons_append, List.dropWhile_append_of_pos (comment_within_line hbody)]
    rfl
  rw [stripFrom, if_neg Bool.false_ne_true, if_neg (by decide), if_pos ⟨rfl, rfl⟩, hdrop,
    List.drop_one, List.tail_cons]

/-- A comment at the end of a text becomes a newline. -/
lemma stripFrom_comment_last (hbody : '\n' ∉ body) :
    stripFrom false escaped ('/' :: '/' :: body) = ['\n'] := by
  have hdrop : ('/' :: body).dropWhile (· ≠ '\n') = [] :=
    List.dropWhile_eq_nil_iff.mpr (comment_within_line hbody)
  rw [stripFrom, if_neg Bool.false_ne_true, if_neg (by decide), if_pos ⟨rfl, rfl⟩, hdrop,
    List.drop_nil, stripFrom]

end Equations

/-! ### Twice -/

section Twice

variable {escaped : Bool} {text : List Char}

/-- No slash comes to stand where there was none. -/
lemma head_of_stripFrom (h : (stripFrom false escaped text).head? = some '/') :
    text.head? = some '/' := by
  cases text with
  | nil =>
      rw [stripFrom] at h
      cases h
  | cons c text =>
      by_cases hquote : c = '"'
      · rw [hquote, stripFrom_quote] at h
        cases h
      · by_cases hslash : c = '/' ∧ text.head? = some '/'
        · rw [hslash.1]
          rfl
        · rwa [stripFrom_outside hquote hslash] at h

/-- What was stripped has no comments. -/
lemma stripFrom_idem (inString escaped : Bool) (text : List Char) :
    stripFrom inString escaped (stripFrom inString escaped text) =
      stripFrom inString escaped text := by
  induction h : text.length using Nat.strong_induction_on generalizing inString escaped text with
  | _ n ih =>
      cases text with
      | nil => rw [stripFrom, stripFrom]
      | cons c text =>
          have hlen : text.length < n := by
            rw [← h, List.length_cons]
            omega
          cases inString with
          | true => rw [stripFrom_inside, stripFrom_inside, ih _ hlen _ _ _ rfl]
          | false =>
              by_cases hquote : c = '"'
              · rw [hquote, stripFrom_quote, stripFrom_quote, ih _ hlen _ _ _ rfl]
              · by_cases hslash : c = '/' ∧ text.head? = some '/'
                · have hrest : ((text.dropWhile (· ≠ '\n')).drop 1).length < n := by
                    have := (List.dropWhile_suffix (l := text) (· ≠ '\n')).length_le
                    rw [List.length_drop]
                    omega
                  rw [stripFrom, if_neg Bool.false_ne_true, if_neg hquote, if_pos hslash,
                    stripFrom_outside (by decide) (by simp), ih _ hrest _ _ _ rfl]
                · have hslash' : ¬ (c = '/' ∧ (stripFrom false escaped text).head? = some '/') :=
                    fun hc => hslash ⟨hc.1, head_of_stripFrom hc.2⟩
                  rw [stripFrom_outside hquote hslash, stripFrom_outside hquote hslash',
                    ih _ hlen _ _ _ rfl]

end Twice

/-! ### Comments between tokens -/

/-- A text with comments put into it where the parser, from a state on, is
between two tokens: lines of their own, before a newline, or at the end. A line ends in
`\n`, as for `stripComments`. -/
inductive Commented : State → List Char → List Char → Prop
  | nil (s : State) : Commented s [] []
  | char {s s' : State} {c : Char} {text commented : List Char} (hstep : step s c = some s')
      (hrest : Commented s' text commented) : Commented s (c :: text) (c :: commented)
  | line {s : State} {text commented body : List Char} (hgap : Gap s text) (hbody : '\n' ∉ body)
      (hrest : Commented s text commented) :
      Commented s text ('/' :: '/' :: (body ++ '\n' :: commented))
  | before {s s' : State} {text commented body : List Char} (hstep : step s '\n' = some s')
      (hbody : '\n' ∉ body) (hrest : Commented s' text commented) :
      Commented s ('\n' :: text) ('/' :: '/' :: (body ++ '\n' :: commented))
  | last {s : State} {body : List Char} (hgap : Gap s []) (hbody : '\n' ∉ body) :
      Commented s [] ('/' :: '/' :: body)

variable {s s' : State} {c : Char} {text commented rest : List Char}

/-- A text that the parser reads is one with no comments in it. -/
lemma Commented.refl (h : (run s text).isSome) : Commented s text text := by
  induction text generalizing s with
  | nil => exact .nil s
  | cons c text ih =>
      rw [run_cons] at h
      cases hstep : step s c with
      | none =>
          rw [hstep] at h
          cases h
      | some s' =>
          rw [hstep] at h
          exact .char hstep (ih h)

/-- The scanner in step with the parser. -/
def stripAt (s : State) (text : List Char) : List Char :=
  stripFrom (inString s) (escaped s) text

/-- Outside of strings nothing is escaped. -/
lemma stripAt_outside (hs : inString s = false) (text : List Char) :
    stripAt s text = stripFrom false false text := by
  have hescaped : escaped s = false :=
    Bool.eq_false_iff.mpr fun he => by simp [inString_of_escaped he] at hs
  rw [stripAt, hs, hescaped]

/-- What the parser reads the scanner keeps, and both are in a string or not. -/
lemma stripAt_step (h : step s c = some s') (rest : List Char) :
    stripAt s (c :: rest) = c :: stripAt s' rest := by
  cases hs : inString s with
  | true =>
      obtain ⟨hin, hescaped⟩ := step_inside hs h
      rw [stripAt, hs, stripFrom_inside, stripAt, hin, hescaped]
  | false =>
      obtain ⟨hin, hescaped⟩ := step_outside hs h
      rw [stripAt_outside hs, stripAt, hescaped, hin]
      by_cases hquote : c = '"'
      · simp only [hquote, stripFrom_quote, decide_true]
      · have hslash : ¬ (c = '/' ∧ rest.head? = some '/') := by
          rintro ⟨rfl, -⟩
          rw [step_slash hs] at h
          cases h
        simp only [stripFrom_outside hquote hslash, hquote, decide_false]

/-- A comment is a newline. -/
lemma stripAt_comment (hs : inString s = false) (hs' : inString s' = false) (hbody : '\n' ∉ body) :
    stripAt s ('/' :: '/' :: (body ++ '\n' :: commented)) = '\n' :: stripAt s' commented := by
  rw [stripAt_outside hs, stripFrom_comment hbody, stripAt_outside hs']

lemma stripAt_comment_last (hs : inString s = false) (hbody : '\n' ∉ body) :
    stripAt s ('/' :: '/' :: body) = '\n' :: [] := by
  rw [stripAt_outside hs, stripFrom_comment_last hbody]

lemma outside_after_newline (h : step s '\n' = some s') : inString s' = false :=
  (step_outside (outside_of_newline h) h).1

/-- The next character is the one of the text, or a newline. -/
lemma Commented.gap (h : Commented s text commented) (hgap : Gap s text) :
    Gap s (stripAt s commented) := by
  cases h with
  | nil => rwa [stripAt_outside hgap.outside, stripFrom]
  | char hstep hrest =>
      rw [stripAt_step hstep]
      exact hgap.congr_head
  | line _ hbody hrest =>
      rw [stripAt_comment hgap.outside hgap.outside hbody]
      exact hgap.cons_newline _
  | before hstep hbody hrest =>
      rw [stripAt_comment hgap.outside (outside_after_newline hstep) hbody]
      exact hgap.cons_newline _
  | last _ hbody =>
      rw [stripAt_comment_last hgap.outside hbody]
      exact hgap.cons_newline _

/-- The parser reads the same value. -/
lemma Commented.eval_stripAt (h : Commented s text commented) :
    eval s (stripAt s commented) = eval s text := by
  induction h with
  | nil s => rw [stripAt, stripFrom]
  | char hstep hrest ih => rw [stripAt_step hstep, eval_cons, eval_cons, hstep, Option.bind_some,
      Option.bind_some, ih]
  | line hgap hbody hrest ih =>
      rw [stripAt_comment hgap.outside hgap.outside hbody, (hrest.gap hgap).eval_newline, ih]
  | before hstep hbody hrest ih =>
      rw [stripAt_comment (outside_of_newline hstep) (outside_after_newline hstep) hbody,
        eval_cons, eval_cons, hstep, Option.bind_some, Option.bind_some, ih]
  | last hgap hbody =>
      rw [stripAt_comment_last hgap.outside hbody, hgap.eval_newline]

/-- And the same strings. -/
lemma Commented.literals_stripAt (h : Commented s text commented) {current : List Char}
    (hcurrent : inString s = false → current = []) :
    literals s current (stripAt s commented) = literals s current text := by
  induction h generalizing current with
  | nil s => rw [stripAt, stripFrom]
  | char hstep hrest ih =>
      rename_i s s' c text commented
      rw [stripAt_step hstep, literals, literals]
      simp only [hstep]
      cases hin : inString s' with
      | true =>
          have hopen := @ih (current ++ [c]) fun hout => by simp [hin] at hout
          simp only [if_true, hopen]
      | false =>
          have hclosed := @ih [] fun _ => rfl
          simp only [Bool.false_eq_true, if_false, hclosed]
  | line hgap hbody hrest ih =>
      obtain rfl := hcurrent hgap.outside
      rw [stripAt_comment hgap.outside hgap.outside hbody, (hrest.gap hgap).literals_newline,
        ih fun _ => rfl]
  | before hstep hbody hrest ih =>
      have hout := outside_of_newline hstep
      have hout' := outside_after_newline hstep
      obtain rfl := hcurrent hout
      rw [stripAt_comment hout hout' hbody, literals, literals]
      have hclosed := @ih [] fun _ => rfl
      simp only [hstep, hout, hout', Bool.false_eq_true, if_false, hclosed]
  | last hgap hbody =>
      obtain rfl := hcurrent hgap.outside
      rw [stripAt_comment_last hgap.outside hbody, hgap.literals_newline]

/-- The parser before a text. -/
def start : State := ⟨[], .value false⟩

/-- **Comments do not count**: between the tokens of a JSON text they leave its
value and its strings, and a second time there is nothing to remove. -/
theorem stripComments_transparent {text commented : String}
    (h : Commented start text.toList commented.toList) :
    loadBounds commented = parse text.toList ∧
      literals start [] (stripComments commented).toList = literals start [] text.toList ∧
      ∀ t : String, stripComments (stripComments t) = stripComments t := by
  refine ⟨?_, ?_, fun t => ?_⟩
  · rw [loadBounds, stripComments, String.toList_ofList]
    exact h.eval_stripAt
  · rw [stripComments, String.toList_ofList]
    exact h.literals_stripAt fun _ => rfl
  · rw [stripComments, stripComments, String.toList_ofList, stripFrom_idem]

/-- A list with a string that looks like a comment. -/
def listText : String := "[1, \n\"//\\\"\"] "

def listCommented : String := "// list\n[1, // one\n\"//\\\"\"] // end"

/-- With comments before it, in it and after it. -/
lemma listCommented_commented : Commented start listText.toList listCommented.toList := by
  have hhead : listCommented.toList = '/' :: '/' :: (" list".toList ++ '\n' ::
      ("[1, ".toList ++ ('/' :: '/' :: (" one".toList ++ '\n' ::
        ("\"//\\\"\"] ".toList ++ '/' :: '/' :: " end".toList))))) := by
    decide
  rw [hhead]
  refine .line trivial (by decide) ?_
  refine .char rfl (.char rfl (.char rfl (.char rfl (.before rfl (by decide) ?_))))
  exact .char rfl (.char rfl (.char rfl (.char rfl (.char rfl (.char rfl (.char rfl (.char rfl
    (.last trivial (by decide)))))))))

/-- The value and the string are those of the list. -/
theorem listCommented_read :
    loadBounds listCommented = parse listText.toList ∧
      literals start [] (stripComments listCommented).toList =
        literals start [] listText.toList := by
  have hread := stripComments_transparent listCommented_commented
  exact ⟨hread.1, hread.2.1⟩

end CrashFuzz
