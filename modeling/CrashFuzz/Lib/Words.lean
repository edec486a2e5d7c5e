import Mathlib.Data.List.Basic

/-!
Texts that are put together from words.

* `append_sep_inj`: what stands before the first separator can be read back.
* `splitOn_flatMap_ended`: so can lines that are ended one by one.
* `words`: the maximal runs of letters of a text, for any notion of a letter.
* `dashed`: the text with every other run replaced by a dash. `dashed_inj_iff`
  says what is lost: all but the words and whether the text ends with one.
-/

namespace Words

variable {α : Type*}

/-- What stands before and after the first separator. -/
lemma append_sep_inj {sep : α} {l l' r r' : List α} (hl : sep ∉ l) (hl' : sep ∉ l')
    (h : l ++ sep :: r = l' ++ sep :: r') : l = l' ∧ r = r' := by
  induction l generalizing l' with
  | nil =>
      cases l' with
      | nil => exact ⟨rfl, List.tail_eq_of_cons_eq h⟩
      | cons a l' => exact absurd (List.head_eq_of_cons_eq h ▸ List.mem_cons_self) hl'
  | cons a l ih =>
      cases l' with
      | nil => exact absurd (List.head_eq_of_cons_eq h ▸ List.mem_cons_self) hl
      | cons a' l' =>
          rw [List.cons_append, List.cons_append, List.cons.injEq] at h
          obtain ⟨rfl, hrest⟩ := h
          obtain ⟨rfl, rfl⟩ := ih (List.not_mem_of_not_mem_cons hl)
            (List.not_mem_of_not_mem_cons hl') hrest
          exact ⟨rfl, rfl⟩

/-- What stands before and after the last separator. -/
lemma append_sep_inj_last {sep : α} {l l' r r' : List α} (hr : sep ∉ r) (hr' : sep ∉ r')
    (h : l ++ sep :: r = l' ++ sep :: r') : l = l' ∧ r = r' := by
  have hrev : r.reverse ++ sep :: l.reverse = r'.reverse ++ sep :: l'.reverse := by
    simpa using congrArg List.reverse h
  obtain ⟨hright, hleft⟩ := append_sep_inj (by simpa using hr) (by simpa using hr') hrev
  exact ⟨List.reverse_inj.mp hleft, List.reverse_inj.mp hright⟩

/-- Lines that end are found again, with an empty one after the last. -/
lemma splitOn_flatMap_ended [DecidableEq α] {sep : α} {lines : List (List α)}
    (h : ∀ line ∈ lines, sep ∉ line) :
    (lines.flatMap (· ++ [sep])).splitOn sep = lines ++ [[]] := by
  induction lines with
  | nil => simp
  | cons line lines ih =>
      have hrest := ih fun l hl => h l (List.mem_cons_of_mem line hl)
      rw [List.flatMap_cons, List.append_assoc, List.singleton_append,
        List.splitOn_append_cons_self_of_not_mem (h line List.mem_cons_self), hrest,
        List.cons_append]

/-! ### Words -/

variable {letter : α → Bool} {c dash : α} {l l' w : List α}

variable (letter) in
/-- The maximal runs of letters. -/
def words (l : List α) : List (List α) := (l.splitOnP (!letter ·)).filter (!·.isEmpty)

variable (letter) in
/-- The text does not end with a letter. -/
def endsOpen (l : List α) : Bool := l.getLast?.any (!letter ·)

@[simp] lemma words_nil : words letter [] = [] := rfl

@[simp] lemma endsOpen_nil : endsOpen letter [] = false := rfl

/-- The words on both sides of a character that is no letter. -/
lemma words_append_cons (hc : letter c = false) :
    words letter (l ++ c :: l') = words letter l ++ words letter l' := by
  rw [words, List.splitOnP_append_cons l l' (by simp [hc]), List.filter_append, words, words]

lemma words_cons (hc : letter c = false) : words letter (c :: l) = words letter l :=
  @words_append_cons _ _ _ [] l hc

lemma words_of_letters (hw : ∀ c ∈ w, letter c = true) (hne : w ≠ []) :
    words letter w = [w] := by
  rw [words, List.splitOnP_eq_singleton (by simpa using hw)]
  cases w with
  | nil => exact absurd rfl hne
  | cons c w => rfl

lemma words_cons_ne_nil (hc : letter c = true) : words letter (c :: l) ≠ [] := by
  rw [words, List.splitOnP_cons_eq_if_modifyHead, if_neg (by simp [hc])]
  obtain ⟨w, ws, hsplit⟩ := List.exists_cons_of_ne_nil (List.splitOnP_ne_nil (!letter ·) l)
  simp [hsplit]

lemma words_eq_nil_iff : words letter l = [] ↔ ∀ c ∈ l, letter c = false := by
  induction l with
  | nil => simp
  | cons c l ih =>
      cases hc : letter c with
      | true => simp [hc, words_cons_ne_nil hc]
      | false => simp [hc, words_cons hc, ih]

lemma endsOpen_append_cons : endsOpen letter (l ++ c :: l') = endsOpen letter (c :: l') := by
  rw [endsOpen, endsOpen, List.getLast?_append_cons]

lemma endsOpen_append (hne : l' ≠ []) : endsOpen letter (l ++ l') = endsOpen letter l' := by
  cases l' with
  | nil => exact absurd rfl hne
  | cons c l' => exact endsOpen_append_cons

lemma endsOpen_cons_cons {c' : α} : endsOpen letter (c :: c' :: l) = endsOpen letter (c' :: l) :=
  @endsOpen_append_cons _ _ c' [c] l

lemma endsOpen_of_letters (hw : ∀ c ∈ w, letter c = true) : endsOpen letter w = false := by
  rw [endsOpen]
  cases hlast : w.getLast? with
  | none => rfl
  | some c => simp [hw c (List.mem_of_getLast? hlast)]

lemma endsOpen_of_no_letters (hl : ∀ c ∈ l, letter c = false) (hne : l ≠ []) :
    endsOpen letter l = true := by
  rw [endsOpen, List.getLast?_eq_some_getLast hne, Option.any_some, hl _ (List.getLast_mem hne)]
  rfl

/-! ### Dashes -/

variable (letter dash) in
/-- The text with every run of other characters replaced by a dash. -/
def dashedFrom (inRun : Bool) : List α → List α
  | [] => []
  | c :: l =>
      if letter c then c :: dashedFrom false l
      else if inRun then dashedFrom true l
      else dash :: dashedFrom true l

variable (letter dash) in
/-- The text with every run of characters that are no letters replaced by a dash. -/
def dashed (l : List α) : List α := dashedFrom letter dash false l

lemma mem_dashedFrom {inRun : Bool} (h : c ∈ dashedFrom letter dash inRun l) :
    letter c = true ∨ c = dash := by
  induction l generalizing inRun with
  | nil => cases h
  | cons a l ih =>
      rw [dashedFrom] at h
      split_ifs at h with hletter hrun
      · rcases List.mem_cons.mp h with rfl | h
        · exact .inl hletter
        · exact ih h
      · exact ih h
      · rcases List.mem_cons.mp h with rfl | h
        · exact .inr rfl
        · exact ih h

lemma mem_dashed (h : c ∈ dashed letter dash l) : letter c = true ∨ c = dash := mem_dashedFrom h

/-- Words with dashes between them, and one at the end of an open text. -/
def joined (dash : α) (ws : List (List α)) (isOpen : Bool) : List α :=
  [dash].intercalate ws ++ if isOpen then [dash] else []

lemma joined_cons (dash : α) (w : List α) {ws : List (List α)} (hne : ws ≠ []) (isOpen : Bool) :
    joined dash (w :: ws) isOpen = w ++ dash :: joined dash ws isOpen := by
  rw [joined, joined, List.intercalate_cons_of_ne_nil hne]
  simp

/-- **What is left** of a text that starts with a word, and of one behind a dash:
its words, and whether it is open. -/
lemma dashedFrom_eq (l : List α) :
    dashedFrom letter dash true l =
        joined dash (words letter l) (endsOpen letter l && !(words letter l).isEmpty) ∧
      ∀ w, (∀ c ∈ w, letter c = true) → w ≠ [] → w ++ dashedFrom letter dash false l =
        joined dash (words letter (w ++ l)) (endsOpen letter (w ++ l)) := by
  induction l with
  | nil =>
      refine ⟨rfl, fun w hw hne => ?_⟩
      rw [List.append_nil, words_of_letters hw hne, endsOpen_of_letters hw]
      simp [dashedFrom, joined]
  | cons c l ih =>
      obtain ⟨hrun, hword⟩ := ih
      cases hc : letter c with
      | true =>
          have hnext : ∀ w, (∀ c ∈ w, letter c = true) → w ++ c :: dashedFrom letter dash false l =
              joined dash (words letter (w ++ c :: l)) (endsOpen letter (w ++ c :: l)) := by
            intro w hw
            have happend := hword (w ++ [c]) (by simpa [or_imp, forall_and, hc] using hw) (by simp)
            simpa using happend
          refine ⟨?_, fun w hw _ => ?_⟩
          · have hsome : (words letter (c :: l)).isEmpty = false :=
              List.isEmpty_eq_false_iff.mpr (words_cons_ne_nil hc)
            rw [dashedFrom, if_pos hc, hsome, Bool.not_false, Bool.and_true]
            exact hnext [] (by simp)
          · rw [dashedFrom, if_pos hc]
            exact hnext w hw
      | false =>
          refine ⟨?_, fun w hw hne => ?_⟩
          · rw [dashedFrom, hc, if_neg Bool.false_ne_true, if_pos rfl, hrun, words_cons hc]
            cases l with
            | nil => simp
            | cons c' l => rw [endsOpen_cons_cons]
          · rw [dashedFrom, hc, if_neg Bool.false_ne_true, if_neg Bool.false_ne_true, hrun,
              words_append_cons hc, words_of_letters hw hne, endsOpen_append_cons]
            by_cases hnone : words letter l = []
            · have hopen : endsOpen letter (c :: l) = true :=
                endsOpen_of_no_letters
                  (by simpa [hc] using words_eq_nil_iff.mp hnone) (List.cons_ne_nil c l)
              simp [hnone, hopen, joined]
            · have hl : l ≠ [] := fun hl => hnone (hl ▸ words_nil)
              have hsome : (words letter l).isEmpty = false :=
                List.isEmpty_eq_false_iff.mpr hnone
              rw [List.singleton_append, joined_cons dash w hnone, hsome, Bool.not_false,
                Bool.and_true, ← @endsOpen_append _ _ [c] l hl, List.singleton_append]

lemma dashed_eq (hc : letter c = true) : dashed letter dash (c :: l) =
    joined dash (words letter (c :: l)) (endsOpen letter (c :: l)) := by
  have hword := (@dashedFrom_eq _ letter dash l).2 [c] (by simpa using hc) (by simp)
  rw [dashed, dashedFrom, if_pos hc]
  exact hword

/-- A text can be split at its dashes again. -/
lemma words_dashedFrom (hdash : letter dash = false) (l : List α) :
    words letter (dashedFrom letter dash true l) = words letter l ∧
      ∀ w, words letter (w ++ dashedFrom letter dash false l) = words letter (w ++ l) := by
  induction l with
  | nil => exact ⟨rfl, fun w => rfl⟩
  | cons c l ih =>
      obtain ⟨hrun, hword⟩ := ih
      cases hc : letter c with
      | true =>
          have hnext : ∀ w, words letter (w ++ c :: dashedFrom letter dash false l) =
              words letter (w ++ c :: l) := fun w => by simpa using hword (w ++ [c])
          rw [dashedFrom, dashedFrom, if_pos hc, if_pos hc]
          exact ⟨hnext [], hnext⟩
      | false =>
          rw [dashedFrom, dashedFrom, hc, if_neg Bool.false_ne_true, if_neg Bool.false_ne_true,
            if_pos rfl, if_neg Bool.false_ne_true]
          refine ⟨by rw [hrun, words_cons hc], fun w => ?_⟩
          rw [words_append_cons hdash, words_append_cons hc, hrun]

/-- **What is lost**: two texts that start with a letter look alike exactly if
they have the same words and are both open, or both not. -/
lemma dashed_inj_iff (hdash : letter dash = false) {c' : α} (hc : letter c = true)
    (hc' : letter c' = true) :
    dashed letter dash (c :: l) = dashed letter dash (c' :: l') ↔
      words letter (c :: l) = words letter (c' :: l') ∧
        endsOpen letter (c :: l) = endsOpen letter (c' :: l') := by
  constructor
  · intro h
    have hwords := (words_dashedFrom hdash (c :: l)).2 []
    have hwords' := (words_dashedFrom hdash (c' :: l')).2 []
    have hsame : words letter (c :: l) = words letter (c' :: l') := by
      rw [← List.nil_append (c :: l), ← hwords, ← List.nil_append (c' :: l'), ← hwords']
      exact congrArg (words letter) h
    rw [dashed_eq hc, dashed_eq hc', hsame, joined, joined, List.append_cancel_left_eq] at h
    refine ⟨hsame, ?_⟩
    cases hopen : endsOpen letter (c :: l) <;> cases hopen' : endsOpen letter (c' :: l') <;>
      simp [hopen, hopen'] at h ⊢
  · rintro ⟨hwords, hopen⟩
    rw [dashed_eq hc, dashed_eq hc', hwords, hopen]

end Words
