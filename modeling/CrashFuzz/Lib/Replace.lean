import Mathlib.Data.List.Infix

/-!
Replacing the first occurrence of a pattern in a text.

* `findFirst`: what stands before and after the first occurrence. A letter that
  is not in the pattern cuts the search in two (`findFirst_append_sep`), and so
  does a text that begins and ends with one (`Separates`).
* `replaceFirst`: the occurrence replaced by what a function makes of the two.
* `expand`: the dollar sequences of a replacement string. `expand_parts` says
  where the result parts from the string if it has any.
* `of_commute`: a property of texts that passes to a text they commute with.
-/

namespace Replace

variable {α : Type*} [DecidableEq α] {pat s t text before after : List α} {c : α}

/-! ### The first occurrence -/

/-- What stands before and after the first occurrence of `pat`. -/
def findFirst (pat : List α) : List α → Option (List α × List α)
  | [] => if pat = [] then some ([], []) else none
  | c :: text =>
      if pat <+: c :: text then some ([], (c :: text).drop pat.length)
      else (findFirst pat text).map fun found => (c :: found.1, found.2)

/-- The first occurrence of `pat` replaced by what `value` makes of the text
before and after it. -/
def replaceFirst (pat : List α) (value : List α → List α → List α) (text : List α) : List α :=
  match findFirst pat text with
  | none => text
  | some (before, after) => before ++ value before after ++ after

/-- What was found is an occurrence. -/
lemma eq_append_of_findFirst (h : findFirst pat text = some (before, after)) :
    text = before ++ pat ++ after := by
  induction text generalizing before with
  | nil =>
      rw [findFirst] at h
      split at h
      · cases h
        simp_all
      · cases h
  | cons c text ih =>
      rw [findFirst] at h
      split at h
      · rename_i hpat
        obtain ⟨rest, hrest⟩ := hpat
        cases h
        simp [← hrest]
      · obtain ⟨⟨b, a⟩, hfound, hb⟩ := Option.map_eq_some_iff.mp h
        cases hb
        simp [ih hfound]

/-- Nothing is found where the pattern does not occur. -/
lemma findFirst_eq_none_iff : findFirst pat text = none ↔ ¬ pat <:+: text := by
  induction text with
  | nil => simp [findFirst]
  | cons c text ih =>
      rw [findFirst, List.infix_cons_iff, not_or, ← ih]
      split <;> simp_all

/-- The text itself begins with the pattern. -/
lemma findFirst_append_self : findFirst pat (pat ++ t) = some ([], t) := by
  cases h : pat ++ t with
  | nil => simp_all [findFirst]
  | cons c text =>
      have hpat : pat <+: c :: text := ⟨t, h⟩
      rw [findFirst, if_pos hpat, ← h, List.drop_left]

omit [DecidableEq α] in
/-- A pattern without the letter `c` is a start of a text before `c` or of none. -/
lemma isPrefix_append_sep (hc : c ∉ pat) : pat <+: s ++ c :: t ↔ pat <+: s := by
  induction s generalizing pat with
  | nil =>
      cases pat with
      | nil => simp
      | cons a pat => simp [List.ne_of_not_mem_cons hc |>.symm]
  | cons a s ih =>
      cases pat with
      | nil => simp
      | cons b pat =>
          rw [List.cons_append, List.cons_prefix_cons, List.cons_prefix_cons,
            ih (List.not_mem_of_not_mem_cons hc)]

/-- A letter outside the pattern cuts the search in two. -/
lemma findFirst_append_sep (hc : c ∉ pat) (hpat : pat ≠ []) :
    findFirst pat (s ++ c :: t) =
      match findFirst pat s with
      | some (before, after) => some (before, after ++ c :: t)
      | none => (findFirst pat t).map fun found => (s ++ c :: found.1, found.2) := by
  induction s with
  | nil =>
      have hstart : ¬ pat <+: c :: t := by
        rw [← List.nil_append (c :: t), isPrefix_append_sep hc, List.prefix_nil]
        exact hpat
      rw [List.nil_append, findFirst.eq_2, if_neg hstart, findFirst.eq_1, if_neg hpat]
      rfl
  | cons a s ih =>
      have hstart := isPrefix_append_sep (s := a :: s) (t := t) hc
      rw [List.cons_append] at hstart
      rw [List.cons_append, findFirst, findFirst]
      by_cases h : pat <+: a :: s
      · rw [if_pos (hstart.mpr h), if_pos h, ← List.cons_append,
          List.drop_append_of_le_length h.length_le]
      · rw [if_neg (mt hstart.mp h), if_neg h, ih]
        cases findFirst pat s with
        | none => simp [Function.comp_def]
        | some found => simp

/-! ### Texts that separate -/

/-- The pattern does not occur in the text, and could not begin before it or go
on after it. -/
structure Separates (pat s : List α) : Prop where
  absent : ¬ pat <:+: s
  first : ∃ c ∈ s.head?, c ∉ pat
  last : ∃ c ∈ s.getLast?, c ∉ pat

namespace Separates

omit [DecidableEq α] in
/-- The text is one letter, or two with a text between them. -/
lemma cases (h : Separates pat s) :
    (∃ c, c ∉ pat ∧ s = [c]) ∨ ∃ c m d, c ∉ pat ∧ d ∉ pat ∧ s = c :: (m ++ [d]) := by
  obtain ⟨c, hc, hcpat⟩ := h.first
  obtain ⟨d, hd, hdpat⟩ := h.last
  obtain ⟨l, rfl⟩ : ∃ l, s = c :: l := by
    cases s with
    | nil => cases hc
    | cons a l => exact ⟨l, by cases hc; rfl⟩
  rcases List.eq_nil_or_concat l with rfl | ⟨m, e, rfl⟩
  · exact .inl ⟨c, hcpat, rfl⟩
  · have he : e = d := by simpa [List.getLast?_cons] using hd
    exact .inr ⟨c, m, e, hcpat, he ▸ hdpat, by simp⟩

variable {x y : List α}

/-- A text that separates cuts the search in two. -/
lemma findFirst_append (h : Separates pat s) (hpat : pat ≠ []) :
    findFirst pat (x ++ (s ++ y)) =
      match findFirst pat x with
      | some (before, after) => some (before, after ++ (s ++ y))
      | none => (findFirst pat y).map fun found => (x ++ (s ++ found.1), found.2) := by
  rcases h.cases with ⟨c, hc, rfl⟩ | ⟨c, m, d, hc, hd, rfl⟩
  · simpa using findFirst_append_sep hc hpat
  · have hm : findFirst pat m = none := by
      refine findFirst_eq_none_iff.mpr fun hin => h.absent ?_
      exact hin.trans ⟨[c], [d], by simp⟩
    have hcut : x ++ (c :: (m ++ [d]) ++ y) = x ++ c :: (m ++ d :: y) := by simp
    rw [hcut, findFirst_append_sep hc hpat, findFirst_append_sep hd hpat, hm]
    cases findFirst pat x with
    | none => simp [Function.comp_def]
    | some found => simp

/-- No occurrence reaches across it. -/
lemma infix_append_iff (h : Separates pat s) (hpat : pat ≠ []) :
    pat <:+: x ++ (s ++ y) ↔ pat <:+: x ∨ pat <:+: y := by
  rw [← not_iff_not, not_or, ← findFirst_eq_none_iff, ← findFirst_eq_none_iff,
    ← findFirst_eq_none_iff, h.findFirst_append hpat]
  cases findFirst pat x with
  | none => simp
  | some found => simp

/-- No occurrence begins within it. -/
lemma findFirst_left (h : Separates pat s) (hpat : pat ≠ []) :
    findFirst pat (s ++ y) = (findFirst pat y).map fun found => (s ++ found.1, found.2) := by
  have hcut := h.findFirst_append (x := []) (y := y) hpat
  rw [findFirst, if_neg hpat] at hcut
  simpa using hcut

/-- Before the pattern itself. -/
lemma findFirst_pat (h : Separates pat s) (hpat : pat ≠ []) :
    findFirst pat (s ++ (pat ++ y)) = some (s, y) := by
  rw [h.findFirst_left hpat, findFirst_append_self]
  simp

end Separates

/-! ### Replacement strings -/

/-- `GetSubstitution`: what the dollar sequences of a replacement string stand
for when the pattern is a string. -/
def expand (matched before after : List Char) : List Char → List Char
  | '$' :: '$' :: rest => '$' :: expand matched before after rest
  | '$' :: '&' :: rest => matched ++ expand matched before after rest
  | '$' :: '`' :: rest => before ++ expand matched before after rest
  | '$' :: '\'' :: rest => after ++ expand matched before after rest
  | c :: rest => c :: expand matched before after rest
  | [] => []

/-- The replacement string has a dollar sequence. -/
def hasSequence : List Char → Bool
  | '$' :: '$' :: _ | '$' :: '&' :: _ | '$' :: '`' :: _ | '$' :: '\'' :: _ => true
  | _ :: rest => hasSequence rest
  | [] => false

variable {matched before after value t t' : List Char} {c : Char}

/-- Without dollar sequences a replacement string stands for itself. -/
lemma expand_of_not_hasSequence (h : hasSequence value = false) :
    expand matched before after value = value := by
  fun_induction expand matched before after value <;> simp_all [hasSequence]

/-- A run of one letter before the same letter. -/
lemma replicate_append_self (k : ℕ) (c : Char) (s : List Char) :
    List.replicate k c ++ c :: s = c :: (List.replicate k c ++ s) := by
  rw [List.append_cons, ← List.replicate_succ', List.replicate_succ, List.cons_append]

/-- The text begins with something else than a dollar. -/
def BeginsPlain (text : List Char) : Prop := ∃ c l, text = c :: l ∧ c ≠ '$'

lemma BeginsPlain.append (h : BeginsPlain t) (t' : List Char) : BeginsPlain (t ++ t') := by
  obtain ⟨c, l, rfl, hc⟩ := h
  exact ⟨c, l ++ t', rfl, hc⟩

/-- As many dollars as the expanded text begins with, the replacement string
begins with too. -/
lemma expand_dollars (hmatched : BeginsPlain matched) (hbefore : BeginsPlain before)
    (hafter : BeginsPlain after) (ht' : BeginsPlain t') (value : List Char) :
    ∃ k c rest rest', value = List.replicate k '$' ++ rest ∧ c ≠ '$' ∧
      expand matched before after value ++ t' = List.replicate k '$' ++ c :: rest' := by
  obtain ⟨a, l, rfl, ha⟩ := hmatched
  obtain ⟨b, m, rfl, hb⟩ := hbefore
  obtain ⟨d, n, rfl, hd⟩ := hafter
  obtain ⟨e, o, rfl, he⟩ := ht'
  fun_induction expand (a :: l) (b :: m) (d :: n) value with
  | case1 rest ih =>
      obtain ⟨k, c, r, r', hvalue, hc, hexpand⟩ := ih
      refine ⟨k + 1, c, '$' :: r, r', ?_, hc, ?_⟩
      · rw [hvalue, replicate_append_self, List.replicate_succ, List.cons_append]
      · rw [List.cons_append, hexpand, List.replicate_succ, List.cons_append]
  | case2 rest ih => exact ⟨0, a, _, _, rfl, ha, rfl⟩
  | case3 rest ih => exact ⟨0, b, _, _, rfl, hb, rfl⟩
  | case4 rest ih => exact ⟨0, d, _, _, rfl, hd, rfl⟩
  | case5 c rest h1 h2 h3 h4 ih =>
      by_cases hc : c = '$'
      · obtain ⟨k, x, r, r', hvalue, hx, hexpand⟩ := ih
        refine ⟨k + 1, x, r, r', ?_, hx, ?_⟩
        · rw [hc, List.replicate_succ, List.cons_append, ← hvalue]
        · rw [hc, List.cons_append, hexpand, List.replicate_succ, List.cons_append]
      · exact ⟨0, c, _, _, rfl, hc, rfl⟩
  | case6 => exact ⟨0, e, _, _, rfl, he, rfl⟩

/-- The first place where the second text is not the first one holds a dollar
of the first. -/
def PartsAtDollar (v w : List Char) : Prop :=
  ∃ p c s s', v = p ++ '$' :: s ∧ c ≠ '$' ∧ w = p ++ c :: s'

namespace PartsAtDollar

variable {v w b a r : List Char} {h u : Char}

lemma append_left (hvw : PartsAtDollar v w) (x : List Char) :
    PartsAtDollar (x ++ v) (x ++ w) := by
  obtain ⟨p, c, s, s', rfl, hc, rfl⟩ := hvw
  exact ⟨x ++ p, c, s, s', by rw [List.append_assoc], hc, by rw [List.append_assoc]⟩

lemma ne (hvw : PartsAtDollar v w) : w ≠ v := by
  obtain ⟨p, c, s, s', rfl, hc, rfl⟩ := hvw
  exact fun heq => hc (List.cons.inj (List.append_cancel_left heq)).1

/-- They stay apart when something in the second is replaced by a text that
begins otherwise. -/
lemma ne_of_replaced (hvw : PartsAtDollar v (b ++ u :: a)) (hu : h ≠ u) (hd : h ≠ '$') :
    b ++ h :: r ≠ v := by
  obtain ⟨p, c, s, s', rfl, hc, htext⟩ := hvw
  intro heq
  rcases List.append_eq_append_iff.mp htext with ⟨m, rfl, hm⟩ | ⟨m, rfl, hm⟩
  · cases m <;> simp_all
  · cases m <;> simp_all

end PartsAtDollar

/-- A replacement string with a dollar sequence parts from what it stands for
at a dollar. -/
lemma expand_parts (hmatched : BeginsPlain matched) (hbefore : BeginsPlain before)
    (hafter : BeginsPlain after) (ht' : BeginsPlain t') (hvalue : hasSequence value = true) :
    PartsAtDollar (value ++ t) (expand matched before after value ++ t') := by
  fun_induction expand matched before after value with
  | case1 rest ih =>
      obtain ⟨k, c, r, r', hrest, hc, hexpand⟩ :=
        expand_dollars hmatched hbefore hafter ht' rest
      refine ⟨List.replicate (k + 1) '$', c, r ++ t, r', ?_, hc, ?_⟩
      · simp [hrest, List.replicate_succ, replicate_append_self]
      · rw [List.cons_append, hexpand, List.replicate_succ, List.cons_append]
  | case2 rest ih =>
      obtain ⟨a, l, rfl, ha⟩ := hmatched
      exact ⟨[], a, _, _, rfl, ha, rfl⟩
  | case3 rest ih =>
      obtain ⟨b, m, rfl, hb⟩ := hbefore
      exact ⟨[], b, _, _, rfl, hb, rfl⟩
  | case4 rest ih =>
      obtain ⟨d, n, rfl, hd⟩ := hafter
      exact ⟨[], d, _, _, rfl, hd, rfl⟩
  | case5 c rest h1 h2 h3 h4 ih =>
      have hrest : hasSequence rest = true := by
        rw [hasSequence] at hvalue <;> assumption
      exact (ih hrest).append_left [c]
  | case6 => cases hvalue

/-- A replacement begins with what its string begins with. -/
lemma expand_cons (hc : c ≠ '$') (l : List Char) :
    expand matched before after (c :: l) = c :: expand matched before after l := by
  rw [expand] <;> simp [hc]

/-! ### Texts that commute -/

variable {P : List α → Prop} {u : List α}

omit [DecidableEq α] in
/-- A property that concatenation and cutting off an end keep passes to every
text that commutes with one that has it. -/
lemma of_commute (happend : ∀ {x y}, P x → P y → P (x ++ y)) (hcut : ∀ {x y}, P (x ++ y) → P x)
    (hne : u ≠ []) (hu : P u) (hcomm : u ++ s = s ++ u) : P s := by
  induction h : s.length using Nat.strong_induction_on generalizing s with
  | _ n ih =>
      rcases List.append_eq_append_iff.mp hcomm with ⟨v, hs, hv⟩ | ⟨v, hs, -⟩
      · -- `s` begins with `u`: what is left commutes with `u` too.
        have hlen : v.length < n := by
          have := List.length_pos_iff.mpr hne
          have := congrArg List.length hs
          rw [List.length_append] at this
          omega
        have hrest : u ++ v = v ++ u := by
          rw [← hs, hv]
        exact hs ▸ happend hu (ih v.length hlen hrest rfl)
      · exact hcut (hs ▸ hu)

end Replace
