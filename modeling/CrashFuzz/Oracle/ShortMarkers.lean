import CrashFuzz.Oracle.AckLog

/-!
Markers that were written short. A driver that writes on records the rest of the
text as a marker of its own, and no rest of a text that starts with its `op` field
has that field.

* `infix_of_get?_fields`: a field is found where its name is, before a `=`.
* `Inert`: a text without `p=`, as the other fields are (`inert_pairs`).
* `get?_op_rest`: what is read of a rest.
-/

namespace CrashFuzz

/-- A piece of a list that was split is a part of it. -/
lemma infix_of_mem_splitOnP {α : Type} {p : α → Bool} {l piece : List α}
    (h : piece ∈ l.splitOnP p) : piece <:+: l := by
  have hpieces : ∀ l : List α, (∀ piece ∈ l.splitOnP p, piece <:+: l) ∧
      ∀ piece ∈ (l.splitOnP p).head?, piece <+: l := by
    intro l
    induction l with
    | nil => simp
    | cons a l ih =>
        rw [List.splitOnP_cons_eq_if_modifyHead]
        split
        · refine ⟨fun piece hpiece => ?_, by simp⟩
          rcases List.mem_cons.mp hpiece with rfl | hpiece
          · exact List.nil_infix
          · exact List.infix_cons (ih.1 piece hpiece)
        · cases hsplit : l.splitOnP p with
          | nil => exact absurd hsplit (List.splitOnP_ne_nil p l)
          | cons first rest =>
              have hfirst : a :: first <+: a :: l := by
                rw [List.cons_prefix_cons]
                exact ⟨rfl, ih.2 first (by rw [hsplit]; rfl)⟩
              refine ⟨fun piece hpiece => ?_, fun piece hpiece => ?_⟩
              · rcases List.mem_cons.mp hpiece with rfl | hpiece
                · exact hfirst.isInfix
                · exact List.infix_cons (ih.1 piece (by
                    rw [hsplit]
                    exact List.mem_cons_of_mem _ hpiece))
              · obtain rfl := Option.some.inj hpiece
                exact hfirst
  exact (hpieces l).1 piece h

/-- A token sets the field it names. -/
lemma setToken_eq {pairs : OrderedMap String String} {token : List Char} :
    setToken pairs token = pairs ∨
      ∃ name value, token = name ++ '=' :: value ∧
        setToken pairs token = pairs.set (String.ofList name) (String.ofList value) := by
  rw [setToken]
  split
  · next c name e value hname hvalue =>
      refine .inr ⟨c :: name, value, ?_, rfl⟩
      have he : e = '=' := by
        have hstop : ∀ l : List Char, ∀ a ∈ (l.dropWhile (· ≠ '=')).head?, a = '=' := by
          intro l a ha
          have hnot := List.head?_dropWhile_not (· ≠ '=') l
          rw [Option.mem_def.mp ha] at hnot
          simpa using hnot
        exact hstop token e (by rw [hvalue]; rfl)
      rw [← he, ← hname, ← hvalue, List.takeWhile_append_dropWhile]
  · exact .inl rfl

/-- A field is found where its name is, before a `=`. -/
lemma infix_of_get?_fields {text name value : String}
    (h : (fields text).get? name = some value) : name.toList ++ ['='] <:+: text.toList := by
  have hfold : ∀ (pieces : List (List Char)) (pairs : OrderedMap String String),
      (pieces.foldl setToken pairs).get? name = some value →
        pairs.get? name = some value ∨ ∃ piece ∈ pieces, name.toList ++ ['='] <:+: piece := by
    intro pieces
    induction pieces with
    | nil => exact fun _ hget => .inl hget
    | cons piece pieces ih =>
        intro pairs hget
        rcases ih _ hget with hset | ⟨q, hq, hin⟩
        · rcases @setToken_eq pairs piece with hkept | ⟨n, v, rfl, hnew⟩
          · exact .inl (hkept ▸ hset)
          · rw [hnew, OrderedMap.get?_set] at hset
            split at hset
            · next hname =>
                refine .inr ⟨_, List.mem_cons_self, [], v, ?_⟩
                rw [hname, String.toList_ofList]
                simp
            · exact .inl hset
        · exact .inr ⟨q, List.mem_cons_of_mem piece hq, hin⟩
  rcases hfold _ _ h with hnone | ⟨piece, hpiece, hin⟩
  · cases hnone
  · exact hin.trans (infix_of_mem_splitOnP hpiece)

/-- No `=` comes right after a `p`. -/
def Inert (cs : List Char) : Prop := cs.IsChain fun a b => ¬(a = 'p' ∧ b = '=')

lemma inert_of_notMem {cs : List Char} (h : '=' ∉ cs) : Inert cs := by
  refine List.Pairwise.isChain (List.pairwise_of_forall_mem_list fun a _ b hb hab => ?_)
  exact h (hab.2 ▸ hb)

/-- A field whose name does not end in a `p`. -/
lemma inert_field {name value : List Char} (hname : '=' ∉ name) (hlast : 'p' ∉ name.getLast?)
    (hvalue : '=' ∉ value) : Inert (name ++ '=' :: value) := by
  refine List.IsChain.append (inert_of_notMem hname) ?_ fun a ha b hb hab => ?_
  · rw [List.isChain_cons]
    exact ⟨fun b _ hab => absurd hab.1 (by decide), inert_of_notMem hvalue⟩
  · exact hlast (hab.1 ▸ ha)

/-- Fields whose names do not. -/
lemma inert_pairs {pairs : List (String × String)}
    (h : ∀ q ∈ pairs, '=' ∉ q.1.toList ∧ 'p' ∉ q.1.toList.getLast? ∧ '=' ∉ q.2.toList) :
    Inert (pairsText pairs).toList := by
  rw [pairsText, String.toList_ofList]
  induction pairs with
  | nil => exact List.IsChain.nil
  | cons q pairs ih =>
      have hfield : Inert (q.1.toList ++ '=' :: q.2.toList) :=
        inert_field (h q List.mem_cons_self).1 (h q List.mem_cons_self).2.1
          (h q List.mem_cons_self).2.2
      have hrest := ih fun r hr => h r (List.mem_cons_of_mem q hr)
      by_cases hnil : pairs = []
      · subst hnil
        simpa using hfield
      · rw [List.map_cons, List.intercalate_cons_of_ne_nil (by simpa using hnil),
          List.append_assoc]
        refine List.IsChain.append hfield
          (List.IsChain.append (List.isChain_singleton _) hrest ?_) ?_
        · intro a ha b _ hab
          obtain rfl := Option.some.inj ha
          exact absurd hab.1 (by decide)
        · intro a _ b hb hab
          obtain rfl := Option.some.inj hb
          exact absurd hab.2 (by decide)

/-- **What is read of a rest**: no `op` field. -/
lemma get?_op_rest {op : String} {pairs : List (String × String)} {rest : List Char}
    (hop : '=' ∉ op.toList)
    (h : ∀ q ∈ pairs, '=' ∉ q.1.toList ∧ 'p' ∉ q.1.toList.getLast? ∧ '=' ∉ q.2.toList)
    (hrest : rest <:+ (pairsText (("op", op) :: pairs)).toList)
    (hne : rest ≠ (pairsText (("op", op) :: pairs)).toList) :
    (fields (String.ofList rest)).get? "op" = none := by
  -- after its name the text is that of a field without one
  have hinert : Inert (pairsText (("", op) :: pairs)).toList :=
    inert_pairs (List.forall_mem_cons.mpr ⟨⟨by simp, by simp, hop⟩, h⟩)
  have htext : (pairsText (("op", op) :: pairs)).toList =
      'o' :: 'p' :: (pairsText (("", op) :: pairs)).toList := by
    simp only [pairsText, String.toList_ofList, List.map_cons]
    cases pairs with
    | nil => rfl
    | cons q pairs =>
        rw [List.map_cons, List.intercalate_cons_cons, List.intercalate_cons_cons]
        rfl
  have hsuffix : rest <:+ 'p' :: (pairsText (("", op) :: pairs)).toList := by
    rw [htext, List.suffix_cons_iff] at hrest
    exact hrest.resolve_left (htext ▸ hne)
  by_contra hsome
  obtain ⟨value, hvalue⟩ := Option.ne_none_iff_exists'.mp hsome
  have hin := (infix_of_get?_fields hvalue).trans
    ((String.toList_ofList (l := rest)).symm ▸ hsuffix.isInfix)
  have hname : "op".toList ++ ['='] = ['o', 'p', '='] := rfl
  rw [hname, List.infix_cons_iff] at hin
  rcases hin with hprefix | hin
  · rw [List.cons_prefix_cons] at hprefix
    exact absurd hprefix.1 (by decide)
  · have hmark := hinert.infix hin
    rw [List.isChain_cons_cons, List.isChain_cons_cons] at hmark
    exact hmark.2.1 ⟨rfl, rfl⟩

end CrashFuzz
