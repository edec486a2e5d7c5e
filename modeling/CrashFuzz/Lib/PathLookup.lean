import CrashFuzz.Lib.PosixPath

/-!
Path lookup in a file tree with symbolic links.

* `Entry`, `Tree`: what stands at a location of the tree.
* `Names`: following the components of a path from a directory ends at a
  location. Links are followed on the way, and at its end.
* `Canonical`: a location with no link on the way. A lookup that starts at one
  ends at one (`Names.canonical`).
* `Straight`: a path that spells out the entries it passes: each component is
  the name of one, and none of them is a link.
* `Names.eq_append_iff`: a lookup ends at its start followed by the components
  of the path exactly when the path is straight.
* `unsplit_append_iff`: the same for the texts of the two locations.
-/

namespace PathLookup

open PosixPath

/-- What stands at a location. -/
inductive Entry where
  | file
  | dir
  | symlink (target : Chars)
  deriving DecidableEq, Repr

/-- A file tree. -/
abbrev Tree := List Chars → Option Entry

def IsLink (fs : Tree) (loc : List Chars) : Prop := ∃ target, fs loc = some (.symlink target)

/-- Following the components `cs` from the directory `base` ends at `loc`. -/
inductive Names (fs : Tree) : List Chars → List Chars → List Chars → Prop
  | here {loc : List Chars} {entry : Entry} (h : fs loc = some entry) : Names fs loc [] loc
  | stay {base cs loc : List Chars} {c : Chars} (hdir : fs base = some .dir)
      (hc : c = [] ∨ c = ['.']) (h : Names fs base cs loc) : Names fs base (c :: cs) loc
  | up {base cs loc : List Chars} (hdir : fs base = some .dir)
      (h : Names fs base.dropLast cs loc) : Names fs base (dotdot :: cs) loc
  | down {base cs loc : List Chars} {c : Chars} (hdir : fs base = some .dir) (hc : Proper c)
      (hentry : ¬ IsLink fs (base ++ [c])) (h : Names fs (base ++ [c]) cs loc) :
      Names fs base (c :: cs) loc
  | follow {base cs loc : List Chars} {c target : Chars} (hdir : fs base = some .dir)
      (hc : Proper c) (hlink : fs (base ++ [c]) = some (.symlink target))
      (h : Names fs (if isAbsolute target then [] else base) (split target ++ cs) loc) :
      Names fs base (c :: cs) loc

/-- A location of proper components with no link on the way to it. -/
structure Canonical (fs : Tree) (loc : List Chars) : Prop where
  proper : ∀ c ∈ loc, Proper c
  noLink : ∀ pre, pre <+: loc → ¬ IsLink fs pre

/-- A path that spells out the entries it passes. -/
structure Straight (fs : Tree) (base cs : List Chars) : Prop where
  proper : ∀ c ∈ cs, Proper c
  noLink : ∀ pre, pre <+: cs → ¬ IsLink fs (base ++ pre)

variable {fs : Tree} {base cs loc : List Chars}

lemma not_skipped {c : Chars} (hc : Proper c) : ¬ (c = [] ∨ c = ['.']) :=
  not_or.mpr ⟨hc.1, hc.2.1⟩

/-- **A lookup ends at one location.** -/
lemma Names.unique {loc' : List Chars} (h : Names fs base cs loc) (h' : Names fs base cs loc') :
    loc = loc' := by
  induction h with
  | here =>
      cases h'
      rfl
  | stay _ hskip _ ih =>
      cases h' with
      | stay _ _ h' => exact ih h'
      | up _ _ => simp [dotdot] at hskip
      | down _ hc _ _ | follow _ hc _ _ => exact absurd hskip (not_skipped hc)
  | up _ _ ih =>
      cases h' with
      | stay _ hskip _ => simp [dotdot] at hskip
      | up _ h' => exact ih h'
      | down _ hc _ _ | follow _ hc _ _ => exact absurd rfl hc.2.2.1
  | down _ hc hentry _ ih =>
      cases h' with
      | stay _ hskip _ => exact absurd hskip (not_skipped hc)
      | up _ _ => exact absurd rfl hc.2.2.1
      | down _ _ _ h' => exact ih h'
      | follow _ _ hlink _ => exact absurd ⟨_, hlink⟩ hentry
  | follow _ hc hlink _ ih =>
      cases h' with
      | stay _ hskip _ => exact absurd hskip (not_skipped hc)
      | up _ _ => exact absurd rfl hc.2.2.1
      | down _ _ hentry _ => exact absurd ⟨_, hlink⟩ hentry
      | follow _ _ hlink' h' =>
          rw [hlink] at hlink'
          cases hlink'
          exact ih h'

/-! ### Canonical locations -/

lemma canonical_nil (hroot : ¬ IsLink fs []) : Canonical fs [] where
  proper := List.forall_mem_nil _
  noLink := fun pre hpre => by
    rw [List.prefix_nil.mp hpre]
    exact hroot

lemma Canonical.dropLast (h : Canonical fs loc) : Canonical fs loc.dropLast where
  proper := fun c hc => h.proper c (List.mem_of_mem_dropLast hc)
  noLink := fun pre hpre => h.noLink pre (hpre.trans (List.dropLast_prefix loc))

lemma Canonical.concat {c : Chars} (h : Canonical fs loc) (hc : Proper c)
    (hentry : ¬ IsLink fs (loc ++ [c])) : Canonical fs (loc ++ [c]) where
  proper := fun d hd => by
    rcases List.mem_append.mp hd with hd | hd
    · exact h.proper d hd
    · rw [List.mem_singleton.mp hd]
      exact hc
  noLink := fun pre hpre => by
    rcases List.prefix_concat_iff.mp hpre with rfl | hpre
    · exact hentry
    · exact h.noLink pre hpre

/-- **A lookup ends at a canonical location** if it starts at one. -/
lemma Names.canonical (hroot : ¬ IsLink fs []) (h : Names fs base cs loc)
    (hbase : Canonical fs base) : Canonical fs loc := by
  induction h with
  | here => exact hbase
  | stay _ _ _ ih => exact ih hbase
  | up _ _ ih => exact ih hbase.dropLast
  | down _ hc hentry _ ih => exact ih (hbase.concat hc hentry)
  | follow _ _ _ _ ih =>
      refine ih ?_
      split
      · exact canonical_nil hroot
      · exact hbase

/-! ### Straight paths -/

lemma Straight.tail {c : Chars} (h : Straight fs base (c :: cs)) :
    Straight fs (base ++ [c]) cs where
  proper := fun d hd => h.proper d (List.mem_cons_of_mem c hd)
  noLink := fun pre hpre => by
    have hpre' : c :: pre <+: c :: cs := (List.prefix_cons_inj c).mpr hpre
    rw [List.append_assoc]
    exact h.noLink (c :: pre) hpre'

lemma Straight.eq_append (h : Names fs base cs loc) (hstraight : Straight fs base cs) :
    loc = base ++ cs := by
  induction h with
  | here => rw [List.append_nil]
  | stay _ hskip _ _ =>
      exact absurd hskip (not_skipped (hstraight.proper _ List.mem_cons_self))
  | up _ _ _ => exact absurd rfl (hstraight.proper _ List.mem_cons_self).2.2.1
  | down _ _ _ _ ih => rw [ih hstraight.tail, List.append_assoc, List.singleton_append]
  | follow _ _ hlink _ _ =>
      have hfirst : ∀ (c : Chars) (cs : List Chars), [c] <+: c :: cs := fun c cs => ⟨cs, rfl⟩
      exact absurd ⟨_, hlink⟩ (hstraight.noLink _ (hfirst _ _))

/-- **Where a straight path leads**, and only a straight one. -/
theorem Names.eq_append_iff (hroot : ¬ IsLink fs []) (hbase : Canonical fs base)
    (h : Names fs base cs loc) : loc = base ++ cs ↔ Straight fs base cs := by
  refine ⟨fun heq => ?_, fun hstraight => hstraight.eq_append h⟩
  have hloc := h.canonical hroot hbase
  rw [heq] at hloc
  exact {
    proper := fun c hc => hloc.proper c (List.mem_append_right base hc)
    noLink := fun pre hpre => hloc.noLink _ ((List.prefix_append_right_inj base).mpr hpre) }

/-! ### Texts of locations -/

/-- The text of a location followed by a slash and a path is the text of
another exactly when the components are. -/
lemma unsplit_append_iff {path : Chars} (hbase : ∀ c ∈ base, Proper c)
    (hloc : ∀ c ∈ loc, Proper c) :
    '/' :: unsplit base ++ '/' :: path = '/' :: unsplit loc ↔
      base ≠ [] ∧ loc = base ++ split path := by
  have hslash : ∀ c ∈ loc, '/' ∉ c := fun c hc => (hloc c hc).2.2.2
  rw [List.cons_append, List.cons.injEq, eq_self, true_and]
  constructor
  · intro heq
    have hne : loc ≠ [] := by
      rintro rfl
      simp [unsplit] at heq
    have hsplit := congrArg split heq
    rw [split_append, split_unsplit hne hslash] at hsplit
    by_cases hnil : base = []
    · -- below the root the text has an empty component
      subst hnil
      have hempty : ([] : Chars) ∈ loc := by
        rw [← hsplit]
        simp [unsplit]
      exact absurd rfl (hloc [] hempty).1
    · rw [split_unsplit hnil fun c hc => (hbase c hc).2.2.2] at hsplit
      exact ⟨hnil, hsplit.symm⟩
  · rintro ⟨hnil, hloceq⟩
    have hne : loc ≠ [] := by
      rw [hloceq]
      exact fun h => hnil (List.append_eq_nil_iff.mp h).1
    have hsplit : split (unsplit base ++ '/' :: path) = loc := by
      rw [split_append, split_unsplit hnil fun c hc => (hbase c hc).2.2.2, hloceq]
    calc unsplit base ++ '/' :: path
        = unsplit (split (unsplit base ++ '/' :: path)) := (List.intercalate_splitOn '/').symm
      _ = unsplit loc := by rw [hsplit]

end PathLookup
