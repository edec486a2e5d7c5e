import Mathlib.Tactic

/-!
POSIX path arithmetic on character lists: `normalize`, `join`, `resolve`,
`relative` and `dirname` with the documented behaviour of a path module.

A path is a list of characters; its components are what lies between the
slashes. `push` is one step of the component stack: empty components and `.`
are dropped, `..` cancels the component below it, and at the bottom it is
dropped from an absolute path and kept in a relative one. `resolve` gives the
absolute location a path denotes as a list of components.

The results the clients use:

* `resolve_proper`: a location holds proper components only;
* `resolve_join`: joining two paths and resolving is resolving the second at
  the location of the first;
* `resolve_join_relative`: the location of `join target (relative root path)`
  in terms of the three locations, climbing out of `root` included;
* `resolve_dirname`: the directory part of a normalized path.
-/

namespace PosixPath

/-- A path, or one of its components, as a list of characters. -/
abbrev Chars := List Char

/-- The component `..`. -/
def dotdot : Chars := ['.', '.']

/-- What lies between the slashes of a path. -/
def split (p : Chars) : List Chars := p.splitOn '/'

/-- Components put back together with slashes between them. -/
def unsplit (cs : List Chars) : Chars := ['/'].intercalate cs

def isAbsolute (p : Chars) : Bool := p.head? = some '/'

/-- The effect of `..` on the component stack, whose top is the head of the
list. -/
def climb (absolute : Bool) : List Chars → List Chars
  | [] => if absolute then [] else [dotdot]
  | top :: rest => if top = dotdot then dotdot :: top :: rest else rest

/-- One component pushed on the stack. -/
def push (absolute : Bool) (stack : List Chars) (c : Chars) : List Chars :=
  if c = [] ∨ c = ['.'] then stack
  else if c = dotdot then climb absolute stack
  else c :: stack

/-- The normalized components of a path. -/
def components (absolute : Bool) (p : Chars) : List Chars :=
  ((split p).foldl (push absolute) []).reverse

/-- Normalized components written out, with the leading and the trailing slash
of the path they came from. -/
def render (absolute trailing : Bool) (cs : List Chars) : Chars :=
  if unsplit cs = [] then if absolute then ['/'] else if trailing then ['.', '/'] else ['.']
  else (if absolute then ['/'] else []) ++ unsplit cs ++ if trailing then ['/'] else []

/-- `normalize`: dot components resolved, repeated slashes merged, a trailing
slash kept. -/
def normalize (p : Chars) : Chars :=
  if p = [] then ['.']
  else render (isAbsolute p) (p.getLast? = some '/') (components (isAbsolute p) p)

/-- `join` of two paths: the non-empty ones with a slash between them,
normalized. -/
def join (a b : Chars) : Chars :=
  normalize (if a = [] then b else if b = [] then a else a ++ '/' :: b)

/-- The absolute location a path denotes from the working directory `cwd`. -/
def resolve (cwd p : Chars) : List Chars :=
  components true (if isAbsolute p then p else cwd ++ '/' :: p)

/-- The length of the longest common prefix of two lists. -/
def commonLength : List Chars → List Chars → ℕ
  | a :: as, b :: bs => if a = b then commonLength as bs + 1 else 0
  | _, _ => 0

/-- `relative`: one `..` for each component of `source` below the common
prefix, then the rest of `dest`. -/
def relative (cwd source dest : Chars) : Chars :=
  let f := resolve cwd source
  let t := resolve cwd dest
  unsplit (List.replicate (f.length - commonLength f t) dotdot ++ t.drop (commonLength f t))

/-- `dirname`: everything before the last slash, trailing slashes ignored. -/
def dirname (p : Chars) : Chars :=
  match (p.reverse.dropWhile (· = '/')).dropWhile (· ≠ '/') with
  | [] => if isAbsolute p then ['/'] else ['.']
  | _ :: before =>
      if before = [] then ['/'] else if before = ['/'] then ['/', '/'] else before.reverse

/-! ### Splitting -/

@[simp] lemma split_nil : split [] = [[]] := rfl

lemma split_append (a b : Chars) : split (a ++ '/' :: b) = split a ++ split b :=
  List.splitOn_append_cons_self a b

/-- No piece of a split list has the separator in it. -/
lemma notMem_of_mem_splitOn {α : Type} [DecidableEq α] {a : α} {xs l : List α}
    (h : l ∈ xs.splitOn a) : a ∉ l := by
  induction xs generalizing l with
  | nil =>
      rw [List.splitOn_nil, List.mem_singleton] at h
      simp [h]
  | cons x xs ih =>
      obtain ⟨y, ys, hys⟩ := List.exists_cons_of_ne_nil (List.splitOn_ne_nil a xs)
      rw [List.splitOn_cons_eq_if_modifyHead, hys] at h
      rw [hys] at ih
      split at h
      · rcases List.mem_cons.mp h with rfl | h
        · exact List.not_mem_nil
        · exact ih h
      · rename_i hx
        rcases List.mem_cons.mp h with rfl | h
        · have hne : a ≠ x := fun he => hx (by simp [he])
          simpa [hne] using ih List.mem_cons_self
        · exact ih (List.mem_cons_of_mem y h)

lemma slash_notMem_split {p c : Chars} (h : c ∈ split p) : '/' ∉ c := notMem_of_mem_splitOn h

lemma split_unsplit {cs : List Chars} (hne : cs ≠ []) (h : ∀ c ∈ cs, '/' ∉ c) :
    split (unsplit cs) = cs := List.splitOn_intercalate '/' h hne

/-! ### Proper components and the stack -/

/-- A component that names a directory entry. -/
def Proper (c : Chars) : Prop := c ≠ [] ∧ c ≠ ['.'] ∧ c ≠ dotdot ∧ '/' ∉ c

lemma push_proper {absolute : Bool} {stack : List Chars} {c : Chars} (h : Proper c) :
    push absolute stack c = c :: stack := by
  simp [push, h.1, h.2.1, h.2.2.1]

@[simp] lemma push_dotdot (absolute : Bool) (stack : List Chars) :
    push absolute stack dotdot = climb absolute stack := by
  simp [push, dotdot]

lemma climb_proper {absolute : Bool} {stack : List Chars} {c : Chars} (h : Proper c) :
    climb absolute (c :: stack) = stack := by
  simp [climb, h.2.2.1]

lemma foldl_push_proper {absolute : Bool} {stack cs : List Chars} (h : ∀ c ∈ cs, Proper c) :
    cs.foldl (push absolute) stack = cs.reverse ++ stack := by
  induction cs generalizing stack with
  | nil => rfl
  | cons c cs ih =>
      rw [List.foldl_cons, push_proper (h c (by simp)), ih fun d hd => h d (by simp [hd])]
      simp

/-- What a stack can hold: proper components, and `..` in a relative path. -/
def Pushed (absolute : Bool) (c : Chars) : Prop :=
  Proper c ∨ (absolute = false ∧ c = dotdot)

lemma pushed_push {absolute : Bool} {stack : List Chars} {c : Chars}
    (hs : ∀ d ∈ stack, Pushed absolute d) (hc : '/' ∉ c) :
    ∀ d ∈ push absolute stack c, Pushed absolute d := by
  by_cases h1 : c = [] ∨ c = ['.']
  · simpa [push, h1] using hs
  by_cases h2 : c = dotdot
  · rw [h2, push_dotdot]
    cases stack with
    | nil => cases absolute <;> simp [climb, Pushed]
    | cons top rest =>
        have hrest : ∀ d ∈ rest, Pushed absolute d := fun d hd => hs d (by simp [hd])
        rcases hs top (by simp) with hp | ⟨hab, rfl⟩
        · rwa [climb_proper hp]
        · simp only [climb, if_true, List.forall_mem_cons]
          exact ⟨Or.inr ⟨hab, rfl⟩, Or.inr ⟨hab, rfl⟩, hrest⟩
  · have hp : Proper c := ⟨fun h => h1 (Or.inl h), fun h => h1 (Or.inr h), h2, hc⟩
    rw [push_proper hp]
    simpa using ⟨Or.inl hp, hs⟩

lemma pushed_foldl {absolute : Bool} {cs stack : List Chars}
    (hs : ∀ d ∈ stack, Pushed absolute d) (hcs : ∀ c ∈ cs, '/' ∉ c) :
    ∀ d ∈ cs.foldl (push absolute) stack, Pushed absolute d := by
  induction cs generalizing stack with
  | nil => exact hs
  | cons c cs ih =>
      exact ih (pushed_push hs (hcs c (by simp))) fun d hd => hcs d (by simp [hd])

lemma pushed_components {absolute : Bool} {p c : Chars} (h : c ∈ components absolute p) :
    Pushed absolute c :=
  pushed_foldl (by simp) (fun _ => slash_notMem_split) c (List.mem_reverse.mp h)

/-- A location holds proper components only. -/
lemma resolve_proper {cwd p c : Chars} (h : c ∈ resolve cwd p) : Proper c := by
  rcases pushed_components h with hp | hp
  · exact hp
  · simp at hp

/-- Pushing the normalized components of a relative path has the effect of
pushing the path itself. -/
lemma foldl_components {p : Chars} {stack : List Chars} :
    (components false p).foldl (push true) stack = (split p).foldl (push true) stack := by
  have key : ∀ cs : List Chars, (∀ c ∈ cs, '/' ∉ c) →
      ((cs.foldl (push false) []).reverse).foldl (push true) stack =
        cs.foldl (push true) stack := by
    intro cs
    induction cs using List.reverseRecOn with
    | nil => intro _; rfl
    | append_singleton cs c ih =>
        intro hslash
        have hcs : ∀ d ∈ cs, '/' ∉ d := fun d hd => hslash d (by simp [hd])
        have ih := ih hcs
        have hpushed : ∀ d ∈ cs.foldl (push false) [], Pushed false d :=
          pushed_foldl (by simp) hcs
        rw [List.foldl_append, List.foldl_append, List.foldl_cons, List.foldl_nil,
          List.foldl_cons, List.foldl_nil, ← ih]
        generalize cs.foldl (push false) [] = st at hpushed
        by_cases h1 : c = [] ∨ c = ['.']
        · simp [push, h1]
        by_cases h2 : c = dotdot
        · subst h2
          rw [push_dotdot, push_dotdot]
          cases st with
          | nil => simp [climb]
          | cons top rest =>
              rcases hpushed top (by simp) with hp | ⟨-, rfl⟩
              · rw [climb_proper hp, List.reverse_cons, List.foldl_append, List.foldl_cons,
                  List.foldl_nil, push_proper hp, climb_proper hp]
              · simp [climb, List.foldl_append]
        · have hp : Proper c :=
            ⟨fun h => h1 (Or.inl h), fun h => h1 (Or.inr h), h2, hslash c (by simp)⟩
          rw [push_proper hp, push_proper hp, List.reverse_cons, List.foldl_append,
            List.foldl_cons, List.foldl_nil, push_proper hp]
  exact key (split p) fun _ => slash_notMem_split

/-! ### Following a path from a location -/

/-- The location reached from `base` by following the components of `p`. -/
def walk (base : List Chars) (p : Chars) : List Chars :=
  ((split p).foldl (push true) base.reverse).reverse

@[simp] lemma walk_nil (base : List Chars) : walk base [] = base := by
  simp [walk, push]

lemma walk_append (base : List Chars) (a b : Chars) :
    walk base (a ++ '/' :: b) = walk (walk base a) b := by
  simp [walk, split_append, List.foldl_append]

lemma components_true (p : Chars) : components true p = walk [] p := rfl

/-- The location of a path: an absolute one is followed from the root, a
relative one from the working directory. -/
lemma resolve_eq_walk (cwd p : Chars) :
    resolve cwd p = if isAbsolute p then walk [] p else walk (walk [] cwd) p := by
  rw [resolve, components_true]
  split
  · rfl
  · rw [walk_append]

/-- Following proper components appends them. -/
lemma walk_unsplit_proper {base cs : List Chars} (h : ∀ c ∈ cs, Proper c) :
    walk base (unsplit cs) = base ++ cs := by
  cases cs with
  | nil => simp [unsplit]
  | cons c cs =>
      rw [walk, split_unsplit (by simp) fun d hd => (h d hd).2.2.2, foldl_push_proper h]
      simp

/-- Climbing `n` times drops the last `n` components. -/
lemma foldl_replicate_dotdot {stack : List Chars} (h : ∀ c ∈ stack, Proper c) (n : ℕ) :
    (List.replicate n dotdot).foldl (push true) stack = stack.drop n := by
  induction n generalizing stack with
  | zero => rfl
  | succ n ih =>
      rw [List.replicate_succ, List.foldl_cons, push_dotdot]
      cases stack with
      | nil =>
          have hnil : ∀ c ∈ ([] : List Chars), Proper c := by simp
          simpa [climb] using ih hnil
      | cons c stack =>
          rw [climb_proper (h c (by simp)), ih fun d hd => h d (by simp [hd]), List.drop_succ_cons]

lemma slash_notMem_dotdot : '/' ∉ dotdot := by decide

/-- Following `n` climbs and then proper components. -/
lemma walk_climb {base rest : List Chars} (hbase : ∀ c ∈ base, Proper c)
    (hrest : ∀ c ∈ rest, Proper c) (n : ℕ) :
    walk base (unsplit (List.replicate n dotdot ++ rest)) =
      base.take (base.length - n) ++ rest := by
  by_cases hnil : List.replicate n dotdot ++ rest = []
  · obtain ⟨hn, rfl⟩ := List.append_eq_nil_iff.mp hnil
    obtain rfl : n = 0 := by simpa using hn
    simp [unsplit]
  · have hslash : ∀ c ∈ List.replicate n dotdot ++ rest, '/' ∉ c := by
      intro c hc
      rcases List.mem_append.mp hc with hc | hc
      · rw [List.eq_of_mem_replicate hc]
        exact slash_notMem_dotdot
      · exact (hrest c hc).2.2.2
    rw [walk, split_unsplit hnil hslash, List.foldl_append,
      foldl_replicate_dotdot (by simpa using hbase), foldl_push_proper hrest]
    simp [List.drop_reverse]

/-! ### Normalizing does not move a path -/

lemma unsplit_eq_nil {cs : List Chars} (h : ∀ c ∈ cs, c ≠ []) : unsplit cs = [] ↔ cs = [] := by
  cases cs with
  | nil => simp [unsplit]
  | cons c cs =>
      have hc := h c (by simp)
      cases cs with
      | nil => simpa [unsplit] using hc
      | cons d ds => simp [unsplit, List.intercalate_cons_cons]

lemma pushed_ne_nil {absolute : Bool} {c : Chars} (h : Pushed absolute c) : c ≠ [] := by
  rcases h with hp | ⟨-, rfl⟩
  · exact hp.1
  · simp [dotdot]

lemma slash_notMem_pushed {absolute : Bool} {c : Chars} (h : Pushed absolute c) : '/' ∉ c := by
  rcases h with hp | ⟨-, rfl⟩
  · exact hp.2.2.2
  · exact slash_notMem_dotdot

/-- Written-out components are read back as they were. -/
lemma foldl_render {absolute trailing : Bool} {cs : List Chars}
    (h : ∀ c ∈ cs, Pushed absolute c) (stack : List Chars) :
    (split (render absolute trailing cs)).foldl (push true) stack = cs.foldl (push true) stack := by
  have hlead : ∀ q : Chars, (split ('/' :: q)).foldl (push true) stack =
      (split q).foldl (push true) stack := by
    intro q
    rw [show '/' :: q = [] ++ '/' :: q from rfl, split_append]
    simp [push]
  have htrail : ∀ q : Chars, (split (q ++ ['/'])).foldl (push true) stack =
      (split q).foldl (push true) stack := by
    intro q
    rw [split_append]
    simp [List.foldl_append, push]
  by_cases hcs : cs = []
  · subst hcs
    have hdot : (split ['.']).foldl (push true) stack = stack := by
      simp [show split ['.'] = [['.']] from rfl, push]
    cases absolute <;> cases trailing
    · simpa [render, unsplit] using hdot
    · simpa [render, unsplit] using (htrail ['.']).trans hdot
    · simpa [render, unsplit, push] using hlead []
    · simpa [render, unsplit, push] using hlead []
  · have hsplit := split_unsplit hcs fun c hc => slash_notMem_pushed (h c hc)
    have hbody : unsplit cs ≠ [] := fun h' =>
      hcs ((unsplit_eq_nil fun c hc => pushed_ne_nil (h c hc)).mp h')
    rw [render, if_neg hbody]
    cases absolute <;> cases trailing <;> simp [hlead, htrail, hsplit]

lemma foldl_normalize (p : Chars) (stack : List Chars) :
    (split (normalize p)).foldl (push true) stack =
      (components (isAbsolute p) p).foldl (push true) stack := by
  rw [normalize]
  split
  · rename_i hp
    subst hp
    simp [show split ['.'] = [['.']] from rfl, components, push]
  · exact foldl_render (fun _ => pushed_components) stack

/-- Normalizing keeps a path absolute or relative. -/
lemma isAbsolute_normalize (p : Chars) : isAbsolute (normalize p) = isAbsolute p := by
  rw [normalize]
  split
  · rename_i hp
    subst hp
    rfl
  · rw [render]
    cases hab : isAbsolute p with
    | true => split <;> rfl
    | false =>
        have hpushed := fun c (hc : c ∈ components false p) => pushed_components hc
        generalize components false p = cs at hpushed
        cases cs with
        | nil =>
            simp only [unsplit, List.intercalate_nil, if_true, Bool.false_eq_true, if_false]
            split <;> rfl
        | cons c cs =>
            have hc := hpushed c (by simp)
            have hne := pushed_ne_nil hc
            have hslash := slash_notMem_pushed hc
            cases c with
            | nil => exact absurd rfl hne
            | cons x c =>
                have hx : ¬ x = '/' := fun hx => hslash (by simp [hx])
                cases cs <;>
                  simp [unsplit, List.intercalate_cons_cons, isAbsolute, hx]

/-- A normalized relative path is followed as the path itself. -/
lemma walk_normalize {p : Chars} (base : List Chars) (hp : isAbsolute p = false) :
    walk base (normalize p) = walk base p := by
  rw [walk, foldl_normalize, hp, foldl_components, walk]

/-- Normalizing does not move a path. -/
lemma resolve_normalize (cwd p : Chars) : resolve cwd (normalize p) = resolve cwd p := by
  rw [resolve_eq_walk, resolve_eq_walk, isAbsolute_normalize]
  cases hab : isAbsolute p with
  | true =>
      have hproper : ∀ c ∈ components true p, Proper c := fun c hc =>
        (pushed_components hc).resolve_right (by simp)
      simp only [if_true]
      rw [walk, foldl_normalize, hab, foldl_push_proper (by simpa using hproper), components_true]
      simp
  | false =>
      simpa using walk_normalize _ hab

/-- **Joining**: a relative path joined to `a` is followed from the location
of `a`. -/
theorem resolve_join (cwd a : Chars) {b : Chars} (hb : isAbsolute b = false) :
    resolve cwd (join a b) = walk (resolve cwd a) b := by
  rw [join, resolve_normalize]
  by_cases ha : a = []
  · subst ha
    have hnil : isAbsolute ([] : Chars) = false := rfl
    rw [if_pos rfl, resolve_eq_walk, resolve_eq_walk, hb, hnil]
    simp
  by_cases hb' : b = []
  · simp [hb', ha]
  rw [if_neg ha, if_neg hb', resolve_eq_walk, resolve_eq_walk]
  have hab : isAbsolute (a ++ '/' :: b) = isAbsolute a := by
    cases a with
    | nil => exact absurd rfl ha
    | cons x a => rfl
  rw [hab]
  split <;> rw [walk_append]

/-- A single component joined to `a` is below the location of `a`. -/
lemma resolve_join_component (cwd a : Chars) {c : Chars} (hc : Proper c) :
    resolve cwd (join a c) = resolve cwd a ++ [c] := by
  have habsolute : isAbsolute c = false := by
    rw [isAbsolute, decide_eq_false_iff_not]
    exact fun hhead => hc.2.2.2 (List.mem_of_mem_head? hhead)
  have hone : unsplit [c] = c := by simp [unsplit]
  have hwalk := @walk_unsplit_proper (resolve cwd a) [c] (by simpa using hc)
  rw [hone] at hwalk
  rw [resolve_join cwd a habsolute, hwalk]

/-! ### Relative paths -/

lemma commonLength_le : ∀ f t : List Chars, commonLength f t ≤ f.length
  | [], _ => by simp [commonLength]
  | _ :: _, [] => by simp [commonLength]
  | a :: f, b :: t => by
      have ih := commonLength_le f t
      rw [commonLength, List.length_cons]
      split <;> omega

/-- Nothing is climbed exactly when the destination lies at or below the
source. -/
lemma commonLength_eq_iff : ∀ f t : List Chars, commonLength f t = f.length ↔ f <+: t
  | [], t => by simp [commonLength]
  | _ :: _, [] => by simp [commonLength]
  | a :: f, b :: t => by
      have ih := commonLength_eq_iff f t
      rw [commonLength, List.length_cons, List.cons_prefix_cons]
      by_cases hab : a = b
      · simpa [hab] using ih
      · simp [hab]

lemma isAbsolute_unsplit {cs : List Chars} (h : ∀ c ∈ cs, c ≠ [] ∧ '/' ∉ c) :
    isAbsolute (unsplit cs) = false := by
  cases cs with
  | nil => rfl
  | cons c cs =>
      obtain ⟨hne, hslash⟩ := h c (by simp)
      cases c with
      | nil => exact absurd rfl hne
      | cons x c =>
          have hx : ¬ x = '/' := fun hx => hslash (by simp [hx])
          cases cs <;> simp [unsplit, List.intercalate_cons_cons, isAbsolute, hx]

lemma isAbsolute_relative (cwd source dest : Chars) :
    isAbsolute (relative cwd source dest) = false := by
  refine isAbsolute_unsplit fun c hc => ?_
  rcases List.mem_append.mp hc with hc | hc
  · rw [List.eq_of_mem_replicate hc]
    exact ⟨by simp [dotdot], slash_notMem_dotdot⟩
  · have hp := resolve_proper (List.mem_of_mem_drop hc)
    exact ⟨hp.1, hp.2.2.2⟩

/-- **Rebasing**: where `join target (relative root p)` leads. The components
of `root` that `p` does not share are climbed from `target`, and the rest of
`p` is appended. -/
theorem resolve_join_relative (cwd target root p : Chars) :
    resolve cwd (join target (relative cwd root p)) =
      (resolve cwd target).take ((resolve cwd target).length -
          ((resolve cwd root).length - commonLength (resolve cwd root) (resolve cwd p))) ++
        (resolve cwd p).drop (commonLength (resolve cwd root) (resolve cwd p)) := by
  rw [resolve_join _ _ (isAbsolute_relative _ _ _), relative]
  exact walk_climb (fun _ => resolve_proper)
    (fun c hc => resolve_proper (List.mem_of_mem_drop hc)) _

/-! ### The directory part -/

lemma unsplit_append_singleton (cs : List Chars) (c : Chars) :
    unsplit (cs ++ [c]) = if cs = [] then c else unsplit cs ++ '/' :: c := by
  cases cs with
  | nil => simp [unsplit]
  | cons d cs =>
      rw [if_neg (by simp)]
      induction cs generalizing d with
      | nil => simp [unsplit, List.intercalate_cons_cons]
      | cons e cs ih =>
          have ih := ih e
          simp only [unsplit, List.cons_append, List.intercalate_cons_cons] at ih ⊢
          simp [ih]

/-- A path without its last component, slashes at its end apart. -/
lemma exists_last (p : Chars) : ∃ q last n, p = q ++ last ++ List.replicate n '/' ∧
    '/' ∉ last ∧ (q = [] ∨ ∃ pre, q = pre ++ ['/']) ∧ (last = [] → q = []) := by
  induction p using List.reverseRecOn with
  | nil => exact ⟨[], [], 0, by simp⟩
  | append_singleton p c ih =>
      obtain ⟨q, last, n, rfl, hslash, hq, hlast⟩ := ih
      by_cases hc : c = '/'
      · refine ⟨q, last, n + 1, ?_, hslash, hq, hlast⟩
        rw [hc, List.replicate_succ', List.append_assoc]
      · cases n with
        | zero =>
            refine ⟨q, last ++ [c], 0, by simp, ?_, hq, by simp⟩
            simpa [hslash] using Ne.symm hc
        | succ n =>
            refine ⟨q ++ last ++ List.replicate (n + 1) '/', [c], 0, by simp, ?_, Or.inr ?_,
              by simp⟩
            · simpa using Ne.symm hc
            · exact ⟨q ++ last ++ List.replicate n '/', by rw [List.replicate_succ']; simp⟩

/-- Slashes at its end do not move a path. -/
lemma walk_append_slashes (base : List Chars) (p : Chars) (n : ℕ) :
    walk base (p ++ List.replicate n '/') = walk base p := by
  induction n with
  | zero => simp
  | succ n ih =>
      have hcat : p ++ List.replicate (n + 1) '/' = (p ++ List.replicate n '/') ++ '/' :: [] := by
        rw [List.replicate_succ', List.append_assoc]
      rw [hcat, walk_append, walk_nil, ih]

/-- What `dirname` finds before the last component. -/
lemma dropWhile_last {q last : Chars} (hne : last ≠ []) (hslash : '/' ∉ last)
    (hq : q = [] ∨ ∃ pre, q = pre ++ ['/']) (n : ℕ) :
    ((q ++ last ++ List.replicate n '/').reverse.dropWhile (· = '/')).dropWhile (· ≠ '/') =
      q.reverse := by
  have hlast : (q ++ last ++ List.replicate n '/').reverse.dropWhile (· = '/') =
      (q ++ last).reverse := by
    rw [List.reverse_append, List.reverse_replicate, List.dropWhile_append_of_pos (by simp),
      List.reverse_append]
    cases hrev : last.reverse with
    | nil => exact absurd (by simpa using hrev) hne
    | cons x xs =>
        have hx : ¬ x = '/' := fun hx =>
          hslash (List.mem_reverse.mp (by rw [hrev, hx]; simp))
        simp [hx]
  rw [hlast, List.reverse_append, List.dropWhile_append_of_pos]
  · rcases hq with rfl | ⟨pre, rfl⟩ <;> simp
  · intro x hx
    have hx' : x ≠ '/' := fun h => hslash (h ▸ List.mem_reverse.mp hx)
    simpa using hx'

/-- Where the directory part of a path with a slash leads. -/
lemma resolve_dirname_slash {cwd pre last : Chars} (hne : last ≠ []) (hslash : '/' ∉ last)
    (n : ℕ) : resolve cwd (dirname (pre ++ ['/'] ++ last ++ List.replicate n '/')) =
      walk (if isAbsolute (pre ++ ['/'] ++ last ++ List.replicate n '/') then [] else walk [] cwd)
        pre := by
  rw [dirname, dropWhile_last hne hslash (Or.inr ⟨pre, rfl⟩)]
  simp only [List.reverse_append, List.reverse_cons, List.reverse_nil, List.nil_append,
    List.cons_append, List.reverse_eq_nil_iff]
  split
  · rename_i hpre
    subst hpre
    simp [resolve_eq_walk, isAbsolute, walk, show split ['/'] = [[], []] from rfl, push]
  · rename_i hpre
    split
    · rename_i hroot
      obtain rfl : pre = ['/'] := by simpa using congrArg List.reverse hroot
      simp [resolve_eq_walk, isAbsolute, walk, show split ['/', '/'] = [[], [], []] from rfl,
        show split ['/'] = [[], []] from rfl, push]
    · have hab : isAbsolute (pre ++ ['/'] ++ last ++ List.replicate n '/') = isAbsolute pre := by
        cases pre with
        | nil => exact absurd rfl hpre
        | cons x pre => rfl
      rw [List.reverse_reverse, resolve_eq_walk, hab]
      split <;> rfl

/-- A path is reached from its directory part by its last component. -/
lemma resolve_dirname_append {cwd q last : Chars} (hne : last ≠ []) (hslash : '/' ∉ last)
    (hq : q = [] ∨ ∃ pre, q = pre ++ ['/']) (n : ℕ) :
    resolve cwd (q ++ last ++ List.replicate n '/') =
      walk (resolve cwd (dirname (q ++ last ++ List.replicate n '/'))) last := by
  rcases hq with rfl | ⟨pre, rfl⟩
  · have hrelative : isAbsolute (last ++ List.replicate n '/') = false := by
      cases last with
      | nil => exact absurd rfl hne
      | cons x xs => simpa [isAbsolute] using fun hx => hslash (by simp [hx])
    have hdir : dirname ([] ++ last ++ List.replicate n '/') = ['.'] := by
      rw [dirname, dropWhile_last hne hslash (Or.inl rfl)]
      simp [hrelative]
    rw [hdir, resolve_eq_walk, resolve_eq_walk, List.nil_append, hrelative]
    simp only [Bool.false_eq_true, if_false, walk_append_slashes]
    simp [isAbsolute, walk, show split ['.'] = [['.']] from rfl, push]
  · have hcat : pre ++ ['/'] ++ last ++ List.replicate n '/' =
        pre ++ '/' :: (last ++ List.replicate n '/') := by simp
    rw [resolve_dirname_slash hne hslash, resolve_eq_walk]
    split <;> rw [hcat, walk_append, walk_append_slashes]

/-- One component leads a location to itself, to its parent or to a child. -/
lemma walk_component {base : List Chars} {c : Chars} (hbase : ∀ d ∈ base, Proper d)
    (hc : '/' ∉ c) :
    walk base c = base ∨ walk base c = base.dropLast ∨ walk base c = base ++ [c] := by
  have hsplit : split c = [c] := by
    simpa [unsplit] using split_unsplit (List.cons_ne_nil c []) (by simpa using hc)
  rw [walk, hsplit, List.foldl_cons, List.foldl_nil]
  by_cases h1 : c = [] ∨ c = ['.']
  · simp [push, h1]
  by_cases h2 : c = dotdot
  · rw [h2, push_dotdot]
    cases base using List.reverseRecOn with
    | nil => simp [climb]
    | append_singleton base top =>
        have htop : Proper top := hbase top (by simp)
        simp [climb, htop.2.2.1]
  · simp [push, h1, h2]

/-- The directory part of a path lies on the way to the path, or below it. -/
lemma resolve_dirname_comparable (cwd p : Chars) :
    resolve cwd (dirname p) <+: resolve cwd p ∨ resolve cwd p <+: resolve cwd (dirname p) := by
  obtain ⟨q, last, n, rfl, hslash, hq, hlast⟩ := exists_last p
  by_cases hne : last = []
  · rw [hlast hne, hne]
    cases n with
    | zero => exact Or.inl (by simp [dirname, isAbsolute, resolve_eq_walk, walk, push,
        show split ['.'] = [['.']] from rfl])
    | succ n =>
        have hroot : resolve cwd (dirname ([] ++ [] ++ List.replicate (n + 1) '/')) = [] := by
          simp [dirname, isAbsolute, resolve_eq_walk, walk, push,
            show split ['/'] = [[], []] from rfl, List.replicate_succ]
        exact Or.inl (by rw [hroot]; exact List.nil_prefix)
  · have hproper : ∀ c ∈ resolve cwd (dirname (q ++ last ++ List.replicate n '/')), Proper c :=
      fun _ => resolve_proper
    rw [resolve_dirname_append hne hslash hq]
    rcases walk_component hproper hslash with h | h | h
    · exact Or.inl (by rw [h])
    · exact Or.inr (by rw [h]; exact List.dropLast_prefix _)
    · exact Or.inl (by rw [h]; exact List.prefix_append _ _)

/-- Normalizing a path keeps its last component when that is proper. -/
lemma normalize_ends {s last : Chars} {cs : List Chars} (hs : split s = cs ++ [last])
    (hlast : Proper last) :
    ∃ q, normalize s = q ++ last ∧ (q = [] ∨ ∃ pre, q = pre ++ ['/']) := by
  have hsum : s = unsplit (cs ++ [last]) := by
    rw [← hs]
    exact (List.intercalate_splitOn '/').symm
  have hne : s ≠ [] := by
    rw [hsum, unsplit_append_singleton]
    split
    · exact hlast.1
    · simp
  have htrail : s.getLast? ≠ some '/' := by
    have hend : ∃ pre, s = pre ++ last := by
      rw [hsum, unsplit_append_singleton]
      split
      · exact ⟨[], rfl⟩
      · exact ⟨unsplit cs ++ ['/'], by simp⟩
    obtain ⟨pre, hpre⟩ := hend
    rw [hpre, List.getLast?_append_of_ne_nil _ hlast.1]
    intro h
    exact hlast.2.2.2 (List.mem_of_getLast? h)
  obtain ⟨init, hinit⟩ : ∃ init, components (isAbsolute s) s = init ++ [last] := by
    refine ⟨(cs.foldl (push (isAbsolute s)) []).reverse, ?_⟩
    rw [components, hs, List.foldl_append, List.foldl_cons, List.foldl_nil, push_proper hlast,
      List.reverse_cons]
  have hbody : unsplit (init ++ [last]) ≠ [] := by
    rw [unsplit_append_singleton]
    split
    · exact hlast.1
    · simp
  rw [normalize, if_neg hne, hinit, decide_eq_false htrail, render, if_neg hbody,
    unsplit_append_singleton]
  simp only [Bool.false_eq_true, if_false, List.append_nil]
  by_cases hi : init = []
  · rw [if_pos hi]
    exact ⟨_, rfl, by split <;> simp⟩
  · rw [if_neg hi]
    refine ⟨(if isAbsolute s = true then ['/'] else []) ++ unsplit init ++ ['/'], by simp, ?_⟩
    exact Or.inr ⟨_, rfl⟩

/-- **The directory part of a joined path** is the location of the path without
its last component. -/
theorem resolve_dirname_join {cwd a b last : Chars} {bs : List Chars}
    (hb : split b = bs ++ [last]) (hlast : Proper last) :
    resolve cwd (dirname (join a b)) = (resolve cwd (join a b)).dropLast := by
  have hbne : b ≠ [] := by
    rintro rfl
    cases bs with
    | nil => exact hlast.1 (by simpa using hb.symm)
    | cons c cs => simp at hb
  have hs : ∃ cs, split (if a = [] then b else if b = [] then a else a ++ '/' :: b) =
      cs ++ [last] := by
    by_cases ha : a = []
    · exact ⟨bs, by rw [if_pos ha, hb]⟩
    · exact ⟨split a ++ bs, by rw [if_neg ha, if_neg hbne, split_append, hb, List.append_assoc]⟩
  obtain ⟨cs, hs⟩ := hs
  obtain ⟨q, hq, hends⟩ := normalize_ends hs hlast
  have hstep : resolve cwd (q ++ last ++ List.replicate 0 '/') =
      walk (resolve cwd (dirname (q ++ last ++ List.replicate 0 '/'))) last :=
    resolve_dirname_append hlast.1 hlast.2.2.2 hends 0
  have hone : unsplit [last] = last := by simp [unsplit]
  rw [← hone, walk_unsplit_proper (by simpa using hlast), hone, List.replicate_zero,
    List.append_nil] at hstep
  rw [join, hq, hstep, List.dropLast_concat]

end PosixPath
