import CrashFuzz.Trace.Apply

/-!
What a replay does to names. Contents and inodes apart, an event makes the
directories on the way to its operand, makes or removes files, and needs some
of both.

* `madeDirs`, `usedDirs`, `madeFiles`, `usedFiles`, `Removes`: these names for
  each call, read off the trace.
* `dir_applyEvent_iff`, `file_of_applyEvent`, `file_applyEvent`: what one
  applicable event does to the names below `targetDir`.
* `Shares`, `shares_applyEvent_iff`: which names are names of one file.
* `MayShare`: which may be, whatever else is kept.
* `Replayed`: what the names are after a number of events, and
  `Replayed.step`, which carries it on.
-/

namespace CrashFuzz

open PosixPath FileTree

variable (options : ReplayOptions)

/-! ### Names an event makes, needs and removes -/

/-- The directories that an event makes where they are missing. -/
def madeDirs (event : TraceEvent) : List (List Chars) :=
  match event.call with
  | .write | .pwrite | .writev | .truncate | .ftruncate | .rename | .link =>
      Volume.way (below options event.path)
  | .mkdir => (below options event.path).inits
  | .unlink | .open_ | .close | .fsync | .fdatasync | .syncFileRange => []

/-- The locations at which an event needs a directory or nothing. -/
def usedDirs (event : TraceEvent) : List (List Chars) :=
  match event.call with
  | .unlink => Volume.way (below options event.path)
  | _ => madeDirs options event

/-- The locations at which there is a file after an event. -/
def madeFiles (event : TraceEvent) : List (List Chars) :=
  match event.call with
  | .write | .pwrite | .writev | .truncate | .ftruncate => [below options event.path]
  | .rename => [below options event.path2]
  | .link => [below options event.path, below options event.path2]
  | .mkdir | .unlink | .open_ | .close | .fsync | .fdatasync | .syncFileRange => []

/-- The locations at which an event needs a file or nothing. -/
def usedFiles (event : TraceEvent) : List (List Chars) :=
  match event.call with
  | .write | .pwrite | .writev | .truncate | .ftruncate | .unlink => [below options event.path]
  | .rename | .link => [below options event.path, below options event.path2]
  | .mkdir | .open_ | .close | .fsync | .fdatasync | .syncFileRange => []

/-- An event takes a name away from a file, unless the file has another name. -/
def Removes (event : TraceEvent) (r : List Chars) : Prop :=
  r = below options event.path ∧
    (event.call = .unlink ∨ (event.call = .rename ∧ below options event.path2 ≠ r))

/-- What is at a name below `targetDir`. -/
def heldAt (disk : Disk) (r : List Chars) : Option Node := disk.node (options.target ++ r)

variable {options} {store : Store} {disk : Disk} {event : TraceEvent} {bytes : Option ℕ}
  {b c r : List Chars}

lemma append_ne_nil (hb : b ≠ []) : options.target ++ b ≠ [] :=
  List.append_ne_nil_of_right_ne_nil _ hb

@[simp] lemma heldAt_edit {p : List Chars} {f : List UInt8 → List UInt8} :
    heldAt options (disk.edit p f) r = heldAt options disk r := Volume.node_edit

@[simp] lemma heldAt_setNode {n : Node} :
    heldAt options (disk.setNode (options.target ++ b) n) r =
      if r = b then some n else heldAt options disk r := by
  simp [heldAt]

@[simp] lemma heldAt_removeNode : heldAt options (disk.removeNode (options.target ++ b)) r =
    if r = b then none else heldAt options disk r := by
  simp [heldAt]

@[simp] lemma heldAt_move {i : ℕ} :
    heldAt options (disk.move (options.target ++ b) (options.target ++ c) i) r =
      if r = c then some (.file i) else if r = b then none else heldAt options disk r := by
  simp [heldAt]

/-- The names after a file took another one. -/
lemma heldAt_renamed {i : ℕ} (hb : heldAt options disk b = some (.file i)) :
    heldAt options (disk.renamed (options.target ++ b) (options.target ++ c)) r =
      if heldAt options disk c = some (.file i) then heldAt options disk r
      else if r = c then some (.file i) else if r = b then none else heldAt options disk r := by
  by_cases hsame : heldAt options disk c = some (.file i)
  · rw [Volume.renamed_of_same hb hsame, if_pos hsame]
  · rw [Volume.renamed_of_ne hb hsame, if_neg hsame, heldAt_move]

/-- A file after a rename is the one that moved, or one from before; the one that
moved is still at its old name only when the new one was a name of it already. -/
lemma file_of_heldAt_renamed {i j : ℕ} (hb : heldAt options disk b = some (.file j))
    (h : heldAt options (disk.renamed (options.target ++ b) (options.target ++ c)) r =
      some (.file i)) :
    (r = c ∧ i = j) ∨ (heldAt options disk r = some (.file i) ∧
      (r = b → heldAt options disk c = some (.file j))) := by
  rw [heldAt_renamed hb] at h
  split at h
  · rename_i hsame
    exact Or.inr ⟨h, fun _ => hsame⟩
  · split at h
    · rename_i hrc
      cases h
      exact Or.inl ⟨hrc, rfl⟩
    · split at h
      · cases h
      · rename_i hrb
        exact Or.inr ⟨h, fun hr => absurd hr hrb⟩

/-- The names after a file got another one. -/
lemma heldAt_linked {i : ℕ} (hb : heldAt options disk b = some (.file i)) :
    heldAt options (disk.linked (options.target ++ b) (options.target ++ c)) r =
      if r = c then some (.file i) else heldAt options disk r := by
  rw [Volume.linked_eq hb, heldAt_setNode]

lemma heldAt_addDirs_inits : heldAt options (disk.addDirs (options.target ++ b).inits) r =
    if r ∈ b.inits then some .dir else heldAt options disk r := by
  rw [heldAt, Volume.node_addDirs, heldAt]
  simp only [List.mem_inits, List.prefix_append_right_inj]

lemma node_place {path : String} :
    disk.node (place options path) = heldAt options disk (below options path) := rfl

/-- The names after making a file and its directories. -/
lemma heldAt_ensured (hb : b ≠ []) (hr : r ≠ b) :
    heldAt options (disk.ensured (options.target ++ b)) r =
      if r ∈ Volume.way b then some .dir else heldAt options disk r := by
  have hne : options.target ++ r ≠ options.target ++ b := fun h => hr (List.append_cancel_left h)
  rw [heldAt, Volume.node_ensured_of_ne hne, heldAt]
  simp only [Volume.append_mem_way hb]

lemma exists_heldAt_ensured :
    ∃ i, heldAt options (disk.ensured (options.target ++ b)) b = some (.file i) :=
  Volume.exists_node_ensured

/-- A file that `ensured` makes has an inode of its own. -/
lemma heldAt_ensured_self {i : ℕ} (hb : b ≠ []) (h : ∀ i, heldAt options disk b ≠ some (.file i))
    (hi : heldAt options (disk.ensured (options.target ++ b)) b = some (.file i)) :
    i = disk.next := by
  have hfile : ∀ i, (disk.addDirs (Volume.way (options.target ++ b))).node (options.target ++ b) ≠
      some (.file i) := by
    rw [Volume.node_addDirs_way (append_ne_nil hb)]
    exact h
  rw [heldAt, Volume.ensured, Volume.touch_of_not_file hfile, Volume.node_addFile, if_pos rfl,
    Volume.next_addDirs] at hi
  cases hi
  rfl

/-- A file that is there keeps its inode. -/
lemma heldAt_ensured_of_file {i : ℕ} (hb : b ≠ []) (h : heldAt options disk b = some (.file i)) :
    heldAt options (disk.ensured (options.target ++ b)) b = some (.file i) := by
  have hfile : (disk.addDirs (Volume.way (options.target ++ b))).node (options.target ++ b) =
      some (.file i) := by
    rw [Volume.node_addDirs_way (append_ne_nil hb)]
    exact h
  rw [heldAt, Volume.ensured, Volume.touch_of_file hfile, hfile]

/-- Every file after `ensured` was there before or is the new one. -/
lemma file_of_heldAt_ensured {i : ℕ} (hb : b ≠ [])
    (h : heldAt options (disk.ensured (options.target ++ b)) r = some (.file i)) :
    heldAt options disk r = some (.file i) ∨ (r = b ∧ i = disk.next) := by
  by_cases hr : r = b
  · subst hr
    by_cases hfile : ∀ i, heldAt options disk r ≠ some (.file i)
    · exact Or.inr ⟨rfl, heldAt_ensured_self hb hfile h⟩
    · push Not at hfile
      obtain ⟨j, hj⟩ := hfile
      rw [heldAt_ensured_of_file hb hj] at h
      exact Or.inl (hj.trans h)
  · rw [heldAt_ensured hb hr] at h
    split at h
    · cases h
    · exact Or.inl h

/-! ### Directories -/

lemma dir_ensured_iff (hb : b ≠ []) (hdir : heldAt options disk b ≠ some .dir) :
    heldAt options (disk.ensured (options.target ++ b)) r = some .dir ↔
      r ∈ Volume.way b ∨ heldAt options disk r = some .dir := by
  by_cases hr : r = b
  · subst hr
    obtain ⟨i, hi⟩ := @exists_heldAt_ensured options disk r
    have hway : r ∉ Volume.way r := fun h => Volume.ne_of_mem_way hb h rfl
    simp [hi, hway, hdir]
  · rw [heldAt_ensured hb hr]
    split
    · rename_i h
      simp [h]
    · rename_i h
      simp [h]

lemma dir_renamed_iff {i : ℕ} (hb : heldAt options disk b = some (.file i))
    (hc : heldAt options disk c ≠ some .dir) :
    heldAt options (disk.renamed (options.target ++ b) (options.target ++ c)) r = some .dir ↔
      heldAt options disk r = some .dir := by
  rw [heldAt_renamed hb]
  split
  · rfl
  · by_cases hrc : r = c
    · simp [hrc, hc]
    · by_cases hrb : r = b
      · rw [if_neg hrc, if_pos hrb, hrb, hb]
        simp
      · rw [if_neg hrc, if_neg hrb]

lemma dir_linked_iff {i : ℕ} (hb : heldAt options disk b = some (.file i))
    (hc : heldAt options disk c ≠ some .dir) :
    heldAt options (disk.linked (options.target ++ b) (options.target ++ c)) r = some .dir ↔
      heldAt options disk r = some .dir := by
  rw [heldAt_linked hb]
  by_cases hrc : r = c
  · simp [hrc, hc]
  · rw [if_neg hrc]

/-- Which directories there are after an event. -/
lemma dir_applyEvent_iff (hbelow : event.call ∈ mutating → OperandsBelow options event)
    (happ : Applicable options disk event) :
    heldAt options (applyEvent options store disk event bytes) r = some .dir ↔
      r ∈ madeDirs options event ∨ heldAt options disk r = some .dir := by
  have hb : event.call ∈ mutating → below options event.path ≠ [] :=
    fun h => (hbelow h).1.below_ne_nil
  obtain ⟨i, hi⟩ := @exists_heldAt_ensured options disk (below options event.path)
  rw [Applicable] at happ
  rw [applyEvent, madeDirs]
  cases hcall : event.call with
  | write | pwrite | writev | truncate | ftruncate =>
      simp only [hcall, node_place] at happ
      rw [heldAt_edit]
      exact dir_ensured_iff (hb (by simp [hcall, mutating])) happ.2
  | mkdir =>
      simp only [place, heldAt_addDirs_inits]
      split <;> simp_all
  | rename =>
      simp only [hcall, node_place] at happ
      exact (dir_renamed_iff hi happ.2.2).trans
        (dir_ensured_iff (hb (by simp [hcall, mutating])) happ.1.2)
  | link =>
      simp only [hcall, node_place] at happ
      exact (dir_linked_iff hi (happ.2.2 ▸ by simp)).trans
        (dir_ensured_iff (hb (by simp [hcall, mutating])) happ.1.2)
  | unlink =>
      simp only [hcall, node_place] at happ
      simp only [place, heldAt_removeNode, List.not_mem_nil, false_or]
      split
      · rename_i hr
        simp [hr, happ.2]
      · rfl
  | open_ | close | fsync | fdatasync | syncFileRange => simp

/-! ### Files -/

/-- An event that succeeds leaves a well-formed tree. -/
lemma wf_applyEvent (hwf : disk.WF)
    (hbelow : event.call ∈ mutating → OperandsBelow options event)
    (happ : Applicable options disk event) :
    (applyEvent options store disk event bytes).WF := by
  have hb : event.call ∈ mutating → place options event.path ≠ [] :=
    fun h => (hbelow h).1.place_ne_nil
  rw [Applicable] at happ
  rw [applyEvent]
  cases hcall : event.call with
  | write | pwrite | writev | truncate | ftruncate =>
      simp only [hcall] at happ
      exact (hwf.ensured (hb (by simp [hcall, mutating])) happ.2).edit
  | mkdir => exact hwf.addDirs
  | rename =>
      simp only [hcall] at happ
      exact (hwf.ensured (hb (by simp [hcall, mutating])) happ.1.2).renamed happ.2.2 happ.2.1
  | link =>
      simp only [hcall] at happ
      exact (hwf.ensured (hb (by simp [hcall, mutating])) happ.1.2).linked
        (happ.2.2 ▸ by simp) happ.2.1
  | unlink =>
      simp only [hcall] at happ
      exact hwf.removeNode happ.2
  | open_ | close | fsync | fdatasync | syncFileRange => exact hwf

/-- What an event makes a file is one afterwards. -/
lemma file_applyEvent_made (hr : r ∈ madeFiles options event) :
    ∃ i, heldAt options (applyEvent options store disk event bytes) r = some (.file i) := by
  obtain ⟨i, hi⟩ := @exists_heldAt_ensured options disk (below options event.path)
  rw [madeFiles] at hr
  rw [applyEvent]
  cases hcall : event.call with
  | write | pwrite | writev | truncate | ftruncate =>
      simp only [hcall, List.mem_singleton] at hr
      rw [heldAt_edit]
      exact ⟨i, hr ▸ hi⟩
  | rename =>
      simp only [hcall, List.mem_singleton] at hr
      refine ⟨i, (heldAt_renamed hi).trans ?_⟩
      rw [hr, if_pos rfl]
      exact ite_eq_right_iff.mpr id
  | link =>
      simp only [hcall, List.mem_cons, List.not_mem_nil, or_false] at hr
      refine ⟨i, (heldAt_linked hi).trans ?_⟩
      rcases hr with rfl | rfl
      · exact ite_eq_left_iff.mpr fun _ => hi
      · exact if_pos rfl
  | mkdir | unlink | open_ | close | fsync | fdatasync | syncFileRange => simp [hcall] at hr

/-- Two names below `targetDir` are names of one file. -/
def Shares (options : ReplayOptions) (disk : Disk) (r r' : List Chars) : Prop :=
  r ≠ r' ∧ ∃ i, heldAt options disk r = some (.file i) ∧ heldAt options disk r' = some (.file i)

/-- A file after an event is one the event made or one from before; it was not
taken away, unless by a rename to another name of it. -/
lemma file_of_applyEvent (hwf : disk.WF) {i : ℕ}
    (hbelow : event.call ∈ mutating → OperandsBelow options event)
    (hi : heldAt options (applyEvent options store disk event bytes) r = some (.file i)) :
    r ∈ madeFiles options event ∨ (heldAt options disk r = some (.file i) ∧
      (Removes options event r → event.call = .rename ∧
        Shares options disk (below options event.path) (below options event.path2))) := by
  have hb : event.call ∈ mutating → below options event.path ≠ [] :=
    fun h => (hbelow h).1.below_ne_nil
  obtain ⟨j, hj⟩ := @exists_heldAt_ensured options disk (below options event.path)
  rw [madeFiles]
  rw [applyEvent] at hi
  cases hcall : event.call with
  | write | pwrite | writev | truncate | ftruncate =>
      simp only [hcall, heldAt_edit] at hi
      rcases file_of_heldAt_ensured (hb (by simp [hcall, mutating])) hi with h | h
      · exact Or.inr ⟨h, fun hrem => by simp [Removes, hcall] at hrem⟩
      · exact Or.inl (by simp [h.1])
  | mkdir =>
      simp only [hcall, place, heldAt_addDirs_inits] at hi
      split at hi
      · cases hi
      · exact Or.inr ⟨hi, fun hrem => by simp [Removes, hcall] at hrem⟩
  | rename =>
      simp only [hcall] at hi
      have hne := hb (by simp [hcall, mutating])
      by_cases hrc : r = below options event.path2
      · exact Or.inl (by simp [hrc])
      refine Or.inr ?_
      obtain ⟨hold, hback⟩ := (file_of_heldAt_renamed hj hi).resolve_left fun h => hrc h.1
      rcases file_of_heldAt_ensured hne hold with h | ⟨hrb, hnext⟩
      · -- a source that stays is another name of the destination's file
        refine ⟨h, fun hrem => ⟨rfl, hrem.1 ▸ hrc, i, hrem.1 ▸ h, ?_⟩⟩
        rcases file_of_heldAt_ensured hne (hback hrem.1) with h2 | h2
        · have hij : j = i := by
            rw [hrem.1, hj] at hold
            simpa using hold
          exact hij ▸ h2
        · exact absurd (hrem.1.trans h2.1.symm) hrc
      · -- a new file has no other name
        rw [hrb, hj] at hold
        cases hold
        rcases file_of_heldAt_ensured hne (hback hrb) with h2 | h2
        · exact absurd (hwf.fresh _ _ h2) (hnext ▸ lt_irrefl _)
        · exact absurd (hrb.trans h2.1.symm) hrc
  | link =>
      simp only [hcall] at hi
      have hne := hb (by simp [hcall, mutating])
      rw [place, place, heldAt_linked hj] at hi
      by_cases hrc : r = below options event.path2
      · exact Or.inl (by simp [hrc])
      · rw [if_neg hrc] at hi
        rcases file_of_heldAt_ensured hne hi with h | h
        · exact Or.inr ⟨h, fun hrem => by simp [Removes, hcall] at hrem⟩
        · exact Or.inl (by simp [h.1])
  | unlink =>
      simp only [hcall, place, heldAt_removeNode] at hi
      split at hi
      · cases hi
      · rename_i hr
        exact Or.inr ⟨hi, fun hrem => absurd hrem.1 hr⟩
  | open_ | close | fsync | fdatasync | syncFileRange =>
      simp only [hcall] at hi
      exact Or.inr ⟨hi, fun hrem => by simp [Removes, hcall] at hrem⟩

/-- No file on the way is lost when a file is made. -/
lemma heldAt_ensured_file {i : ℕ} (hb : b ≠ [])
    (hclear : ∀ q ∈ Volume.way (options.target ++ b), disk.NoFile q)
    (h : heldAt options disk r = some (.file i)) :
    heldAt options (disk.ensured (options.target ++ b)) r = some (.file i) := by
  by_cases hr : r = b
  · rw [hr] at h ⊢
    exact heldAt_ensured_of_file hb h
  · rw [heldAt_ensured hb hr, if_neg, h]
    exact fun hway => hclear _ ((Volume.append_mem_way hb).mpr hway) i h

/-- A file stays one unless the event takes its name away; a rename to another name
of it does not. -/
lemma file_applyEvent {i : ℕ} (hbelow : event.call ∈ mutating → OperandsBelow options event)
    (happ : Applicable options disk event) (hi : heldAt options disk r = some (.file i))
    (hrem : Removes options event r → event.call = .rename ∧
      Shares options disk (below options event.path) (below options event.path2)) :
    ∃ j, heldAt options (applyEvent options store disk event bytes) r = some (.file j) := by
  have hb : event.call ∈ mutating → below options event.path ≠ [] :=
    fun h => (hbelow h).1.below_ne_nil
  obtain ⟨j, hj⟩ := @exists_heldAt_ensured options disk (below options event.path)
  rw [Applicable] at happ
  rw [applyEvent]
  cases hcall : event.call with
  | write | pwrite | writev | truncate | ftruncate =>
      simp only [hcall] at happ
      rw [heldAt_edit]
      exact ⟨i, heldAt_ensured_file (hb (by simp [hcall, mutating])) happ.1 hi⟩
  | mkdir =>
      simp only [hcall] at happ
      refine ⟨i, heldAt_addDirs_inits.trans ?_⟩
      rw [if_neg, hi]
      intro hr
      refine happ (options.target ++ r) ?_ i hi
      rw [List.mem_inits] at hr ⊢
      exact (List.prefix_append_right_inj _).mpr hr
  | rename =>
      simp only [hcall] at happ
      have hens := heldAt_ensured_file (hb (by simp [hcall, mutating])) happ.1.1 hi
      simp only [place, heldAt_renamed hj]
      split
      · exact ⟨i, hens⟩
      · next hsame =>
        split
        · exact ⟨j, rfl⟩
        · rename_i hrc
          rw [if_neg, hens]
          · exact ⟨i, rfl⟩
          · -- the source only stays where both are names of one file, but they are not
            intro hrb
            obtain ⟨-, -, i', hb', hc'⟩ := hrem ⟨hrb, Or.inr ⟨hcall, Ne.symm hrc⟩⟩
            have hclear := happ.1.1
            have hne := hb (by simp [hcall, mutating])
            rw [heldAt_ensured_file hne hclear hb'] at hj
            exact hsame ((heldAt_ensured_file hne hclear hc').trans hj)
  | link =>
      simp only [hcall] at happ
      have hens := heldAt_ensured_file (hb (by simp [hcall, mutating])) happ.1.1 hi
      simp only [place, heldAt_linked hj]
      split
      · exact ⟨j, rfl⟩
      · exact ⟨i, hens⟩
  | unlink =>
      refine ⟨i, heldAt_removeNode.trans ?_⟩
      rw [if_neg, hi]
      intro hr
      have hrename := (hrem ⟨hr, Or.inl hcall⟩).1
      rw [hcall] at hrename
      cases hrename
  | open_ | close | fsync | fdatasync | syncFileRange => exact ⟨i, hi⟩

/-! ### Names of one file -/

/-- No two names below `targetDir` are names of one file. -/
def Single (options : ReplayOptions) (disk : Disk) : Prop :=
  ∀ r r' i, heldAt options disk r = some (.file i) → heldAt options disk r' = some (.file i) →
    r = r'

lemma single_iff : Single options disk ↔ ∀ r r', ¬ Shares options disk r r' := by
  constructor
  · exact fun h r r' ⟨hne, i, hr, hr'⟩ => hne (h r r' i hr hr')
  · exact fun h r r' i hr hr' => by_contra fun hne => h r r' ⟨hne, i, hr, hr'⟩

/-- A file that is made has no other name. -/
lemma shares_ensured_iff (hwf : disk.WF) (hb : b ≠ [])
    (hclear : ∀ q ∈ Volume.way (options.target ++ b), disk.NoFile q) (r r' : List Chars) :
    Shares options (disk.ensured (options.target ++ b)) r r' ↔ Shares options disk r r' := by
  refine and_congr_right fun hne => exists_congr fun i => ?_
  constructor
  · rintro ⟨hr, hr'⟩
    rcases file_of_heldAt_ensured hb hr with h1 | ⟨rfl, rfl⟩
    · rcases file_of_heldAt_ensured hb hr' with h2 | ⟨rfl, rfl⟩
      · exact ⟨h1, h2⟩
      · exact absurd (hwf.fresh _ _ h1) (lt_irrefl _)
    · rcases file_of_heldAt_ensured hb hr' with h2 | ⟨rfl, -⟩
      · exact absurd (hwf.fresh _ _ h2) (lt_irrefl _)
      · exact absurd rfl hne
  · exact fun h => ⟨heldAt_ensured_file hb hclear h.1, heldAt_ensured_file hb hclear h.2⟩

lemma Single.ensured (h : Single options disk) (hwf : disk.WF) (hb : b ≠ [])
    (hclear : ∀ q ∈ Volume.way (options.target ++ b), disk.NoFile q) :
    Single options (disk.ensured (options.target ++ b)) := by
  simpa only [single_iff, shares_ensured_iff hwf hb hclear] using h

section Sharing

variable (options) (shares : List Chars → List Chars → Prop)

/-- An event takes a name away from its file, or gives the name to another one. A
rename between two names of one file does neither. -/
def Parts (event : TraceEvent) (r : List Chars) : Prop :=
  (event.call = .unlink ∧ r = below options event.path) ∨
    (event.call = .rename ∧ below options event.path ≠ below options event.path2 ∧
      ¬ shares (below options event.path) (below options event.path2) ∧
        (r = below options event.path ∨ r = below options event.path2))

/-- An event gives the file named `r` the name `r'`. -/
def Joins (event : TraceEvent) (r r' : List Chars) : Prop :=
  r ≠ r' ∧ r' = below options event.path2 ∧
    ((event.call = .link ∧ (r = below options event.path ∨ shares (below options event.path) r)) ∨
      (event.call = .rename ∧ shares (below options event.path) r))

end Sharing

/-- Which names share a file after a rename. -/
lemma shares_renamed_iff {i : ℕ} (hb : heldAt options disk b = some (.file i)) {r r' : List Chars} :
    Shares options (disk.renamed (options.target ++ b) (options.target ++ c)) r r' ↔
      (Shares options disk r r' ∧ ¬ (b ≠ c ∧ ¬ Shares options disk b c ∧ (r = b ∨ r = c)) ∧
        ¬ (b ≠ c ∧ ¬ Shares options disk b c ∧ (r' = b ∨ r' = c))) ∨
      (r ≠ r' ∧ r' = c ∧ Shares options disk b r) ∨
        (r' ≠ r ∧ r = c ∧ Shares options disk b r') := by
  by_cases hsame : heldAt options disk c = some (.file i)
  · simp only [Shares, heldAt_renamed hb, if_pos hsame]
    grind
  · simp only [Shares, heldAt_renamed hb, if_neg hsame]
    grind

/-- Which names share a file after a link. -/
lemma shares_linked_iff {i : ℕ} (hb : heldAt options disk b = some (.file i))
    (hc : heldAt options disk c = none) {r r' : List Chars} :
    Shares options (disk.linked (options.target ++ b) (options.target ++ c)) r r' ↔
      Shares options disk r r' ∨ (r ≠ r' ∧ r' = c ∧ (r = b ∨ Shares options disk b r)) ∨
        (r' ≠ r ∧ r = c ∧ (r' = b ∨ Shares options disk b r')) := by
  simp only [Shares, heldAt_linked hb]
  grind

/-- **Which names share a file** after an event. -/
theorem shares_applyEvent_iff (hwf : disk.WF)
    (hbelow : event.call ∈ mutating → OperandsBelow options event)
    (happ : Applicable options disk event) {r r' : List Chars} :
    Shares options (applyEvent options store disk event bytes) r r' ↔
      (Shares options disk r r' ∧ ¬ Parts options (Shares options disk) event r ∧
        ¬ Parts options (Shares options disk) event r') ∨
      Joins options (Shares options disk) event r r' ∨
        Joins options (Shares options disk) event r' r := by
  have hb : event.call ∈ mutating → below options event.path ≠ [] :=
    fun h => (hbelow h).1.below_ne_nil
  obtain ⟨j, hj⟩ := @exists_heldAt_ensured options disk (below options event.path)
  rw [Applicable] at happ
  rw [applyEvent, Parts, Parts, Joins, Joins]
  cases hcall : event.call with
  | write | pwrite | writev | truncate | ftruncate =>
      simp only [hcall] at happ
      have hens := shares_ensured_iff hwf (hb (by simp [hcall, mutating])) happ.1 r r'
      simpa [Shares, place] using hens
  | mkdir =>
      simp only [hcall] at happ
      -- the files stay where they are
      have hfile : ∀ x i, heldAt options (disk.addDirs (place options event.path).inits) x =
          some (.file i) ↔ heldAt options disk x = some (.file i) := by
        intro x i
        rw [place, heldAt_addDirs_inits]
        split
        · next hx =>
            refine iff_of_false (by simp) fun hi => ?_
            refine happ (options.target ++ x) ((List.mem_inits _ _).mpr ?_) i hi
            exact (List.prefix_append_right_inj _).mpr ((List.mem_inits _ _).mp hx)
        · rfl
      simp [Shares, hfile]
  | rename =>
      simp only [hcall] at happ
      have hens := shares_ensured_iff hwf (hb (by simp [hcall, mutating])) happ.1.1
      simp only [reduceCtorEq, false_and, false_or, true_and]
      simp only [← hens]
      exact shares_renamed_iff hj
  | link =>
      simp only [hcall] at happ
      have hens := shares_ensured_iff hwf (hb (by simp [hcall, mutating])) happ.1.1
      simp only [reduceCtorEq, false_and, or_false, true_and, not_false_eq_true, and_true]
      simp only [← hens]
      exact shares_linked_iff hj happ.2.2
  | unlink =>
      simp only [Shares, place, heldAt_removeNode]
      grind
  | open_ | close | fsync | fdatasync | syncFileRange => simp

/-! ### When an event is applicable -/

/-- The names below `targetDir` are what an event needs. -/
structure NamesFit (options : ReplayOptions) (disk : Disk) (event : TraceEvent) : Prop where
  dirs : ∀ r ∈ usedDirs options event, ∀ f, heldAt options disk r ≠ some (.file f)
  files : ∀ r ∈ usedFiles options event,
    heldAt options disk r ≠ some .dir ∧ r ∉ madeDirs options event
  parent : event.call = .rename ∨ event.call = .link →
    (below options event.path2).dropLast ∈ madeDirs options event ∨
      heldAt options disk (below options event.path2).dropLast = some .dir
  free : event.call = .link → below options event.path2 ≠ below options event.path ∧
    ∀ f, heldAt options disk (below options event.path2) ≠ some (.file f)

/-- The directories above the target directory, and the directory itself. -/
lemma node_target (hwf : disk.WF) (hroot : heldAt options disk [] = some .dir) {q : List Chars}
    (hq : q ∈ options.target.inits) : disk.node q = some .dir := by
  have htarget : disk.node options.target = some .dir := by simpa [heldAt] using hroot
  rcases Volume.mem_inits_iff.mp hq with rfl | hq
  · exact htarget
  · exact hwf.reached (by simp [htarget]) q hq

/-- The way to a name holds no file when its part below `targetDir` holds none. -/
lemma noFile_way_iff (hwf : disk.WF) (hroot : heldAt options disk [] = some .dir) (hb : b ≠ []) :
    (∀ q ∈ Volume.way (options.target ++ b), disk.NoFile q) ↔
      ∀ x ∈ Volume.way b, ∀ f, heldAt options disk x ≠ some (.file f) := by
  constructor
  · exact fun h x hx => h _ ((Volume.append_mem_way hb).mpr hx)
  · intro h q hq
    rcases Volume.mem_way_append hb hq with hq | ⟨x, hx, rfl⟩
    · intro f
      rw [node_target hwf hroot hq]
      simp
    · exact h x hx

/-- The same for the way and the name itself. -/
lemma noFile_inits_iff (hwf : disk.WF) (hroot : heldAt options disk [] = some .dir) (hb : b ≠ []) :
    (∀ q ∈ (options.target ++ b).inits, disk.NoFile q) ↔
      ∀ x ∈ b.inits, ∀ f, heldAt options disk x ≠ some (.file f) := by
  simp only [Volume.mem_inits_iff, forall_eq_or_imp]
  exact and_congr_right' (noFile_way_iff hwf hroot hb)

/-- The way to a name exists when its parent below `targetDir` does. -/
lemma reached_iff (hwf : disk.WF) (hc : c ≠ []) :
    disk.Reached (options.target ++ c) ↔ heldAt options disk c.dropLast = some .dir := by
  constructor
  · intro h
    exact h _ ((Volume.append_mem_way hc).mpr Volume.dropLast_mem_way)
  · intro h q hq
    rw [Volume.mem_way, List.dropLast_append_of_ne_nil hc, ← List.mem_inits,
      Volume.mem_inits_iff] at hq
    rcases hq with rfl | hq
    · exact h
    · have hsome : disk.node (options.target ++ c.dropLast) ≠ none := by
        rw [show disk.node _ = some .dir from h]
        simp
      exact hwf.reached hsome q hq

/-- The destination of a link that is applicable, in names. -/
lemma free_iff (hb : b ≠ []) : heldAt options (disk.ensured (options.target ++ b)) c = none ↔
    c ≠ b ∧ heldAt options disk c = none ∧ c ∉ Volume.way b := by
  by_cases hcb : c = b
  · obtain ⟨i, hi⟩ := @exists_heldAt_ensured options disk b
    simp [hcb, hi]
  · rw [heldAt_ensured hb hcb]
    split
    · rename_i h
      simp [h]
    · rename_i h
      simp [h, hcb]

lemma eq_none_of_not (hdir : heldAt options disk r ≠ some .dir)
    (hfile : ∀ f, heldAt options disk r ≠ some (.file f)) : heldAt options disk r = none := by
  cases h : heldAt options disk r with
  | none => rfl
  | some n =>
      cases n with
      | dir => exact absurd h hdir
      | file f => exact absurd h (hfile f)

/-- The destination of a rename or link that is applicable, in names. -/
lemma dest_iff (hwf : disk.WF) (hroot : heldAt options disk [] = some .dir)
    (hb : b ≠ []) (hc : c ≠ []) (hdir : heldAt options disk b ≠ some .dir) :
    (disk.ensured (options.target ++ b)).Reached (options.target ++ c) ↔
      c.dropLast ∈ Volume.way b ∨ heldAt options disk c.dropLast = some .dir := by
  have hens : (disk.ensured (options.target ++ b)).WF := hwf.ensured (append_ne_nil hb) hdir
  have hroot' : heldAt options (disk.ensured (options.target ++ b)) [] = some .dir :=
    (dir_ensured_iff hb hdir).mpr (Or.inr hroot)
  rw [reached_iff hens hc, dir_ensured_iff hb hdir]

/-- **When an event is applicable**, in names. -/
theorem applicable_iff (hwf : disk.WF) (hroot : heldAt options disk [] = some .dir)
    (hbelow : event.call ∈ mutating → OperandsBelow options event) :
    Applicable options disk event ↔ NamesFit options disk event := by
  have hb : event.call ∈ mutating → below options event.path ≠ [] :=
    fun h => (hbelow h).1.below_ne_nil
  have hway : ∀ h : event.call ∈ mutating,
      (∀ q ∈ Volume.way (place options event.path), disk.NoFile q) ↔
        ∀ x ∈ Volume.way (below options event.path), ∀ f, heldAt options disk x ≠ some (.file f) :=
    fun h => noFile_way_iff hwf hroot (hb h)
  have hself : ∀ h : event.call ∈ mutating,
      below options event.path ∉ Volume.way (below options event.path) :=
    fun h hmem => Volume.ne_of_mem_way (hb h) hmem rfl
  rw [Applicable]
  cases hcall : event.call with
  | write | pwrite | writev | truncate | ftruncate =>
      have hmut : event.call ∈ mutating := by simp [hcall, mutating]
      simp only [hway hmut, node_place]
      constructor
      · rintro ⟨hdirs, hfile⟩
        refine ⟨?_, ?_, by simp [hcall], by simp [hcall]⟩
        · simpa [usedDirs, madeDirs, hcall] using hdirs
        · simpa [usedFiles, madeDirs, hcall] using ⟨hfile, hself hmut⟩
      · intro h
        refine ⟨?_, (h.files _ (by simp [usedFiles, hcall])).1⟩
        simpa [usedDirs, madeDirs, hcall] using h.dirs
  | unlink =>
      have hmut : event.call ∈ mutating := by simp [hcall, mutating]
      simp only [hway hmut, node_place]
      constructor
      · rintro ⟨hdirs, hfile⟩
        refine ⟨?_, ?_, by simp [hcall], by simp [hcall]⟩
        · simpa [usedDirs, hcall] using hdirs
        · simpa [usedFiles, madeDirs, hcall] using hfile
      · intro h
        refine ⟨?_, (h.files _ (by simp [usedFiles, hcall])).1⟩
        simpa [usedDirs, hcall] using h.dirs
  | mkdir =>
      have hmut : event.call ∈ mutating := by simp [hcall, mutating]
      have hinits := noFile_inits_iff hwf hroot (hb hmut)
      simp only [place, hinits]
      constructor
      · intro h
        refine ⟨?_, by simp [usedFiles, hcall], by simp [hcall], by simp [hcall]⟩
        simpa [usedDirs, madeDirs, hcall] using h
      · intro h
        simpa [usedDirs, madeDirs, hcall] using h.dirs
  | rename =>
      have hmut : event.call ∈ mutating := by simp [hcall, mutating]
      have hc := ((hbelow hmut).2 (Or.inl hcall)).below_ne_nil
      simp only [hway hmut, node_place]
      constructor
      · -- the source is made where it is missing, so its parents count for the destination
        rintro ⟨⟨hdirs, hfile⟩, hreach, hdest⟩
        have hparent := (dest_iff hwf hroot (hb hmut) hc hfile).mp hreach
        have hdest' := (dir_ensured_iff (hb hmut) hfile).not.mp hdest
        push Not at hdest'
        refine ⟨?_, ?_, fun _ => ?_, by simp [hcall]⟩
        · simpa [usedDirs, madeDirs, hcall] using hdirs
        · simpa [usedFiles, madeDirs, hcall] using ⟨⟨hfile, hself hmut⟩, hdest'.2, hdest'.1⟩
        · simpa [madeDirs, hcall] using hparent
      · intro h
        have hfile := (h.files (below options event.path) (by simp [usedFiles, hcall])).1
        have hdest := h.files (below options event.path2) (by simp [usedFiles, hcall])
        have hparent := h.parent (Or.inl hcall)
        have hdirs := h.dirs
        simp only [usedDirs, madeDirs, hcall] at hdest hparent hdirs
        refine ⟨⟨hdirs, hfile⟩, (dest_iff hwf hroot (hb hmut) hc hfile).mpr hparent, ?_⟩
        exact fun hdir => ((dir_ensured_iff (hb hmut) hfile).mp hdir).elim hdest.2 hdest.1
  | link =>
      have hmut : event.call ∈ mutating := by simp [hcall, mutating]
      have hc := ((hbelow hmut).2 (Or.inr hcall)).below_ne_nil
      simp only [hway hmut, node_place]
      constructor
      · -- as for a rename, but the new name must be free
        rintro ⟨⟨hdirs, hfile⟩, hreach, hdest⟩
        have hparent := (dest_iff hwf hroot (hb hmut) hc hfile).mp hreach
        obtain ⟨hne, hold, hnotway⟩ := (free_iff (hb hmut)).mp hdest
        refine ⟨?_, ?_, fun _ => ?_, fun _ => ⟨hne, by simp [hold]⟩⟩
        · simpa [usedDirs, madeDirs, hcall] using hdirs
        · simpa [usedFiles, madeDirs, hcall, hold] using ⟨⟨hfile, hself hmut⟩, hnotway⟩
        · simpa [madeDirs, hcall] using hparent
      · intro h
        have hfile := (h.files (below options event.path) (by simp [usedFiles, hcall])).1
        have hdest := h.files (below options event.path2) (by simp [usedFiles, hcall])
        have hparent := h.parent (Or.inr hcall)
        have hdirs := h.dirs
        simp only [usedDirs, madeDirs, hcall] at hdest hparent hdirs
        refine ⟨⟨hdirs, hfile⟩, (dest_iff hwf hroot (hb hmut) hc hfile).mpr hparent, ?_⟩
        obtain ⟨hne, hnofile⟩ := h.free hcall
        exact (free_iff (hb hmut)).mpr ⟨hne, eq_none_of_not hdest.1 hnofile, hdest.2⟩
  | open_ | close | fsync | fdatasync | syncFileRange =>
      refine iff_of_true trivial ⟨?_, ?_, ?_, ?_⟩ <;> simp [usedDirs, madeDirs, usedFiles, hcall]

lemma nil_notMem_usedFiles (hbelow : event.call ∈ mutating → OperandsBelow options event) :
    [] ∉ usedFiles options event := by
  intro h
  rw [usedFiles] at h
  cases hcall : event.call with
  | write | pwrite | writev | truncate | ftruncate | unlink =>
      simp only [hcall, List.mem_singleton] at h
      exact (hbelow (by simp [hcall, mutating])).1.below_ne_nil h.symm
  | rename | link =>
      have hops := hbelow (by simp [hcall, mutating])
      simp only [hcall, List.mem_cons, List.not_mem_nil, or_false] at h
      rcases h with h | h
      · exact hops.1.below_ne_nil h.symm
      · exact (hops.2 (by simp [hcall])).below_ne_nil h.symm
  | mkdir | open_ | close | fsync | fdatasync | syncFileRange => simp [hcall] at h

/-! ### The names after a number of events -/

section Replayed

variable (options) (events : List TraceEvent) (kept : ℕ → Prop)

/-- Which names may be names of one file after `n` events, in a state that keeps of
them only some with `may`, but all with `sure`. -/
def MayShare (may sure : ℕ → Prop) : ℕ → List Chars → List Chars → Prop
  | 0 => fun _ _ => False
  | n + 1 => fun r r' =>
      (MayShare may sure n r r' ∧ ∀ e ∈ events[n]?, sure n →
        ¬ Parts options (MayShare may sure n) e r ∧ ¬ Parts options (MayShare may sure n) e r') ∨
      ∃ e ∈ events[n]?, may n ∧ (Joins options (MayShare may sure n) e r r' ∨
        Joins options (MayShare may sure n) e r' r)

/-- The event at position `m`, if it is kept, takes the name away: it unlinks it,
or renames it to a name that cannot be one of the same file. -/
def Vacates (may sure : ℕ → Prop) (m : ℕ) (r : List Chars) : Prop :=
  ∃ e ∈ events[m]?, Removes options e r ∧ (e.call = .unlink ∨
    ¬ MayShare options events may sure m (below options e.path) (below options e.path2))

/-- The names below `targetDir` after the kept events among the first `n`. -/
structure Replayed (n : ℕ) (disk : Disk) : Prop where
  wf : disk.WF
  dir_iff : ∀ r, heldAt options disk r = some .dir ↔
    r = [] ∨ ∃ j < n, kept j ∧ ∃ e ∈ events[j]?, r ∈ madeDirs options e
  file_made : ∀ r i, heldAt options disk r = some (.file i) →
    ∃ j < n, kept j ∧ (∃ e ∈ events[j]?, r ∈ madeFiles options e) ∧
      ∀ m, j < m → m < n → kept m → ¬ Vacates options events kept kept m r
  file_kept : ∀ r j, j < n → kept j → (∃ e ∈ events[j]?, r ∈ madeFiles options e) →
    (∀ m, j < m → m < n → kept m → ¬ Vacates options events kept kept m r) →
      ∃ i, heldAt options disk r = some (.file i)
  shares_iff : ∀ r r', Shares options disk r r' ↔ MayShare options events kept kept n r r'

variable {options events}

/-- The fewer events may be kept, and the more are sure to be, the fewer names share
a file. -/
lemma MayShare.mono {may may' sure sure' : ℕ → Prop} {n : ℕ}
    (hmay : ∀ m < n, ∀ e ∈ events[m]?, e.call = .rename ∨ e.call = .link → may m → may' m)
    (hsure : ∀ m < n, sure' m → sure m) {r r' : List Chars}
    (h : MayShare options events may sure n r r') : MayShare options events may' sure' n r r' := by
  induction n generalizing r r' with
  | zero => exact h
  | succ n ih =>
      have hn : ∀ {x x'}, MayShare options events may sure n x x' →
          MayShare options events may' sure' n x x' :=
        ih (fun m hm => hmay m (hm.trans (Nat.lt_succ_self n)))
          fun m hm => hsure m (hm.trans (Nat.lt_succ_self n))
      have hparts : ∀ {e x}, Parts options (MayShare options events may' sure' n) e x →
          Parts options (MayShare options events may sure n) e x :=
        Or.imp_right fun ⟨hcall, hne, hno, hx⟩ => ⟨hcall, hne, mt hn hno, hx⟩
      have hjoins : ∀ {e x x'}, e ∈ events[n]? → may n →
          Joins options (MayShare options events may sure n) e x x' →
            may' n ∧ Joins options (MayShare options events may' sure' n) e x x' := by
        rintro e x x' he hmayn ⟨hne, hx, hcall⟩
        refine ⟨hmay n (Nat.lt_succ_self n) e he ?_ hmayn, hne, hx, ?_⟩
        · exact hcall.symm.imp And.left And.left
        · exact hcall.imp (And.imp_right (Or.imp_right hn)) (And.imp_right hn)
      rcases h with ⟨hold, hkeep⟩ | ⟨e, he, hmayn, hjoin⟩
      · refine Or.inl ⟨hn hold, fun e he hs => ?_⟩
        obtain ⟨h1, h2⟩ := hkeep e he (hsure n (Nat.lt_succ_self n) hs)
        exact ⟨mt hparts h1, mt hparts h2⟩
      · rcases hjoin with hjoin | hjoin
        · exact Or.inr ⟨e, he, (hjoins he hmayn hjoin).1, Or.inl (hjoins he hmayn hjoin).2⟩
        · exact Or.inr ⟨e, he, (hjoins he hmayn hjoin).1, Or.inr (hjoins he hmayn hjoin).2⟩

/-- What surely takes a name away does so in each state. -/
lemma Vacates.mono {may may' sure sure' : ℕ → Prop} {m : ℕ}
    (hmay : ∀ l < m, ∀ e ∈ events[l]?, e.call = .rename ∨ e.call = .link → may' l → may l)
    (hsure : ∀ l < m, sure l → sure' l) (h : Vacates options events may sure m r) :
    Vacates options events may' sure' m r := by
  obtain ⟨e, he, hrem, hcall⟩ := h
  exact ⟨e, he, hrem, hcall.imp_right (mt (MayShare.mono hmay hsure))⟩

/-- Without a link no two names share a file. -/
lemma not_mayShare {may sure : ℕ → Prop} {n : ℕ}
    (h : ∀ j < n, may j → ∀ e ∈ events[j]?, e.call ≠ .link) (r r' : List Chars) :
    ¬ MayShare options events may sure n r r' := by
  induction n generalizing r r' with
  | zero => exact fun h => h
  | succ n ih =>
      have hn := ih fun j hj => h j (hj.trans (Nat.lt_succ_self n))
      have hjoins : ∀ e ∈ events[n]?, may n → ∀ x x',
          ¬ Joins options (MayShare options events may sure n) e x x' := by
        rintro e he hmay x x' ⟨-, -, ⟨hcall, -⟩ | ⟨-, hshare⟩⟩
        · exact h n (Nat.lt_succ_self n) hmay e he hcall
        · exact hn _ _ hshare
      rintro (⟨hold, -⟩ | ⟨e, he, hmay, hjoin | hjoin⟩)
      · exact hn _ _ hold
      · exact hjoins e he hmay _ _ hjoin
      · exact hjoins e he hmay _ _ hjoin

variable {kept}

namespace Replayed

variable {n : ℕ}

/-- Where no link is kept, every file has one name. -/
lemma single (h : Replayed options events kept n disk)
    (hlink : ∀ j < n, kept j → ∀ e ∈ events[j]?, e.call ≠ .link) : Single options disk :=
  single_iff.mpr fun r r' => mt (h.shares_iff r r').mp (not_mayShare hlink r r')

/-- An empty target directory. -/
lemma zero (hempty : EmptyDir options.target disk) : Replayed options events kept 0 disk := by
  have hroot : heldAt options disk [] = some .dir := by simpa [heldAt] using hempty.dir
  have hfile : ∀ r i, heldAt options disk r ≠ some (.file i) := by
    intro r i
    by_cases hr : r = []
    · simp [hr, hroot]
    · simp [heldAt, hempty.empty r hr]
  refine ⟨hempty.wf, fun r => ?_, fun r i hi => absurd hi (hfile r i), ?_, ?_⟩
  · by_cases hr : r = []
    · simp [hr, hroot]
    · simp [hr, heldAt, hempty.empty r hr]
  · exact fun r j hj => absurd hj (Nat.not_lt_zero j)
  · intro r r'
    refine iff_of_false ?_ fun h => h
    rintro ⟨-, i, hi, -⟩
    exact hfile r i hi

/-- An event that is not kept changes nothing. -/
lemma skip (h : Replayed options events kept n disk) (hn : ¬ kept n) :
    Replayed options events kept (n + 1) disk := by
  have hlt : ∀ {j}, j < n + 1 → kept j → j < n := fun hj hk =>
    lt_of_le_of_ne (Nat.lt_succ_iff.mp hj) fun heq => hn (heq ▸ hk)
  refine ⟨h.wf, fun r => ?_, fun r i hi => ?_, fun r j hj hk hmade hvac => ?_, fun r r' => ?_⟩
  · rw [h.dir_iff]
    refine or_congr_right ⟨?_, ?_⟩
    · rintro ⟨j, hj, hk, hmade⟩
      exact ⟨j, hj.trans (Nat.lt_succ_self n), hk, hmade⟩
    · rintro ⟨j, hj, hk, hmade⟩
      exact ⟨j, hlt hj hk, hk, hmade⟩
  · obtain ⟨j, hj, hk, hmade, hvac⟩ := h.file_made r i hi
    exact ⟨j, hj.trans (Nat.lt_succ_self n), hk, hmade, fun m hjm hm hkm =>
      hvac m hjm (hlt hm hkm) hkm⟩
  · exact h.file_kept r j (hlt hj hk) hk hmade fun m hjm hm hkm =>
      hvac m hjm (hm.trans (Nat.lt_succ_self n)) hkm
  · rw [h.shares_iff, MayShare]
    constructor
    · exact fun hold => Or.inl ⟨hold, fun _ _ hkn => absurd hkn hn⟩
    · rintro (⟨hold, -⟩ | ⟨-, -, hkn, -⟩)
      · exact hold
      · exact absurd hkn hn

/-- **One kept event**, applied where its calls succeed, carries on what is
known of the names. -/
theorem step (h : Replayed options events kept n disk) (hn : kept n)
    (hevent : events[n]? = some event)
    (hbelow : event.call ∈ mutating → OperandsBelow options event)
    (happ : Applicable options disk event) :
    Replayed options events kept (n + 1) (applyEvent options store disk event bytes) := by
  have hsplit : ∀ {j}, j < n + 1 → j < n ∨ j = n := fun hj => Nat.lt_succ_iff_lt_or_eq.mp hj
  have hshares : ∀ {x x'}, Shares options disk x x' ↔ MayShare options events kept kept n x x' :=
    h.shares_iff _ _
  refine ⟨wf_applyEvent h.wf hbelow happ, fun r => ?_, fun r i hi => ?_,
    fun r j hj hk hmade hvac => ?_, fun r r' => ?_⟩
  · -- directories are added only
    rw [dir_applyEvent_iff hbelow happ, h.dir_iff]
    constructor
    · rintro (hr | hr | ⟨j, hj, hk, hmade⟩)
      · exact Or.inr ⟨n, Nat.lt_succ_self n, hn, event, hevent, hr⟩
      · exact Or.inl hr
      · exact Or.inr ⟨j, hj.trans (Nat.lt_succ_self n), hk, hmade⟩
    · rintro (hr | ⟨j, hj, hk, e, he, hr⟩)
      · exact Or.inr (Or.inl hr)
      · rcases hsplit hj with hlt | rfl
        · exact Or.inr (Or.inr ⟨j, hlt, hk, e, he, hr⟩)
        · rw [hevent, Option.mem_some] at he
          exact Or.inl (he ▸ hr)
  · -- a file after the event was made by it, or before and then not taken away
    rcases file_of_applyEvent h.wf hbelow hi with hr | ⟨hold, hother⟩
    · exact ⟨n, Nat.lt_succ_self n, hn, ⟨event, hevent, hr⟩, fun m hnm hm => by omega⟩
    · obtain ⟨j, hj, hk, hmade, hvac⟩ := h.file_made r i hold
      refine ⟨j, hj.trans (Nat.lt_succ_self n), hk, hmade, fun m hjm hm hkm => ?_⟩
      rcases hsplit hm with hlt | rfl
      · exact hvac m hjm hlt hkm
      · -- it is a rename to another name of the file
        rintro ⟨e, he, hrem, hcall⟩
        rw [hevent, Option.mem_some] at he
        subst he
        obtain ⟨hrename, hsame⟩ := hother hrem
        rcases hcall with hunlink | hno
        · rw [hrename] at hunlink
          cases hunlink
        · exact hno (hshares.mp hsame)
  · -- and a file that was made and not taken away is there
    rcases hsplit hj with hlt | rfl
    · obtain ⟨i, hi⟩ := h.file_kept r j hlt hk hmade fun m hjm hm =>
        hvac m hjm (hm.trans (Nat.lt_succ_self n))
      refine file_applyEvent hbelow happ hi fun hrem => ?_
      have hnot := hvac n hlt (Nat.lt_succ_self n) hn
      rw [Vacates] at hnot
      push Not at hnot
      obtain ⟨hcall, hmay⟩ := hnot event hevent hrem
      exact ⟨(hrem.2.resolve_left hcall).1, hshares.mpr hmay⟩
    · obtain ⟨e, he, hr⟩ := hmade
      rw [hevent, Option.mem_some] at he
      exact file_applyEvent_made (he ▸ hr)
  · rw [shares_applyEvent_iff h.wf hbelow happ, MayShare, hshares]
    have hmay : Shares options disk = MayShare options events kept kept n :=
      funext₂ fun x x' => propext hshares
    rw [hmay, hevent]
    simp [hn]

end Replayed

end Replayed

end CrashFuzz
