import CrashFuzz.Lib.FileTree

/-!
Two file trees of which one follows the other, at another place and except for
some files that it does not have yet.

* `Mirrors`: below `root` of the one tree and `target` of the other there are
  the same directories, and the same files with the same names and bytes,
  except for the inodes in `u`, which are empty files with a single name.
* `Mirrors.ensured`: a missing file is made up for; `Mirrors.addFile`: a new
  file is missing.
* `Mirrors.setData`, `Mirrors.renamed`, `Mirrors.linked`, `Mirrors.removeNode`,
  `Mirrors.addDir`: the same change on both sides keeps them alike.
* `Mirrors.sameTree_iff`: they look the same when no file is missing.
-/

namespace FileTree

open Volume

variable {Name Byte : Type} [DecidableEq Name]

/-! ### What a tree looks like -/

/-- What a reader finds at a location: nothing, a directory, or the bytes of a
file. -/
def Volume.contents (t : Volume Name Byte) (p : List Name) : Option (Option (List Byte)) :=
  (t.node p).map fun
    | .dir => none
    | .file i => some (t.data i)

/-- The same names with the same contents below two locations. -/
def SameTree (root target : List Name) (t t' : Volume Name Byte) : Prop :=
  ∀ r, t.contents (root ++ r) = t'.contents (target ++ r)

/-- A file with a name below `root`. -/
def Named (root : List Name) (t : Volume Name Byte) (i : ℕ) : Prop :=
  ∃ r, t.node (root ++ r) = some (.file i)

/-- What the other tree has in place of a node, where `m` gives the inode of
each file and the files in `u` are missing. -/
def twin (m : ℕ → ℕ) (u : Finset ℕ) : Option Node → Option Node
  | none => none
  | some .dir => some .dir
  | some (.file i) => if i ∈ u then none else some (.file (m i))

/-- The tree `t'` follows `t` below `target` and `root`, without the files in `u`. -/
structure Mirrors (root target : List Name) (m : ℕ → ℕ) (u : Finset ℕ)
    (t t' : Volume Name Byte) : Prop where
  wf : t.WF
  wf' : t'.WF
  base : t.node root = some .dir
  node : ∀ r, t'.node (target ++ r) = twin m u (t.node (root ++ r))
  inj : ∀ i j, Named root t i → Named root t j → i ∉ u → j ∉ u → m i = m j → i = j
  data : ∀ i, Named root t i → i ∉ u → t'.data (m i) = t.data i
  empty : ∀ i, Named root t i → i ∈ u → t.data i = []
  single : ∀ r r' i, t.node (root ++ r) = some (.file i) →
    t.node (root ++ r') = some (.file i) → i ∈ u → r = r'

variable {root target : List Name} {m : ℕ → ℕ} {u : Finset ℕ} {t t' s s' : Volume Name Byte}
  {b c r : List Name} {i : ℕ}

@[simp] lemma twin_none : twin m u none = none := rfl

@[simp] lemma twin_dir : twin m u (some .dir) = some .dir := rfl

lemma twin_file (h : i ∉ u) : twin m u (some (.file i)) = some (.file (m i)) := if_neg h

lemma twin_file_of_mem (h : i ∈ u) : twin m u (some (.file i)) = none := if_pos h

lemma twin_eq_dir {n : Option Node} : twin m u n = some .dir ↔ n = some .dir := by
  cases n with
  | none => simp
  | some n =>
      cases n with
      | dir => simp
      | file i => by_cases h : i ∈ u <;> simp [twin, h]

/-- The counterpart depends on the inodes of the files only. -/
lemma twin_congr {m' : ℕ → ℕ} {u' : Finset ℕ} {n : Option Node}
    (h : ∀ i, n = some (.file i) → (i ∈ u ↔ i ∈ u') ∧ m i = m' i) : twin m u n = twin m' u' n := by
  cases n with
  | none => rfl
  | some n =>
      cases n with
      | dir => rfl
      | file i => simp only [twin, (h i rfl).1, (h i rfl).2]

namespace Mirrors

/-- Two empty directories. -/
lemma start (hwf : t.WF) (hwf' : t'.WF) (hroot : t.node root = some .dir)
    (htarget : t'.node target = some .dir) (hempty : ∀ r ≠ [], t.node (root ++ r) = none)
    (hempty' : ∀ r ≠ [], t'.node (target ++ r) = none) : Mirrors root target m ∅ t t' := by
  have hnone : ∀ i, ¬ Named root t i := by
    rintro i ⟨r, hr⟩
    by_cases hnil : r = []
    · simp [hnil, hroot] at hr
    · simp [hempty r hnil] at hr
  refine ⟨hwf, hwf', hroot, fun r => ?_, fun i _ hi => absurd hi (hnone i),
    fun i hi => absurd hi (hnone i), fun i hi => absurd hi (hnone i), fun r _ i hr => ?_⟩
  · by_cases hnil : r = []
    · simp [hnil, hroot, htarget]
    · simp [hempty r hnil, hempty' r hnil]
  · exact absurd ⟨r, hr⟩ (hnone i)

variable (h : Mirrors root target m u t t')

include h

lemma dir_iff : t'.node (target ++ r) = some .dir ↔ t.node (root ++ r) = some .dir := by
  rw [h.node, twin_eq_dir]

lemma node_none (hr : t.node (root ++ r) = none) : t'.node (target ++ r) = none := by
  rw [h.node, hr, twin_none]

lemma node_file (hr : t.node (root ++ r) = some (.file i)) (hi : i ∉ u) :
    t'.node (target ++ r) = some (.file (m i)) := by
  rw [h.node, hr, twin_file hi]

/-- Only a directory is a directory on the other side. -/
lemma not_dir (hr : t.node (root ++ r) ≠ some .dir) : t'.node (target ++ r) ≠ some .dir :=
  h.dir_iff.not.mpr hr

/-- What is reached on the one side is reached on the other. -/
lemma reached (hb : b ≠ []) (hreach : t.Reached (root ++ b)) : t'.Reached (target ++ b) := by
  have htarget : t'.node target = some .dir := by
    have hnil := h.node []
    rw [List.append_nil, List.append_nil, h.base] at hnil
    exact hnil
  intro q hq
  rcases mem_way_append hb hq with hq | ⟨x, hx, rfl⟩
  · rcases mem_inits_iff.mp hq with rfl | hq
    · exact htarget
    · exact h.wf'.reached (by simp [htarget]) q hq
  · exact h.dir_iff.mpr (hreach _ ((append_mem_way hb).mpr hx))

/-- Changes of names only. -/
lemma of_names (hwf : s.WF) (hwf' : s'.WF) (hbase : s.node root = some .dir)
    (hdata : s.data = t.data) (hdata' : s'.data = t'.data)
    (hnode : ∀ r, s'.node (target ++ r) = twin m u (s.node (root ++ r)))
    (hnames : ∀ r i, s.node (root ++ r) = some (.file i) →
      ∃ r', t.node (root ++ r') = some (.file i) ∧ (i ∈ u → r' = r)) :
    Mirrors root target m u s s' := by
  have hnamed : ∀ {i}, Named root s i → Named root t i := by
    rintro i ⟨r, hr⟩
    obtain ⟨r', hr', -⟩ := hnames r i hr
    exact ⟨r', hr'⟩
  refine ⟨hwf, hwf', hbase, hnode, fun i j hi hj => h.inj i j (hnamed hi) (hnamed hj),
    fun i hi hu => ?_, fun i hi hu => ?_, fun r r' i hr hr' hu => ?_⟩
  · rw [hdata, hdata', h.data i (hnamed hi) hu]
  · rw [hdata, h.empty i (hnamed hi) hu]
  · obtain ⟨x, hx, hxr⟩ := hnames r i hr
    obtain ⟨y, hy, hyr⟩ := hnames r' i hr'
    rw [← hxr hu, ← hyr hu]
    exact h.single x y i hx hy hu

/-! ### Files that are missing -/

/-- A new file is missing on the other side. -/
lemma addFile (hreach : t.Reached (root ++ b)) (hb : t.node (root ++ b) = none) :
    Mirrors root target m (insert t.next u) (t.addFile (root ++ b)) t' := by
  have hold : ∀ {r i}, t.node (root ++ r) = some (.file i) → i ≠ t.next := fun hr =>
    (h.wf.fresh _ _ hr).ne
  have hcases : ∀ {r i}, (t.addFile (root ++ b)).node (root ++ r) = some (.file i) →
      (r = b ∧ i = t.next) ∨ (r ≠ b ∧ t.node (root ++ r) = some (.file i)) := by
    intro r i hr
    simp only [node_addFile, List.append_right_inj] at hr
    split at hr
    · rename_i hrb
      cases hr
      exact Or.inl ⟨hrb, rfl⟩
    · exact Or.inr ⟨‹_›, hr⟩
  have hnamed : ∀ {i}, Named root (t.addFile (root ++ b)) i → i ∉ insert t.next u →
      Named root t i ∧ i ∉ u := by
    rintro i ⟨r, hr⟩ hi
    rw [Finset.mem_insert, not_or] at hi
    rcases hcases hr with h | h
    · exact absurd h.2 hi.1
    · exact ⟨⟨r, h.2⟩, hi.2⟩
  refine ⟨h.wf.addFile hreach (by simp [hb]), h.wf', ?_, fun r => ?_, fun i j hi hj hiu hju => ?_,
    fun i hi hiu => ?_, fun i hi hiu => ?_, fun r r' i hr hr' hiu => ?_⟩
  · rw [node_addFile, if_neg, h.base]
    intro heq
    rw [← heq, h.base] at hb
    cases hb
  · simp only [node_addFile, List.append_right_inj]
    split
    · rename_i hrb
      rw [twin_file_of_mem (Finset.mem_insert_self _ _), hrb, h.node_none hb]
    · rw [h.node]
      refine twin_congr fun i hi => ⟨?_, rfl⟩
      simp [hold hi]
  · exact h.inj i j (hnamed hi hiu).1 (hnamed hj hju).1 (hnamed hi hiu).2 (hnamed hj hju).2
  · obtain ⟨hi', hiu'⟩ := hnamed hi hiu
    obtain ⟨r, hr⟩ := hi'
    rw [data_addFile, if_neg (hold hr), h.data i ⟨r, hr⟩ hiu']
  · rw [data_addFile]
    split
    · rfl
    · obtain ⟨r, hr⟩ := hi
      rcases hcases hr with h' | h'
      · exact absurd h'.2 ‹_›
      · exact h.empty i ⟨r, h'.2⟩ (Finset.mem_of_mem_insert_of_ne hiu ‹_›)
  · rcases hcases hr with ⟨rfl, rfl⟩ | ⟨-, h1⟩
    · rcases hcases hr' with ⟨rfl, -⟩ | ⟨-, h2⟩
      · rfl
      · exact absurd rfl (hold h2)
    · rcases hcases hr' with ⟨rfl, rfl⟩ | ⟨-, h2⟩
      · exact absurd rfl (hold h1)
      · exact h.single r r' i h1 h2 (Finset.mem_of_mem_insert_of_ne hiu (hold h1))

/-- A file that is opened for creation on the other side is missing no more. -/
lemma ensured (hb : b ≠ []) (hreach : t.Reached (root ++ b))
    (hi : t.node (root ++ b) = some (.file i)) :
    ∃ m', Mirrors root target m' (u.erase i) t (t'.ensured (target ++ b)) := by
  have hreach' := h.reached hb hreach
  have hens : t'.ensured (target ++ b) = t'.touch (target ++ b) := by
    rw [Volume.ensured, addDirs_eq_self hreach']
  rw [hens]
  by_cases hu : i ∈ u
  · -- the file is made, with the next inode
    have hnone : t'.node (target ++ b) = none := by rw [h.node, hi, twin_file_of_mem hu]
    rw [touch_of_not_file (by simp [hnone])]
    have hold : ∀ {j}, Named root t j → j ∉ u → m j ≠ t'.next := by
      rintro j ⟨r, hr⟩ hj
      exact (h.wf'.fresh _ _ (h.node_file hr hj)).ne
    have hmem : ∀ {j}, j ∉ u.erase i → j = i ∨ j ∉ u := by
      intro j hj
      rw [Finset.mem_erase, not_and_or, not_not] at hj
      exact hj
    refine ⟨Function.update m i t'.next, h.wf, h.wf'.addFile hreach' (by simp [hnone]), h.base,
      fun r => ?_, fun j k hj hk hju hku heq => ?_, fun j hj hju => ?_,
      fun j hj hju => h.empty j hj (Finset.mem_of_mem_erase hju),
      fun r r' j hr hr' hju => h.single r r' j hr hr' (Finset.mem_of_mem_erase hju)⟩
    · simp only [node_addFile, List.append_right_inj]
      split
      · rename_i hrb
        rw [hrb, hi, twin_file (Finset.notMem_erase i u), Function.update_self]
      · rename_i hrb
        rw [h.node]
        refine twin_congr fun j hj => ?_
        have hji : j ≠ i := fun heq => hrb (h.single r b i (heq ▸ hj) hi hu)
        rw [Function.update_of_ne hji, Finset.mem_erase, and_iff_right hji]
        exact ⟨Iff.rfl, rfl⟩
    · by_cases hji : j = i
      · by_cases hki : k = i
        · rw [hji, hki]
        · rw [hji, Function.update_self, Function.update_of_ne hki] at heq
          exact absurd heq.symm (hold hk ((hmem hku).resolve_left hki))
      · by_cases hki : k = i
        · rw [hki, Function.update_self, Function.update_of_ne hji] at heq
          exact absurd heq (hold hj ((hmem hju).resolve_left hji))
        · rw [Function.update_of_ne hji, Function.update_of_ne hki] at heq
          exact h.inj j k hj hk ((hmem hju).resolve_left hji) ((hmem hku).resolve_left hki) heq
    · by_cases hji : j = i
      · rw [hji, Function.update_self, data_addFile, if_pos rfl, h.empty i ⟨b, hi⟩ hu]
      · have hju' := (hmem hju).resolve_left hji
        rw [Function.update_of_ne hji, data_addFile, if_neg (hold hj hju'), h.data j hj hju']
  · rw [touch_of_file (h.node_file hi hu), Finset.erase_eq_of_notMem hu]
    exact ⟨m, h⟩

/-! ### The same change on both sides -/

/-- The bytes of a file change. -/
lemma setData (hi : Named root t i) (hu : i ∉ u) (f : List Byte → List Byte) :
    Mirrors root target m u (t.setData i (f (t.data i)))
      (t'.setData (m i) (f (t'.data (m i)))) := by
  refine ⟨h.wf.setData, h.wf'.setData, h.base, h.node, h.inj, fun j hj hju => ?_,
    fun j hj hju => ?_, h.single⟩
  · rw [data_setData, data_setData, h.data i hi hu]
    by_cases hji : j = i
    · rw [if_pos (congrArg m hji), if_pos hji]
    · rw [if_neg fun heq => hji (h.inj j i hj hi hju hu heq), if_neg hji, h.data j hj hju]
  · rw [data_setData, if_neg, h.empty j hj hju]
    rintro rfl
    exact hu hju

/-- Editing a file by its names. -/
lemma edit (hi : t.node (root ++ b) = some (.file i)) (hu : i ∉ u) (f : List Byte → List Byte) :
    Mirrors root target m u (t.setData i (f (t.data i))) (t'.edit (target ++ b) f) := by
  rw [Volume.edit, h.node_file hi hu]
  exact h.setData ⟨b, hi⟩ hu f

/-- A file takes another name. -/
lemma renamed (hb : b ≠ []) (hc : c ≠ []) (hi : t.node (root ++ b) = some (.file i))
    (hu : i ∉ u) (hreach : t.Reached (root ++ c)) (hdir : t.node (root ++ c) ≠ some .dir) :
    Mirrors root target m u (t.renamed (root ++ b) (root ++ c))
      (t'.renamed (target ++ b) (target ++ c)) := by
  have hi' := h.node_file hi hu
  by_cases hsame : t.node (root ++ c) = some (.file i)
  · rw [renamed_of_same hi hsame, renamed_of_same hi' (h.node_file hsame hu)]
    exact h
  · have hdiff : t'.node (target ++ c) ≠ some (.file (m i)) := by
      intro heq
      rw [h.node] at heq
      cases hn : t.node (root ++ c) with
      | none => simp [hn] at heq
      | some n =>
          cases n with
          | dir => exact hdir hn
          | file j =>
              by_cases hju : j ∈ u
              · simp [hn, twin_file_of_mem hju] at heq
              · rw [hn, twin_file hju, Option.some.injEq, Node.file.injEq] at heq
                exact hsame (hn.trans (by rw [h.inj j i ⟨c, hn⟩ ⟨b, hi⟩ hju hu heq]))
    have hwf := h.wf.move hi hdir hreach
    have hwf' := h.wf'.move hi' (h.not_dir hdir) (h.reached hc hreach)
    rw [renamed_of_ne hi hsame, renamed_of_ne hi' hdiff]
    refine h.of_names hwf hwf' ?_ rfl rfl (fun r => ?_) fun r j hr => ?_
    · have hne : ∀ {x : List Name}, x ≠ [] → root ≠ root ++ x := fun hx heq =>
        hx (List.append_right_eq_self.mp heq.symm)
      rw [node_move, if_neg (hne hc), if_neg (hne hb), h.base]
    · simp only [node_move, List.append_right_inj]
      split
      · rw [twin_file hu]
      · split
        · rfl
        · exact h.node r
    · simp only [node_move, List.append_right_inj] at hr
      split at hr
      · cases hr
        exact ⟨b, hi, fun hiu => absurd hiu hu⟩
      · split at hr
        · cases hr
        · exact ⟨r, hr, fun _ => rfl⟩

/-- A file gets another name. -/
lemma linked (hc : c ≠ []) (hi : t.node (root ++ b) = some (.file i)) (hu : i ∉ u)
    (hreach : t.Reached (root ++ c)) (hnone : t.node (root ++ c) = none) :
    Mirrors root target m u (t.linked (root ++ b) (root ++ c))
      (t'.linked (target ++ b) (target ++ c)) := by
  have hi' := h.node_file hi hu
  have hwf := h.wf.linked (p := root ++ b) (by simp [hnone]) hreach
  have hwf' := h.wf'.linked (p := target ++ b) (by simp [h.node_none hnone]) (h.reached hc hreach)
  rw [linked_eq hi] at hwf ⊢
  rw [linked_eq hi'] at hwf' ⊢
  refine h.of_names hwf hwf' ?_ rfl rfl (fun r => ?_) fun r j hr => ?_
  · rw [node_setNode, if_neg, h.base]
    exact fun heq => hc (List.append_right_eq_self.mp heq.symm)
  · simp only [node_setNode, List.append_right_inj]
    split
    · rw [twin_file hu]
    · exact h.node r
  · simp only [node_setNode, List.append_right_inj] at hr
    split at hr
    · cases hr
      exact ⟨b, hi, fun hiu => absurd hiu hu⟩
    · exact ⟨r, hr, fun _ => rfl⟩

/-- A name of a file goes. -/
lemma removeNode (hb : b ≠ []) (hdir : t.node (root ++ b) ≠ some .dir) :
    Mirrors root target m u (t.removeNode (root ++ b)) (t'.removeNode (target ++ b)) := by
  refine h.of_names (h.wf.removeNode hdir) (h.wf'.removeNode (h.not_dir hdir)) ?_ rfl rfl
    (fun r => ?_) fun r j hr => ?_
  · rw [node_removeNode, if_neg, h.base]
    exact fun heq => hb (List.append_right_eq_self.mp heq.symm)
  · simp only [node_removeNode, List.append_right_inj]
    split
    · rfl
    · exact h.node r
  · simp only [node_removeNode, List.append_right_inj] at hr
    split at hr
    · cases hr
    · exact ⟨r, hr, fun _ => rfl⟩

/-- A new directory, made with those on its way where they are missing. -/
lemma addDir (hb : b ≠ []) (hreach : t.Reached (root ++ b)) (hnone : t.node (root ++ b) = none) :
    Mirrors root target m u (t.setNode (root ++ b) .dir)
      (t'.addDirs (target ++ b).inits) := by
  refine h.of_names (h.wf.setNode hreach (by simp [hnone]) (by simp)) h.wf'.addDirs ?_ (by simp)
    (by simp) (fun r => ?_) fun r j hr => ?_
  · rw [node_setNode, if_neg, h.base]
    exact fun heq => hb (List.append_right_eq_self.mp heq.symm)
  · simp only [node_addDirs, node_setNode, mem_inits_iff, List.append_right_inj]
    by_cases hrb : r = b
    · simp [hrb]
    · rw [if_neg hrb, ← h.node]
      split
      · rename_i hway
        exact (h.reached hb hreach _ (hway.resolve_left hrb)).symm
      · rfl
  · simp only [node_setNode, List.append_right_inj] at hr
    split at hr
    · cases hr
    · exact ⟨r, hr, fun _ => rfl⟩

/-- **When the two trees look the same**: no file is missing. -/
theorem sameTree_iff : SameTree root target t t' ↔ ∀ i, Named root t i → i ∉ u := by
  constructor
  · rintro hsame i ⟨r, hr⟩ hu
    have := hsame r
    rw [contents, contents, h.node, hr, twin_file_of_mem hu] at this
    simp at this
  · intro hu r
    rw [contents, contents, h.node]
    cases hn : t.node (root ++ r) with
    | none => rfl
    | some n =>
        cases n with
        | dir => rfl
        | file i =>
            rw [twin_file (hu i ⟨r, hn⟩)]
            exact congrArg (fun bytes => some (some bytes)) (h.data i ⟨r, hn⟩ (hu i ⟨r, hn⟩)).symm

end Mirrors

end FileTree
