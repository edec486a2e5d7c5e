import Mathlib.Tactic

/-!
A tree of directories and files with hard links, and the calls that change it.

* `Volume`: what each location holds, a directory or a file given by its inode,
  and the bytes of each inode. A location is the list of names that lead to it.
* `mkdir`, `mkdirAll`, `create`, `write`, `truncate`, `rename`, `link`,
  `unlink`, `remove`: the calls, failing with an `Errno` as the system does.
* `node_addDirs`, `node_touch`, `node_move`, …: what each change leaves at each
  location; `read_edit`, `read_ensured`, `read_renamed`: of its bytes.
* `Volume.WF`: inode numbers are issued once, and what exists is in a directory;
  the calls keep both.
-/

namespace FileTree

variable {Name Byte : Type}

/-- What a location holds. -/
inductive Node where
  | dir
  | file (inode : ℕ)
  deriving DecidableEq, Repr

/-- Why a call fails. -/
inductive Errno where
  | noent | notdir | isdir | exist | notempty | inval | perm | badf
  deriving DecidableEq, Repr

/-- A file tree. -/
structure Volume (Name Byte : Type) where
  entries : List (List Name × Node)
  /-- The bytes of each inode. -/
  data : ℕ → List Byte
  /-- The next inode number. -/
  next : ℕ

namespace Volume

/-! ### Single changes -/

def setNode (t : Volume Name Byte) (p : List Name) (n : Node) : Volume Name Byte :=
  { t with entries := (p, n) :: t.entries }

def setData (t : Volume Name Byte) (i : ℕ) (bytes : List Byte) : Volume Name Byte :=
  { t with data := Function.update t.data i bytes }

/-- A new empty file at a location. -/
def addFile (t : Volume Name Byte) (p : List Name) : Volume Name Byte :=
  { entries := (p, .file t.next) :: t.entries
    data := Function.update t.data t.next []
    next := t.next + 1 }

section

variable {t : Volume Name Byte} {p : List Name} {i : ℕ}

@[simp] lemma data_setData {bytes : List Byte} {j : ℕ} :
    (t.setData i bytes).data j = if j = i then bytes else t.data j := by
  simp [setData, Function.update_apply]

@[simp] lemma next_setData {bytes : List Byte} : (t.setData i bytes).next = t.next := rfl

@[simp] lemma data_setNode {n : Node} : (t.setNode p n).data = t.data := rfl

@[simp] lemma next_setNode {n : Node} : (t.setNode p n).next = t.next := rfl

@[simp] lemma data_addFile {j : ℕ} :
    (t.addFile p).data j = if j = t.next then [] else t.data j := by
  simp [addFile, Function.update_apply]

@[simp] lemma next_addFile : (t.addFile p).next = t.next + 1 := rfl

end

/-! ### The way to a location -/

/-- The directories on the way to a location. -/
def way (p : List Name) : List (List Name) := p.dropLast.inits

section

variable {p q x : List Name}

lemma mem_way : q ∈ way p ↔ q <+: p.dropLast := List.mem_inits q p.dropLast

lemma dropLast_mem_way : p.dropLast ∈ way p := mem_way.mpr List.prefix_rfl

lemma ne_of_mem_way (hp : p ≠ []) (h : q ∈ way p) : q ≠ p := by
  rintro rfl
  have hlen := (mem_way.mp h).length_le
  have := List.length_pos_iff.mpr hp
  rw [List.length_dropLast] at hlen
  omega

/-- What lies on the way to a location is the location or on the way to it. -/
lemma mem_inits_iff : q ∈ p.inits ↔ q = p ∨ q ∈ way p := by
  rw [List.mem_inits, mem_way]
  cases p using List.reverseRecOn with
  | nil => simp
  | append_singleton p n => rw [List.prefix_concat_iff, List.dropLast_concat]

/-- The part of a way below a directory is the way below it. -/
lemma append_mem_way {base b r : List Name} (hb : b ≠ []) :
    base ++ r ∈ way (base ++ b) ↔ r ∈ way b := by
  rw [mem_way, mem_way, List.dropLast_append_of_ne_nil hb, List.prefix_append_right_inj]

/-- What is on a way through a directory is above the directory or below it. -/
lemma mem_way_append {base b : List Name} (hb : b ≠ []) (h : x ∈ way (base ++ b)) :
    x ∈ base.inits ∨ ∃ r ∈ way b, x = base ++ r := by
  rw [mem_way, List.dropLast_append_of_ne_nil hb] at h
  rcases List.prefix_or_prefix_of_prefix h (List.prefix_append base b.dropLast) with hx | ⟨r, rfl⟩
  · exact Or.inl ((List.mem_inits _ _).mpr hx)
  · exact Or.inr ⟨r, mem_way.mpr ((List.prefix_append_right_inj _).mp h), rfl⟩

lemma pairwise_inits (p : List Name) : p.inits.Pairwise fun a b => a <+: b ∧ a ≠ b := by
  induction p with
  | nil => simp
  | cons n p ih =>
      rw [List.inits_cons, List.pairwise_cons, List.pairwise_map]
      refine ⟨fun b hb => ?_, ih.imp fun h => ?_⟩
      · obtain ⟨c, -, rfl⟩ := List.mem_map.mp hb
        exact ⟨List.nil_prefix, by simp⟩
      · exact ⟨List.cons_prefix_cons.mpr ⟨rfl, h.1⟩, fun heq => h.2 (List.cons.inj heq).2⟩

end

variable [DecidableEq Name]

/-! ### Reading and changing locations -/

/-- What is at a location. -/
def node (t : Volume Name Byte) (p : List Name) : Option Node := t.entries.lookup p

def removeNode (t : Volume Name Byte) (p : List Name) : Volume Name Byte :=
  { t with entries := t.entries.filter fun entry => entry.1 ≠ p }

/-- The location becomes a file, unless it is one. -/
def touch (t : Volume Name Byte) (p : List Name) : Volume Name Byte :=
  match t.node p with
  | some (.file _) => t
  | _ => t.addFile p

/-- The locations become directories. -/
def addDirs (t : Volume Name Byte) (ps : List (List Name)) : Volume Name Byte :=
  ps.foldl (fun t p => if t.node p = some .dir then t else t.setNode p .dir) t

/-- A file moves to another location. -/
def move (t : Volume Name Byte) (p q : List Name) (i : ℕ) : Volume Name Byte :=
  (t.removeNode p).setNode q (.file i)

/-- The bytes of the file at a location change. -/
def edit (t : Volume Name Byte) (p : List Name) (f : List Byte → List Byte) : Volume Name Byte :=
  match t.node p with
  | some (.file i) => t.setData i (f (t.data i))
  | _ => t

/-- A file takes another name; of two names of one file both stay. -/
def renamed (t : Volume Name Byte) (p q : List Name) : Volume Name Byte :=
  match t.node p with
  | some (.file i) => if t.node q = some (.file i) then t else t.move p q i
  | _ => t

/-- A file gets another name. -/
def linked (t : Volume Name Byte) (p q : List Name) : Volume Name Byte :=
  match t.node p with
  | some (.file i) => t.setNode q (.file i)
  | _ => t

/-- A directory moves with everything below it. -/
def moveDir (t : Volume Name Byte) (p q : List Name) : Volume Name Byte :=
  { t with entries := (t.removeNode q).entries.map fun entry =>
      if p <+: entry.1 then (q ++ entry.1.drop p.length, entry.2) else entry }

/-! ### The calls -/

/-- One of the directories on the way. -/
def enter (t : Volume Name Byte) (q : List Name) : Except Errno Unit :=
  match t.node q with
  | some .dir => .ok ()
  | some (.file _) => .error .notdir
  | none => .error .noent

def follow (t : Volume Name Byte) : List (List Name) → Except Errno Unit
  | [] => .ok ()
  | q :: qs => do
      t.enter q
      t.follow qs

/-- Following the directories on the way to a location. -/
def reach (t : Volume Name Byte) (p : List Name) : Except Errno Unit := t.follow (way p)

/-- The inode of a file. -/
def inode (t : Volume Name Byte) (p : List Name) : Except Errno ℕ := do
  t.reach p
  match t.node p with
  | some (.file i) => .ok i
  | some .dir => .error .isdir
  | none => .error .noent

/-- `mkdir`. -/
def mkdir (t : Volume Name Byte) (p : List Name) : Except Errno (Volume Name Byte) := do
  t.reach p
  match t.node p with
  | some _ => .error .exist
  | none => .ok (t.setNode p .dir)

/-- One directory of `mkdirAll`. -/
def makeDir (t : Volume Name Byte) (q : List Name) : Except Errno (Volume Name Byte) :=
  match t.node q with
  | some .dir => .ok t
  | some (.file _) => .error .notdir
  | none => .ok (t.setNode q .dir)

/-- `mkdir -p`. -/
def mkdirAll (t : Volume Name Byte) (p : List Name) : Except Errno (Volume Name Byte) :=
  p.inits.foldlM makeDir t

/-- `open` with `O_CREAT`, for writing. -/
def create (t : Volume Name Byte) (p : List Name) : Except Errno (Volume Name Byte) := do
  t.reach p
  match t.node p with
  | some .dir => .error .isdir
  | _ => .ok (t.touch p)

/-- Bytes written over others from an offset on; a gap is filled with zeros. -/
def splice [Zero Byte] (old : List Byte) (offset : ℕ) (bytes : List Byte) : List Byte :=
  if bytes = [] then old
  else (old ++ List.replicate (offset - old.length) 0).take offset ++ bytes ++
    old.drop (offset + bytes.length)

/-- What is written to the end is appended. -/
lemma splice_length [Zero Byte] (old bytes : List Byte) :
    splice old old.length bytes = old ++ bytes := by
  rw [splice]
  split
  · next hnil => rw [hnil, List.append_nil]
  · simp

/-- The bytes after a write. -/
lemma getElem?_splice [Zero Byte] (old bytes : List Byte) (offset j : ℕ) (hbytes : bytes ≠ []) :
    (splice old offset bytes)[j]? =
      if j < offset then some (old[j]?.getD 0)
      else if j < offset + bytes.length then bytes[j - offset]? else old[j]? := by
  have hlen : ((old ++ List.replicate (offset - old.length) 0).take offset).length = offset := by
    rw [List.length_take, List.length_append, List.length_replicate]
    omega
  rw [splice, if_neg hbytes, List.append_assoc]
  by_cases hj : j < offset
  · rw [if_pos hj, List.getElem?_append_left (by omega), List.getElem?_take, if_pos hj]
    by_cases hold : j < old.length
    · rw [List.getElem?_append_left hold, List.getElem?_eq_getElem hold]
      rfl
    · rw [List.getElem?_append_right (by omega), List.getElem?_replicate, if_pos (by omega),
        List.getElem?_eq_none (by omega)]
      rfl
  · rw [if_neg hj, List.getElem?_append_right (by omega), hlen]
    by_cases hj' : j < offset + bytes.length
    · rw [if_pos hj', List.getElem?_append_left (by omega)]
    · rw [if_neg hj', List.getElem?_append_right (by omega), List.getElem?_drop]
      congr 1
      omega

/-- Writes to ranges of which one ends before the other begins commute. -/
lemma splice_comm_of_le [Zero Byte] (old : List Byte) {b b' : List Byte} {o o' : ℕ}
    (h : o + b.length ≤ o') :
    splice (splice old o b) o' b' = splice (splice old o' b') o b := by
  by_cases hb : b = []
  · simp [hb, splice]
  by_cases hb' : b' = []
  · simp [hb', splice]
  refine List.ext_getElem? fun j => ?_
  simp only [getElem?_splice _ _ _ _ hb, getElem?_splice _ _ _ _ hb']
  grind

lemma length_splice [Zero Byte] (old bytes : List Byte) (offset : ℕ) (h : offset ≤ old.length) :
    (splice old offset bytes).length = max old.length (offset + bytes.length) := by
  rw [splice]
  split
  · next hnil =>
      rw [hnil, List.length_nil]
      omega
  · rw [List.length_append, List.length_append, List.length_take, List.length_append,
      List.length_replicate, List.length_drop]
    omega

/-- Bytes cut or filled with zeros to a length. -/
def resize [Zero Byte] (old : List Byte) (length : ℕ) : List Byte :=
  old.take length ++ List.replicate (length - old.length) 0

/-- `pwrite` to the file at a location. -/
def write [Zero Byte] (t : Volume Name Byte) (p : List Name) (offset : ℕ) (bytes : List Byte) :
    Except Errno (Volume Name Byte) := do
  let _ ← t.inode p
  return t.edit p (splice · offset bytes)

/-- `truncate`. -/
def truncate [Zero Byte] (t : Volume Name Byte) (p : List Name) (length : ℕ) :
    Except Errno (Volume Name Byte) := do
  let _ ← t.inode p
  return t.edit p (resize · length)

/-- `rename`: of two names of one file it does nothing. -/
def rename (t : Volume Name Byte) (p q : List Name) : Except Errno (Volume Name Byte) := do
  t.reach p
  t.reach q
  match t.node p, t.node q with
  | none, _ => .error .noent
  | some (.file _), some .dir => .error .isdir
  | some (.file _), _ => .ok (t.renamed p q)
  | some .dir, dest =>
      if p = q then .ok t
      else if p <+: q then .error .inval
      else if t.entries.any fun entry => q <+: entry.1 ∧ entry.1 ≠ q then .error .notempty
      else
        match dest with
        | some (.file _) => .error .notdir
        | _ => .ok (t.moveDir p q)

/-- `link`. -/
def link (t : Volume Name Byte) (p q : List Name) : Except Errno (Volume Name Byte) := do
  t.reach p
  t.reach q
  match t.node p, t.node q with
  | none, _ => .error .noent
  | some .dir, _ => .error .perm
  | some (.file _), some _ => .error .exist
  | some (.file _), none => .ok (t.linked p q)

/-- `unlink`. -/
def unlink (t : Volume Name Byte) (p : List Name) : Except Errno (Volume Name Byte) := do
  let _ ← t.inode p
  return t.removeNode p

/-- `rm -f`: nothing to remove is no failure. -/
def remove (t : Volume Name Byte) (p : List Name) : Except Errno (Volume Name Byte) :=
  match t.inode p with
  | .ok _ => .ok (t.removeNode p)
  | .error .noent => .ok t
  | .error e => .error e

/-- The bytes of a file. -/
def read (t : Volume Name Byte) (p : List Name) : Option (List Byte) :=
  match t.node p with
  | some (.file i) => some (t.data i)
  | _ => none

/-- The names in a directory. -/
def list (t : Volume Name Byte) (p : List Name) : List Name :=
  (t.entries.filterMap fun entry =>
    if entry.1.dropLast = p then entry.1.getLast? else none).dedup

/-! ### What each change leaves -/

variable {t : Volume Name Byte} {p q x : List Name} {i : ℕ}

lemma lookup_cons {entries : List (List Name × Node)} {n : Node} :
    ((p, n) :: entries).lookup x = if x = p then some n else entries.lookup x := by
  by_cases h : x = p
  · simp [h]
  · rw [List.lookup_cons, beq_false_of_ne h, if_neg h]

@[simp] lemma node_setNode {n : Node} :
    (t.setNode p n).node x = if x = p then some n else t.node x := lookup_cons

@[simp] lemma node_removeNode : (t.removeNode p).node x = if x = p then none else t.node x := by
  have key : ∀ entries : List (List Name × Node),
      (entries.filter fun entry => entry.1 ≠ p).lookup x =
        if x = p then none else entries.lookup x := by
    intro entries
    induction entries with
    | nil => simp
    | cons entry entries ih =>
        obtain ⟨y, n⟩ := entry
        by_cases hy : y = p
        · rw [List.filter_cons_of_neg (by simpa using hy), ih, lookup_cons, hy]
          split <;> rfl
        · rw [List.filter_cons_of_pos (by simpa using hy), lookup_cons, lookup_cons, ih]
          split
          · rename_i hx
            rw [if_neg (hx ▸ hy)]
          · rfl
  exact key t.entries

@[simp] lemma node_setData {bytes : List Byte} : (t.setData i bytes).node x = t.node x := rfl

@[simp] lemma data_removeNode : (t.removeNode p).data = t.data := rfl

@[simp] lemma next_removeNode : (t.removeNode p).next = t.next := rfl

@[simp] lemma node_addFile :
    (t.addFile p).node x = if x = p then some (.file t.next) else t.node x :=
  node_setNode

/-- Where there is no file, `touch` makes one. -/
lemma touch_of_not_file (h : ∀ i, t.node p ≠ some (.file i)) : t.touch p = t.addFile p := by
  rw [touch]
  split
  · rename_i i hi
    exact absurd hi (h i)
  · rfl

lemma touch_of_file (h : t.node p = some (.file i)) : t.touch p = t := by
  rw [touch, h]

/-- After `touch` the location is a file. -/
lemma exists_node_touch : ∃ i, (t.touch p).node p = some (.file i) := by
  by_cases h : ∀ i, t.node p ≠ some (.file i)
  · exact ⟨t.next, by rw [touch_of_not_file h]; simp⟩
  · push Not at h
    obtain ⟨i, hi⟩ := h
    exact ⟨i, by rw [touch_of_file hi, hi]⟩

/-- Other locations are as before. -/
lemma node_touch_of_ne (h : x ≠ p) : (t.touch p).node x = t.node x := by
  rw [touch]
  split
  · rfl
  · simp [h]

@[simp] lemma node_move : (t.move p q i).node x =
    if x = q then some (.file i) else if x = p then none else t.node x := by
  simp [move]

/-- The locations are directories, the other ones as before. -/
lemma node_addDirs {ps : List (List Name)} :
    (t.addDirs ps).node x = if x ∈ ps then some .dir else t.node x := by
  rw [addDirs]
  induction ps generalizing t with
  | nil => simp
  | cons p ps ih =>
      rw [List.foldl_cons, ih]
      by_cases hp : t.node p = some .dir
      · by_cases hx : x = p
        · simp [hp, hx]
        · simp [hp, hx]
      · by_cases hx : x = p
        · simp [hp, hx]
        · simp [hp, hx]

/-- Directories that exist are not added. -/
lemma addDirs_eq_self {ps : List (List Name)} (h : ∀ p ∈ ps, t.node p = some .dir) :
    t.addDirs ps = t := by
  rw [addDirs]
  induction ps with
  | nil => rfl
  | cons p ps ih =>
      rw [List.foldl_cons, if_pos (h p (by simp))]
      exact ih fun q hq => h q (by simp [hq])

@[simp] lemma data_addDirs {ps : List (List Name)} : (t.addDirs ps).data = t.data := by
  rw [addDirs]
  induction ps generalizing t with
  | nil => rfl
  | cons p ps ih =>
      rw [List.foldl_cons, ih]
      split <;> rfl

@[simp] lemma next_addDirs {ps : List (List Name)} : (t.addDirs ps).next = t.next := by
  rw [addDirs]
  induction ps generalizing t with
  | nil => rfl
  | cons p ps ih =>
      rw [List.foldl_cons, ih]
      split <;> rfl

@[simp] lemma node_edit {f : List Byte → List Byte} : (t.edit p f).node x = t.node x := by
  rw [edit]
  split <;> simp

@[simp] lemma next_edit {f : List Byte → List Byte} : (t.edit p f).next = t.next := by
  rw [edit]
  split <;> simp

lemma renamed_of_same (hp : t.node p = some (.file i)) (hq : t.node q = some (.file i)) :
    t.renamed p q = t := by
  simp only [renamed, hp, if_pos hq]

lemma renamed_of_ne (hp : t.node p = some (.file i)) (hq : t.node q ≠ some (.file i)) :
    t.renamed p q = t.move p q i := by
  simp only [renamed, hp, if_neg hq]

lemma linked_eq (hp : t.node p = some (.file i)) : t.linked p q = t.setNode q (.file i) := by
  rw [linked, hp]

/-! ### Well-formed trees -/

/-- The directories on the way to a location exist. -/
def Reached (t : Volume Name Byte) (p : List Name) : Prop := ∀ q ∈ way p, t.node q = some .dir

/-- There is no file at a location. -/
def NoFile (t : Volume Name Byte) (p : List Name) : Prop := ∀ i, t.node p ≠ some (.file i)

/-- The root is a directory, what exists is in a directory, and the inodes in
use are below the next one. -/
structure WF (t : Volume Name Byte) : Prop where
  root : t.node [] = some .dir
  parent : ∀ p n, t.node (p ++ [n]) ≠ none → t.node p = some .dir
  fresh : ∀ p i, t.node p = some (.file i) → i < t.next

namespace WF

variable (hwf : t.WF)

include hwf

/-- The directories on the way to what exists exist. -/
lemma reached (h : t.node p ≠ none) : t.Reached p := by
  induction p using List.reverseRecOn with
  | nil =>
      intro q hq
      obtain rfl : q = [] := by simpa [mem_way] using hq
      exact hwf.root
  | append_singleton p n ih =>
      have hdir := hwf.parent p n h
      intro q hq
      rw [mem_way, List.dropLast_concat, ← List.mem_inits, mem_inits_iff] at hq
      rcases hq with rfl | hq
      · exact hdir
      · exact ih (by simp [hdir]) q hq

lemma setNode {n : Node} (hreach : t.Reached p) (hp : t.node p ≠ some .dir)
    (hn : ∀ i, n = .file i → i < t.next) : (t.setNode p n).WF := by
  have hne : p ≠ [] := fun h => hp (h ▸ hwf.root)
  refine ⟨?_, fun y m hy => ?_, fun y i hy => ?_⟩
  · rw [node_setNode, if_neg (Ne.symm hne), hwf.root]
  · rw [node_setNode] at hy ⊢
    split at hy
    · rename_i heq
      have hway : y ∈ way p := by
        rw [← heq, mem_way, List.dropLast_concat]
      rw [if_neg (ne_of_mem_way hne hway), hreach y hway]
    · have hdir := hwf.parent y m hy
      rw [if_neg, hdir]
      exact fun heq => hp (heq ▸ hdir)
  · rw [node_setNode] at hy
    split at hy
    · exact hn i (by simpa using hy)
    · exact hwf.fresh y i hy

lemma removeNode (hp : t.node p ≠ some .dir) : (t.removeNode p).WF := by
  refine ⟨?_, fun y m hy => ?_, fun y i hy => ?_⟩
  · rw [node_removeNode, if_neg, hwf.root]
    exact fun h => hp (h ▸ hwf.root)
  · rw [node_removeNode] at hy ⊢
    split at hy
    · exact absurd rfl hy
    · have hdir := hwf.parent y m hy
      rw [if_neg, hdir]
      exact fun heq => hp (heq ▸ hdir)
  · rw [node_removeNode] at hy
    split at hy
    · cases hy
    · exact hwf.fresh y i hy

lemma setData {bytes : List Byte} : (t.setData i bytes).WF := ⟨hwf.root, hwf.parent, hwf.fresh⟩

lemma addFile (hreach : t.Reached p) (hp : t.node p ≠ some .dir) : (t.addFile p).WF := by
  have hnext : ({ t with next := t.next + 1 } : Volume Name Byte).WF :=
    ⟨hwf.root, hwf.parent, fun y i hy => (hwf.fresh y i hy).trans (Nat.lt_succ_self _)⟩
  have hset := hnext.setNode (n := .file t.next) hreach hp fun i hi => by
    cases hi
    exact Nat.lt_succ_self _
  exact ⟨hset.root, hset.parent, hset.fresh⟩

lemma touch (hreach : t.Reached p) (hp : t.node p ≠ some .dir) : (t.touch p).WF := by
  rw [Volume.touch]
  split
  · exact hwf
  · exact hwf.addFile hreach hp

lemma move (hp : t.node p = some (.file i)) (hq : t.node q ≠ some .dir) (hreach : t.Reached q) :
    (t.move p q i).WF := by
  have hdir : t.node p ≠ some .dir := by simp [hp]
  refine (hwf.removeNode hdir).setNode (fun x hx => ?_) ?_ ?_
  · rw [node_removeNode, if_neg, hreach x hx]
    rintro rfl
    exact hdir (hreach x hx)
  · rw [node_removeNode]
    split
    · simp
    · exact hq
  · rintro j hj
    cases hj
    exact hwf.fresh p i hp

/-- Adding the directories on the way to a location and the location. -/
lemma addDirs : (t.addDirs p.inits).WF := by
  refine ⟨?_, fun y m hy => ?_, fun y i hy => ?_⟩
  · rw [node_addDirs, hwf.root]
    split <;> rfl
  · rw [node_addDirs] at hy ⊢
    split
    · rfl
    · rename_i hno
      refine hwf.parent y m ?_
      rwa [if_neg] at hy
      intro hmem
      exact hno ((List.mem_inits _ _).mpr ((List.prefix_append y [m]).trans
        ((List.mem_inits _ _).mp hmem)))
  · rw [node_addDirs] at hy
    rw [next_addDirs]
    split at hy
    · cases hy
    · exact hwf.fresh y i hy

lemma edit {f : List Byte → List Byte} : (t.edit p f).WF := by
  rw [Volume.edit]
  split
  · exact hwf.setData
  · exact hwf

lemma renamed (hq : t.node q ≠ some .dir) (hreach : t.Reached q) : (t.renamed p q).WF := by
  rw [Volume.renamed]
  split
  · rename_i i hp
    split
    · exact hwf
    · exact hwf.move hp hq hreach
  · exact hwf

lemma linked (hq : t.node q ≠ some .dir) (hreach : t.Reached q) : (t.linked p q).WF := by
  rw [Volume.linked]
  split
  · rename_i i hp
    refine hwf.setNode hreach hq fun j hj => ?_
    cases hj
    exact hwf.fresh p i hp
  · exact hwf

end WF

/-! ### A file and the directories on the way to it -/

/-- The location becomes a file, and the locations on the way directories. -/
def ensured (t : Volume Name Byte) (p : List Name) : Volume Name Byte := (t.addDirs (way p)).touch p

lemma reached_addDirs_way : (t.addDirs (way p)).Reached p := fun q hq => by
  rw [node_addDirs, if_pos hq]

lemma node_addDirs_way (hp : p ≠ []) : (t.addDirs (way p)).node p = t.node p := by
  rw [node_addDirs, if_neg fun h => ne_of_mem_way hp h rfl]

lemma exists_node_ensured : ∃ i, (t.ensured p).node p = some (.file i) := exists_node_touch

lemma node_ensured_of_ne (hx : x ≠ p) :
    (t.ensured p).node x = if x ∈ way p then some .dir else t.node x := by
  rw [ensured, node_touch_of_ne hx, node_addDirs]

lemma reached_ensured (hp : p ≠ []) : (t.ensured p).Reached p := fun q hq => by
  rw [node_ensured_of_ne (ne_of_mem_way hp hq), if_pos hq]

lemma WF.ensured (hwf : t.WF) (hp : p ≠ []) (hdir : t.node p ≠ some .dir) : (t.ensured p).WF := by
  have hwf' : (t.addDirs (way p)).WF := hwf.addDirs
  refine hwf'.touch reached_addDirs_way ?_
  rwa [node_addDirs_way hp]

/-! ### The bytes of files -/

lemma read_of_file (h : t.node p = some (.file i)) : t.read p = some (t.data i) := by
  rw [read, h]

lemma read_of_noFile (h : t.NoFile p) : t.read p = none := by
  rw [read]
  split
  · next j hj => exact absurd hj (h j)
  · rfl

lemma read_congr {t' : Volume Name Byte} (hnode : t'.node x = t.node x)
    (hdata : ∀ i, t.node x = some (.file i) → t'.data i = t.data i) : t'.read x = t.read x := by
  rw [read, read, hnode]
  split
  · next i hi => rw [hdata i hi]
  · rfl

/-- A change of bytes is seen at the names of the file only. -/
lemma read_edit {f : List Byte → List Byte}
    (h : ∀ i, t.node p = some (.file i) → t.node x = some (.file i) → x = p) :
    (t.edit p f).read x = if x = p then (t.read p).map f else t.read x := by
  by_cases hfile : t.NoFile p
  · have hedit : t.edit p f = t := by
      rw [edit]
      split
      · next i hi => exact absurd hi (hfile i)
      · rfl
    rw [hedit]
    split
    · next hx => rw [hx, read_of_noFile hfile, Option.map_none]
    · rfl
  · rw [NoFile] at hfile
    push Not at hfile
    obtain ⟨i, hi⟩ := hfile
    have hedit : t.edit p f = t.setData i (f (t.data i)) := by
      rw [edit, hi]
    split
    · next hx =>
        rw [hx, hedit, read_of_file (i := i) (by simp [hi]), read_of_file hi]
        simp
    · next hx =>
        refine read_congr node_edit fun j hj => ?_
        have hij : j ≠ i := fun hji => hx (h i hi (hji ▸ hj))
        rw [hedit, data_setData, if_neg hij]

lemma read_removeNode : (t.removeNode p).read x = if x = p then none else t.read x := by
  rw [read, node_removeNode]
  by_cases hx : x = p
  · rw [if_pos hx, if_pos hx]
  · rw [if_neg hx, if_neg hx]
    rfl

/-- Where there was no file, making directories is not seen. -/
lemma read_addDirs {ps : List (List Name)} (h : ∀ p ∈ ps, t.NoFile p) :
    (t.addDirs ps).read x = t.read x := by
  by_cases hx : x ∈ ps
  · rw [read_of_noFile (h x hx), read_of_noFile]
    intro i
    rw [node_addDirs, if_pos hx]
    simp
  · exact read_congr (by rw [node_addDirs, if_neg hx]) fun i _ => by rw [data_addDirs]

/-- A file that was missing is empty. -/
lemma read_touch (hwf : t.WF) :
    (t.touch p).read x = if x = p then some ((t.read p).getD []) else t.read x := by
  by_cases hfile : t.NoFile p
  · rw [touch_of_not_file hfile]
    split
    · next hx =>
        rw [hx, read_of_noFile hfile, read_of_file (i := t.next) (by simp)]
        simp
    · next hx =>
        refine read_congr (by simp [hx]) fun i hi => ?_
        rw [data_addFile, if_neg (hwf.fresh x i hi).ne]
  · rw [NoFile] at hfile
    push Not at hfile
    obtain ⟨i, hi⟩ := hfile
    rw [touch_of_file hi]
    split
    · next hx => rw [hx, read_of_file hi, Option.getD_some]
    · rfl

lemma read_ensured (hwf : t.WF) (hway : ∀ q ∈ way p, t.NoFile q) :
    (t.ensured p).read x = if x = p then some ((t.read p).getD []) else t.read x := by
  have hwf' : (t.addDirs (way p)).WF := hwf.addDirs
  rw [ensured, read_touch hwf', read_addDirs hway, read_addDirs hway]

/-- A file is read at its new name, and no longer at the old one. -/
lemma read_renamed (hp : t.node p = some (.file i)) (hq : t.node q ≠ some (.file i)) :
    (t.renamed p q).read x = if x = q then t.read p else if x = p then none else t.read x := by
  rw [renamed_of_ne hp hq]
  by_cases hxq : x = q
  · rw [if_pos hxq, read_of_file hp, read_of_file (i := i) (by simp [hxq])]
    rfl
  · by_cases hxp : x = p
    · rw [if_neg hxq, if_pos hxp]
      exact read_of_noFile fun j => by rw [node_move, if_neg hxq, if_pos hxp]; simp
    · rw [if_neg hxq, if_neg hxp]
      exact read_congr (by rw [node_move, if_neg hxq, if_neg hxp]) fun _ _ => rfl

/-- The names in a directory are those at which there is something. -/
lemma mem_list {c : Name} : c ∈ t.list p ↔ t.node (p ++ [c]) ≠ none := by
  have hentry : t.node (p ++ [c]) ≠ none ↔ ∃ entry ∈ t.entries, entry.1 = p ++ [c] := by
    rw [node, ← Option.isSome_iff_ne_none, List.lookup_isSome_iff]
    exact exists_congr fun entry => and_congr_right fun _ => by rw [beq_iff_eq, eq_comm]
  rw [hentry, list, List.mem_dedup, List.mem_filterMap]
  refine exists_congr fun entry => and_congr_right fun _ => ?_
  constructor
  · intro h
    split at h
    · next hdir =>
        obtain ⟨init, hlast⟩ := List.getLast?_eq_some_iff.mp h
        rw [hlast, List.dropLast_concat] at hdir
        rw [hlast, hdir]
    · cases h
  · intro heq
    rw [heq, List.dropLast_concat, if_pos rfl, List.getLast?_concat]

/-! ### When the calls succeed -/

lemma follow_cons {q : List Name} {qs : List (List Name)} : t.follow (q :: qs) =
    match t.node q with
    | some .dir => t.follow qs
    | some (.file _) => .error .notdir
    | none => .error .noent := by
  rw [follow, enter]
  cases t.node q with
  | none => rfl
  | some n => cases n <;> rfl

lemma follow_eq_ok_iff {qs : List (List Name)} :
    t.follow qs = .ok () ↔ ∀ q ∈ qs, t.node q = some .dir := by
  induction qs with
  | nil => simp [follow]
  | cons q qs ih =>
      rw [follow_cons, List.forall_mem_cons, ← ih]
      cases t.node q with
      | none => simp
      | some n => cases n <;> simp

lemma reach_eq_ok_iff : t.reach p = .ok () ↔ t.Reached p := follow_eq_ok_iff

/-- Where the way holds no file, a missing directory is reported. -/
lemma reach_noent (hfile : ∀ q ∈ way p, t.NoFile q) (h : ¬ t.Reached p) :
    t.reach p = .error .noent := by
  rw [Reached] at h
  rw [reach]
  generalize way p = qs at h hfile ⊢
  induction qs with
  | nil => exact absurd (by simp) h
  | cons q qs ih =>
      rw [List.forall_mem_cons] at h hfile
      rw [follow_cons]
      cases hq : t.node q with
      | none => rfl
      | some n =>
          cases n with
          | file i => exact absurd hq (hfile.1 i)
          | dir => exact ih (fun hall => h ⟨hq, hall⟩) hfile.2

/-- A file on the way is reported. -/
lemma reach_notdir (hwf : t.WF) (h : ∃ q ∈ way p, ¬ t.NoFile q) : t.reach p = .error .notdir := by
  have hbefore : (way p).Pairwise fun a b => ¬ t.NoFile b → t.node a = some .dir := by
    refine (pairwise_inits p.dropLast).imp fun {a b} hab hb => ?_
    have hsome : t.node b ≠ none := fun hnone => hb fun i => by simp [hnone]
    have hway := mem_inits_iff.mp ((List.mem_inits _ _).mpr hab.1)
    exact hwf.reached hsome a (hway.resolve_left hab.2)
  rw [reach]
  generalize way p = qs at h hbefore ⊢
  induction qs with
  | nil => simp at h
  | cons q qs ih =>
      rw [List.pairwise_cons] at hbefore
      rw [follow_cons]
      obtain ⟨x, hx, hfile⟩ := h
      rcases List.mem_cons.mp hx with rfl | hx
      · rw [NoFile] at hfile
        push Not at hfile
        obtain ⟨i, hi⟩ := hfile
        rw [hi]
      · rw [hbefore.1 x hx hfile]
        exact ih ⟨x, hx, hfile⟩ hbefore.2

/-- A call that starts by following the way to a location. -/
lemma reach_bind_eq_ok {α : Type} {f : Except Errno α} {a : α} :
    (do t.reach p; f) = .ok a ↔ t.Reached p ∧ f = .ok a := by
  rw [← reach_eq_ok_iff]
  cases t.reach p with
  | ok u => simp [bind, Except.bind]
  | error e => simp [bind, Except.bind]

lemma inode_eq_ok_iff : t.inode p = .ok i ↔ t.Reached p ∧ t.node p = some (.file i) := by
  rw [inode, reach_bind_eq_ok]
  refine and_congr_right fun _ => ?_
  cases t.node p with
  | none => simp
  | some n => cases n <;> simp

variable {t' : Volume Name Byte}

lemma mkdirAll_eq_ok_iff : t.mkdirAll p = .ok t' ↔
    (∀ q ∈ p.inits, t.NoFile q) ∧ t' = t.addDirs p.inits := by
  rw [mkdirAll, addDirs]
  induction p.inits generalizing t with
  | nil => simp [pure, Except.pure, eq_comm]
  | cons q qs ih =>
      rw [List.foldlM_cons, List.foldl_cons, List.forall_mem_cons, makeDir]
      cases hq : t.node q with
      | none =>
          have hset : ∀ x, (t.setNode q .dir).NoFile x ↔ t.NoFile x := by
            intro x
            by_cases hx : x = q
            · simp [NoFile, hx, hq]
            · simp [NoFile, hx]
          have hfile : t.NoFile q := by simp [NoFile, hq]
          simp [bind, Except.bind, ih, hset, hfile]
      | some n =>
          cases n with
          | file i => simp [NoFile, hq, bind, Except.bind]
          | dir => simp [NoFile, hq, bind, Except.bind, ih]

lemma create_eq_ok_iff : t.create p = .ok t' ↔
    t.Reached p ∧ t.node p ≠ some .dir ∧ t' = t.touch p := by
  rw [create, reach_bind_eq_ok]
  refine and_congr_right fun _ => ?_
  cases t.node p with
  | none => simp [eq_comm]
  | some n => cases n <;> simp [eq_comm]

/-- Making the directories on the way to a location, and then a file there. -/
lemma ensure_eq_ok_iff (hp : p ≠ []) :
    (do let t ← t.mkdirAll p.dropLast; t.create p) = .ok t' ↔
      (∀ q ∈ way p, t.NoFile q) ∧ t.node p ≠ some .dir ∧ t' = t.ensured p := by
  have hall : ∀ t'', t.mkdirAll p.dropLast = .ok t'' ↔
      (∀ q ∈ way p, t.NoFile q) ∧ t'' = t.addDirs (way p) := fun _ => mkdirAll_eq_ok_iff
  cases h : t.mkdirAll p.dropLast with
  | ok t'' =>
      obtain ⟨hfile, rfl⟩ := (hall t'').mp h
      have hcreate : (t.addDirs (way p)).create p = .ok t' ↔
          t.node p ≠ some .dir ∧ t' = t.ensured p := by
        rw [create_eq_ok_iff, and_iff_right reached_addDirs_way, node_addDirs_way hp, ensured]
      rw [and_iff_right hfile, ← hcreate]
      rfl
  | error e =>
      refine iff_of_false (by simp [bind, Except.bind]) fun hno => ?_
      rw [(hall _).mpr ⟨hno.1, rfl⟩] at h
      cases h

lemma mkdir_eq_ok_iff : t.mkdir p = .ok t' ↔
    t.Reached p ∧ t.node p = none ∧ t' = t.setNode p .dir := by
  rw [mkdir, reach_bind_eq_ok]
  refine and_congr_right fun _ => ?_
  cases t.node p <;> simp [eq_comm]

/-- A call that starts by looking up a file. -/
lemma inode_bind_eq_ok {α : Type} {f : ℕ → Except Errno α} {a : α} :
    (do let i ← t.inode p; f i) = .ok a ↔
      t.Reached p ∧ ∃ i, t.node p = some (.file i) ∧ f i = .ok a := by
  have hinode : ∀ i, t.inode p = .ok i ↔ t.Reached p ∧ t.node p = some (.file i) :=
    fun i => inode_eq_ok_iff
  cases h : t.inode p with
  | ok i =>
      obtain ⟨hreach, hp⟩ := (hinode i).mp h
      simp [bind, Except.bind, hreach, hp]
  | error e =>
      refine iff_of_false (by simp [bind, Except.bind]) ?_
      rintro ⟨hreach, i, hi, -⟩
      rw [(hinode i).mpr ⟨hreach, hi⟩] at h
      cases h

lemma write_eq_ok_iff [Zero Byte] {offset : ℕ} {bytes : List Byte} :
    t.write p offset bytes = .ok t' ↔ t.Reached p ∧ (∃ i, t.node p = some (.file i)) ∧
      t' = t.edit p (splice · offset bytes) := by
  rw [write, inode_bind_eq_ok]
  simp [pure, Except.pure, eq_comm]

lemma truncate_eq_ok_iff [Zero Byte] {length : ℕ} :
    t.truncate p length = .ok t' ↔ t.Reached p ∧ (∃ i, t.node p = some (.file i)) ∧
      t' = t.edit p (resize · length) := by
  rw [truncate, inode_bind_eq_ok]
  simp [pure, Except.pure, eq_comm]

lemma unlink_eq_ok_iff : t.unlink p = .ok t' ↔
    t.Reached p ∧ (∃ i, t.node p = some (.file i)) ∧ t' = t.removeNode p := by
  rw [unlink, inode_bind_eq_ok]
  simp [pure, Except.pure, eq_comm]

/-- Renaming a file. -/
lemma rename_file_eq_ok_iff (hp : t.node p = some (.file i)) : t.rename p q = .ok t' ↔
    t.Reached p ∧ t.Reached q ∧ t.node q ≠ some .dir ∧ t' = t.renamed p q := by
  rw [rename, reach_bind_eq_ok, reach_bind_eq_ok, hp]
  refine and_congr_right fun _ => and_congr_right fun _ => ?_
  cases t.node q with
  | none => simp [eq_comm]
  | some n => cases n <;> simp [eq_comm]

lemma link_eq_ok_iff : t.link p q = .ok t' ↔ t.Reached p ∧ t.Reached q ∧
    (∃ i, t.node p = some (.file i)) ∧ t.node q = none ∧ t' = t.linked p q := by
  rw [link, reach_bind_eq_ok, reach_bind_eq_ok]
  refine and_congr_right fun _ => and_congr_right fun _ => ?_
  cases t.node p with
  | none => simp
  | some n =>
      cases n with
      | dir => simp
      | file i => cases t.node q <;> simp [eq_comm]

lemma removeNode_of_none (h : t.node p = none) : t.removeNode p = t := by
  have hentries : (t.entries.filter fun entry => entry.1 ≠ p) = t.entries := by
    rw [List.filter_eq_self]
    intro entry hentry
    have hne : p ≠ entry.1 := by simpa using List.lookup_eq_none_iff.mp h entry hentry
    exact decide_eq_true hne.symm
  rw [removeNode, hentries]

/-- Removing succeeds unless a file is in the way or a directory in the place. -/
lemma remove_eq_ok_iff (hwf : t.WF) : t.remove p = .ok t' ↔
    (∀ q ∈ way p, t.NoFile q) ∧ t.node p ≠ some .dir ∧ t' = t.removeNode p := by
  rw [remove]
  by_cases hfile : ∀ q ∈ way p, t.NoFile q
  · rw [and_iff_right hfile]
    by_cases hreach : t.Reached p
    · rw [inode, reach_eq_ok_iff.mpr hreach]
      cases hp : t.node p with
      | none => simp [bind, Except.bind, removeNode_of_none hp, eq_comm]
      | some n => cases n <;> simp [bind, Except.bind, eq_comm]
    · have hnone : t.node p = none := by
        by_contra hne
        exact hreach (hwf.reached hne)
      rw [inode, reach_noent hfile hreach]
      simp [bind, Except.bind, hnone, removeNode_of_none hnone, eq_comm]
  · rw [inode, reach_notdir hwf (by simpa using hfile)]
    exact iff_of_false (by simp [bind, Except.bind]) fun h => hfile h.1

end Volume

end FileTree
