import CrashFuzz.Lib.PathLookup
import CrashFuzz.Shim.Errno

/-!
The paths the interposer records (`shim/src/shim.c`): for a name below a
directory descriptor, and for a path of its own.

* `View`: what the traced process sees of the file system when a path is
  resolved.
* `AtOperand`, `PathOperand`: the operands of the calls, with what the
  interposer asks about each and where its record has it.
* `AtOperand.recorded`, `PathOperand.recorded`: what every record has there.
* `AtRecord`, `PathRecord`: a record with such an operand, which names the file
  at a location.
* `AtRecord.path_eq_iff`: `resolve_at` puts the name behind the path of the
  directory as it is given, so the two paths of a file agree exactly when the
  name spells out the entries it passes, below a directory that is not the
  root, in a path that is not too long.
-/

namespace CrashFuzz.Shim

open ErrorVariable PosixPath PathLookup

/-- What the traced process sees of the file system. -/
structure View where
  tree : Tree
  root : ¬ IsLink tree []
  cwd : List Chars
  /-- The location of the directory a descriptor is open on. -/
  dirs : ℕ → Option (List Chars)
  canonical_dirs : ∀ fd dir, dirs fd = some dir → Canonical tree dir

/-- A path argument names the file at a location. -/
structure View.NamesPath (v : View) (path : String) (loc : List Chars) : Prop where
  nonempty : path ≠ ""
  names : Names v.tree (if isAbsolute path.toList then [] else v.cwd) (split path.toList) loc

namespace Interposed

/-- What `resolve_at` returns. -/
def resolvedAt (found : Lookup) (dirfd : ℤ) (path : String) : String :=
  if isAbsolute path.toList ∨ dirfd = atFdcwd then found.realpath.value.getD path
  else
    match found.readlink.value with
    | none => path
    | some dir =>
        if dir.utf8ByteSize + 1 + path.utf8ByteSize + 1 > pathMax then path
        else dir ++ "/" ++ path

/-- A record of a call. -/
def Reports (p : Interposed) (own : Own) (real : RealResult) (c : Call) (r : Reported) : Prop :=
  ∃ errno ret errno' out, interpose p own real c (errno, []) = some (ret, errno', out) ∧ r ∈ out

/-- The calls with a name below a directory descriptor, with what is asked
about the name and where the record has it. -/
inductive AtOperand (own : Own) (dirfd : ℤ) (name : String) :
    Call → Lookup → (Reported → String) → Prop
  | unlinkat : AtOperand own dirfd name (.unlinkat dirfd (.text name)) own.first Reported.path
  | mkdirat : AtOperand own dirfd name (.mkdirat dirfd (.text name)) own.second Reported.path
  | linkatSource (destfd : ℤ) (dest : CPath) :
      AtOperand own dirfd name (.linkat dirfd (.text name) destfd dest) own.first Reported.path
  | linkatDest (sourcefd : ℤ) (source : CPath) :
      AtOperand own dirfd name (.linkat sourcefd source dirfd (.text name)) own.second
        Reported.path2
  | renameatSource (destfd : ℤ) (dest : CPath) :
      AtOperand own dirfd name (.renameat dirfd (.text name) destfd dest) own.first Reported.path
  | renameatDest (sourcefd : ℤ) (source : CPath) :
      AtOperand own dirfd name (.renameat sourcefd source dirfd (.text name)) own.second
        Reported.path2
  | renameat2Source (destfd : ℤ) (dest : CPath) (flags : ℕ) :
      AtOperand own dirfd name (.renameat2 dirfd (.text name) destfd dest flags) own.first
        Reported.path
  | renameat2Dest (sourcefd : ℤ) (source : CPath) (flags : ℕ) :
      AtOperand own dirfd name (.renameat2 sourcefd source dirfd (.text name) flags) own.second
        Reported.path2

/-- A descriptor with an entry in the table. -/
def InTable (fd : ℤ) : Prop := 0 ≤ fd ∧ fd < maxFd

/-- The opens and the plain path calls, with the outcome of `realpath` on the
path and where the record has it. -/
inductive PathOperand (own : Own) (real : RealResult) (path : String) :
    Call → Outcome ℤ (Option String) → (Reported → String) → Prop
  | open_ (hfd : InTable real.ret) :
      PathOperand own real path (.open_ (.text path)) own.remembered Reported.path
  | open64 (hfd : InTable real.ret) :
      PathOperand own real path (.open64 (.text path)) own.remembered Reported.path
  | openat (hfd : InTable real.ret) (dirfd : ℤ) (name : String)
      (hpath : resolvedAt own.second dirfd name = path) :
      PathOperand own real path (.openat dirfd (.text name)) own.remembered Reported.path
  | truncate (length : ℤ) : PathOperand own real path (.truncate (.text path) length)
      own.first.realpath Reported.path
  | truncate64 (length : ℤ) : PathOperand own real path (.truncate64 (.text path) length)
      own.first.realpath Reported.path
  | unlink : PathOperand own real path (.unlink (.text path)) own.first.realpath Reported.path
  | mkdir : PathOperand own real path (.mkdir (.text path)) own.second.realpath Reported.path
  | linkSource (dest : CPath) : PathOperand own real path (.link (.text path) dest)
      own.first.realpath Reported.path
  | linkDest (source : CPath) : PathOperand own real path (.link source (.text path))
      own.second.realpath Reported.path2
  | renameSource (dest : CPath) : PathOperand own real path (.rename (.text path) dest)
      own.first.realpath Reported.path
  | renameDest (source : CPath) : PathOperand own real path (.rename source (.text path))
      own.second.realpath Reported.path2

section Recorded

variable {p : Interposed} {own : Own} {real : RealResult} {found : Lookup} {dirfd : ℤ}
  {name : String} {source dest : Part CPath} {P Q : CPath → Prop}

/-! ### What the parts of a wrapper give -/

lemma Reads.gives {readable : Prop} {sets : List (Option ℤ)} (h : Reads source readable sets) :
    Gives source fun _ written => True ∧ written = [] := by
  by_cases hread : readable
  · obtain ⟨full, heffect⟩ := h.effect hread
    exact heffect.gives.mono fun _ _ hfull => ⟨trivial, hfull.2⟩
  · exact (h.faults hread).gives

lemma gives_resolveAt :
    Gives (resolveAt found dirfd (.text name)) fun full written =>
      full = .text (resolvedAt found dirfd name) ∧ written = [] := by
  rw [resolveAt, resolvedAt]
  split
  · refine (gives_call found.realpath).seq fun resolved hresolved => ?_
    rw [hresolved]
    exact gives_pure _
  · refine (gives_call found.readlink).seq fun dir hdir => ?_
    rw [hdir]
    cases found.readlink.value with
    | none => exact gives_pure _
    | some dir =>
        have htext : (if dir.utf8ByteSize + 1 + name.utf8ByteSize + 1 > pathMax
            then CPath.text name else .text (dir ++ "/" ++ name)) =
          .text (if dir.utf8ByteSize + 1 + name.utf8ByteSize + 1 > pathMax
            then name else dir ++ "/" ++ name) := (apply_ite CPath.text _ _ _).symm
        rw [← htext]
        exact gives_pure _

lemma gives_resolve :
    Gives (resolve found (.text name)) fun full written =>
      full = .text (found.realpath.value.getD name) ∧ written = [] := by
  refine (gives_call found.realpath).seq fun resolved hresolved => ?_
  rw [hresolved]
  cases found.realpath.value <;> exact gives_pure _

lemma gives_lookup (known : Bool) (dlsym : Outcome ℤ Unit) :
    Gives (lookup known dlsym : Part Unit) fun _ written => True ∧ written = [] :=
  (effect_lookup known dlsym).gives.mono fun _ _ h => ⟨trivial, h.2⟩

lemma gives_issue : Gives (issue real) fun result written =>
    result = (real.ret, real.err) ∧ written = [] := effect_issue.gives

lemma gives_emitEvent (call : CallName) (fd : ℤ) (path path2 : CPath) (offset : ℤ) (length : ℕ)
    (result : ℤ × ℤ) (ret : ℤ) :
    Gives (do
      emitEvent p own call fd path path2 offset length result
      return ret) fun _ written =>
        ∀ r ∈ written, r.path = path.shown ∧ r.path2 = path2.shown := by
  refine ((effect_emitEvent call fd path path2 offset length result).bind
    (.pure ret)).gives.mono fun _ written h => ?_
  rw [h.2]
  simp

lemma gives_rememberPath (hfd : InTable real.ret) :
    Gives (rememberPath p own real.ret (.text name)) fun p' written =>
      p'.pathFor real.ret = own.remembered.value.getD name ∧ written = [] := by
  have hbounds : 0 ≤ real.ret ∧ real.ret < maxFd := hfd
  have hrange : ¬ (real.ret < 0 ∨ real.ret ≥ maxFd) := by omega
  have hremember : rememberPath p own real.ret (.text name) = _ := if_neg hrange
  rw [hremember]
  refine (gives_call own.remembered).seq fun resolved hresolved => ?_
  refine (gives_pure _).mono fun p' written hp' => ⟨?_, hp'.2⟩
  rw [pathFor, if_pos hbounds, hp'.1, hresolved]
  exact Function.update_self _ _ _

/-! ### What the families of wrappers give -/

lemma gives_resolvedBefore (call : CallName) (length : ℕ)
    (hpath : Gives source fun full written => P full ∧ written = []) :
    Gives (resolvedBefore p own real call source length) fun _ written =>
      ∀ r ∈ written, ∃ full, P full ∧ r.path = full.shown :=
  (gives_lookup _ _).seq fun _ _ => hpath.seq fun full hfull => gives_issue.seq fun result _ =>
    (gives_emitEvent call (-1) full .null 0 length result result.1).mono
      fun _ _ h r hr => ⟨full, hfull, (h r hr).1⟩

lemma gives_resolvedAfter (call : CallName)
    (hpath : Gives source fun full written => P full ∧ written = []) :
    Gives (resolvedAfter p own real call source) fun _ written =>
      ∀ r ∈ written, ∃ full, P full ∧ r.path = full.shown :=
  (gives_lookup _ _).seq fun _ _ => gives_issue.seq fun result _ => hpath.seq fun full hfull =>
    (gives_emitEvent call (-1) full .null 0 0 result result.1).mono
      fun _ _ h r hr => ⟨full, hfull, (h r hr).1⟩

lemma gives_paired (call : CallName) (offset : ℤ)
    (hsource : Gives source fun full written => P full ∧ written = [])
    (hdest : Gives dest fun full written => Q full ∧ written = []) :
    Gives (paired p own real call source dest offset) fun _ written => ∀ r ∈ written,
      (∃ full, P full ∧ r.path = full.shown) ∧ ∃ full, Q full ∧ r.path2 = full.shown :=
  (gives_lookup _ _).seq fun _ _ => hsource.seq fun full hfull => gives_issue.seq fun result _ =>
    hdest.seq fun full2 hfull2 =>
      (gives_emitEvent call (-1) full full2 offset 0 result result.1).mono
        fun _ _ h r hr => ⟨⟨full, hfull, (h r hr).1⟩, ⟨full2, hfull2, (h r hr).2⟩⟩

/-- A new descriptor is recorded with the path that is remembered for it. -/
lemma gives_opened (hfd : InTable real.ret)
    (hpath : Gives source fun full written => full = .text name ∧ written = []) :
    Gives (opened p own real source) fun _ written =>
      ∀ r ∈ written, r.path = own.remembered.value.getD name := by
  refine (gives_lookup _ _).seq fun _ _ => gives_issue.seq fun result hresult =>
    hpath.seq fun full hfull => ?_
  subst hresult hfull
  refine (gives_rememberPath hfd).seq fun p' hentry => ?_
  split
  · refine (gives_pure real.ret).mono fun _ written h => ?_
    rw [h.2]
    exact List.forall_mem_nil _
  · rw [← hentry]
    exact (gives_emitEvent _ _ _ _ _ _ _ _).mono fun _ _ h r hr => (h r hr).1

/-! ### What the records have -/

/-- **Names below a descriptor** are recorded as `resolve_at` returns them. -/
lemma AtOperand.recorded {c : Call} {place : Reported → String}
    (h : AtOperand own dirfd name c found place) :
    Gives (interpose p own real c) fun _ written =>
      ∀ r ∈ written, place r = resolvedAt found dirfd name := by
  have hother := fun found dirfd path => (@reads_resolveAt found dirfd path).gives
  cases h with
  | unlinkat =>
      refine (gives_resolvedBefore _ _ gives_resolveAt).mono fun _ _ h r hr => ?_
      obtain ⟨full, rfl, hpath⟩ := h r hr
      exact hpath
  | mkdirat =>
      refine (gives_resolvedAfter _ gives_resolveAt).mono fun _ _ h r hr => ?_
      obtain ⟨full, rfl, hpath⟩ := h r hr
      exact hpath
  | linkatSource | renameatSource | renameat2Source =>
      refine (gives_paired _ _ gives_resolveAt (hother _ _ _)).mono fun _ _ h r hr => ?_
      obtain ⟨⟨full, rfl, hpath⟩, -⟩ := h r hr
      exact hpath
  | linkatDest | renameatDest | renameat2Dest =>
      refine (gives_paired _ _ (hother _ _ _) gives_resolveAt).mono fun _ _ h r hr => ?_
      obtain ⟨-, full, rfl, hpath⟩ := h r hr
      exact hpath

/-- **Paths** are recorded as `realpath` returns them, or as given. -/
lemma PathOperand.recorded {c : Call} {outcome : Outcome ℤ (Option String)}
    {place : Reported → String} (h : PathOperand own real name c outcome place) :
    Gives (interpose p own real c) fun _ written =>
      ∀ r ∈ written, place r = outcome.value.getD name := by
  have hother := fun found path => (@reads_resolve found path).gives
  cases h with
  | open_ hfd | open64 hfd => exact gives_opened hfd (gives_pure _)
  | openat hfd dirfd path hpath =>
      refine gives_opened hfd ?_
      rw [← hpath]
      exact gives_resolveAt
  | truncate | truncate64 | unlink =>
      refine (gives_resolvedBefore _ _ gives_resolve).mono fun _ _ h r hr => ?_
      obtain ⟨full, rfl, hpath⟩ := h r hr
      exact hpath
  | mkdir =>
      refine (gives_resolvedAfter _ gives_resolve).mono fun _ _ h r hr => ?_
      obtain ⟨full, rfl, hpath⟩ := h r hr
      exact hpath
  | linkSource | renameSource =>
      refine (gives_paired _ _ gives_resolve (hother _ _)).mono fun _ _ h r hr => ?_
      obtain ⟨⟨full, rfl, hpath⟩, -⟩ := h r hr
      exact hpath
  | linkDest | renameDest =>
      refine (gives_paired _ _ (hother _ _) gives_resolve).mono fun _ _ h r hr => ?_
      obtain ⟨-, full, rfl, hpath⟩ := h r hr
      exact hpath

end Recorded

end Interposed

open Interposed

/-! ### Records of one file -/

/-- A record of a call with a relative name below a directory descriptor, which
names the file at `loc`. -/
structure AtRecord (loc : List Chars) where
  view : View
  fd : ℕ
  dir : List Chars
  isDir : view.dirs fd = some dir
  name : String
  relative : ¬ isAbsolute name.toList
  names : Names view.tree dir (split name.toList) loc
  interposer : Interposed
  own : Own
  real : RealResult
  call : Interposed.Call
  found : Lookup
  place : Reported → String
  operand : AtOperand own fd name call found place
  /-- The link of a descriptor is the path of its directory. -/
  readlink : ∀ dir, view.dirs fd = some dir → found.readlink.value = some (canonical dir)
  report : Reported
  reports : Reports interposer own real call report

/-- A record of an open or of a call on paths, with a path that names the file
at `loc`. -/
structure PathRecord (loc : List Chars) where
  view : View
  name : String
  names : view.NamesPath name loc
  interposer : Interposed
  own : Own
  real : RealResult
  call : Interposed.Call
  found : Outcome ℤ (Option String)
  place : Reported → String
  operand : PathOperand own real name call found place
  /-- `realpath` of an existing file is its canonical path. -/
  realpath : ∀ loc, view.NamesPath name loc → found.value = some (canonical loc)
  report : Reported
  reports : Reports interposer own real call report

variable {loc : List Chars}

/-- The path in the record. -/
def AtRecord.path (a : AtRecord loc) : String := a.place a.report

/-- The path in the record. -/
def PathRecord.path (b : PathRecord loc) : String := b.place b.report

/-- The path of the directory and the name fit in a path. -/
def Fits (dir : List Chars) (name : String) : Prop :=
  (canonical dir).utf8ByteSize + 1 + name.utf8ByteSize + 1 ≤ pathMax

instance (dir : List Chars) (name : String) : Decidable (Fits dir name) :=
  inferInstanceAs (Decidable (_ ≤ _))

/-- A path of its own is recorded as the canonical path of the file. -/
lemma PathRecord.path_eq (b : PathRecord loc) : b.path = canonical loc := by
  obtain ⟨errno, ret, errno', out, hrun, hmem⟩ := b.reports
  obtain ⟨written, hout, hplace⟩ := b.operand.recorded _ _ _ hrun
  have hwritten : b.report ∈ written := by
    rwa [← List.nil_append written, ← hout]
  rw [path, hplace _ hwritten, b.realpath loc b.names, Option.getD_some]

/-- A name below a directory is put behind the path of the directory. -/
lemma AtRecord.path_eq (a : AtRecord loc) :
    a.path = if Fits a.dir a.name then canonical a.dir ++ "/" ++ a.name else a.name := by
  obtain ⟨errno, ret, errno', out, hrun, hmem⟩ := a.reports
  obtain ⟨written, hout, hplace⟩ := a.operand.recorded _ _ _ hrun
  have hwritten : a.report ∈ written := by
    rwa [← List.nil_append written, ← hout]
  have hrelative : ¬ (isAbsolute a.name.toList ∨ (a.fd : ℤ) = atFdcwd) := by
    rintro (habsolute | hcwd)
    · exact a.relative habsolute
    · rw [atFdcwd] at hcwd
      omega
  rw [path, hplace _ hwritten, resolvedAt, if_neg hrelative, a.readlink a.dir a.isDir]
  by_cases hfits : Fits a.dir a.name
  · rw [if_pos hfits]
    exact if_neg (Nat.not_lt.mpr hfits)
  · rw [if_neg hfits]
    exact if_pos (Nat.not_le.mp hfits)

/-- The path of a directory with a name behind it is the canonical path of a
file exactly when the components of the name are those of the file. -/
lemma joined_eq_canonical_iff {dir : List Chars} {name : String} (hdir : ∀ c ∈ dir, Proper c)
    (hloc : ∀ c ∈ loc, Proper c) :
    canonical dir ++ "/" ++ name = canonical loc ↔
      dir ≠ [] ∧ loc = dir ++ split name.toList := by
  have htext : (canonical dir ++ "/" ++ name).toList =
      '/' :: unsplit dir ++ '/' :: name.toList := by
    simp [canonical]
  rw [← unsplit_append_iff hdir hloc, ← htext, ← String.toList_inj, canonical, canonical,
    String.toList_ofList]

/-- **When a file has one path.** What a call on a name below a directory
descriptor records is what an open and the calls on paths record of the file,
exactly when the text fits in a path, the directory is not the root, and the
name spells out the entries it passes. -/
theorem AtRecord.path_eq_iff (a : AtRecord loc) (b : PathRecord loc) :
    a.path = b.path ↔
      Fits a.dir a.name ∧ a.dir ≠ [] ∧ Straight a.view.tree a.dir (split a.name.toList) := by
  have hdir := a.view.canonical_dirs a.fd a.dir a.isDir
  have hloc := a.names.canonical a.view.root hdir
  rw [a.path_eq, b.path_eq, ← a.names.eq_append_iff a.view.root hdir]
  by_cases hfits : Fits a.dir a.name
  · rw [if_pos hfits, joined_eq_canonical_iff hdir.proper hloc.proper]
    exact (and_iff_right hfits).symm
  · rw [if_neg hfits]
    refine iff_of_false (fun heq => a.relative ?_) fun h => hfits h.1
    rw [heq, canonical, String.toList_ofList]
    rfl

/-! ### A directory with one file -/

def dbName : Chars := ['d', 'b']

def aName : Chars := ['a']

/-- A directory `/db` with a file `a`. -/
def dbTree : Tree := fun loc =>
  if loc = [] ∨ loc = [dbName] then some .dir
  else if loc = [dbName, aName] then some .file else none

lemma not_isLink_dbTree (loc : List Chars) : ¬ IsLink dbTree loc := by
  rintro ⟨target, h⟩
  simp only [dbTree] at h
  split_ifs at h <;> cases h

lemma proper_dbName : Proper dbName := by simp [Proper, dbName, dotdot]

lemma proper_aName : Proper aName := by simp [Proper, aName, dotdot]

/-- The directory is open on descriptor 3. -/
def dbView : View where
  tree := dbTree
  root := not_isLink_dbTree []
  cwd := []
  dirs := fun fd => if fd = 3 then some [dbName] else none
  canonical_dirs := fun fd dir h => by
    split_ifs at h
    obtain rfl : [dbName] = dir := Option.some.inj h
    exact ⟨by simpa using proper_dbName, fun pre _ => not_isLink_dbTree pre⟩

lemma names_a : Names dbTree [dbName] [aName] [dbName, aName] :=
  .down rfl proper_aName (not_isLink_dbTree _) (.here (rfl : dbTree [dbName, aName] = some .file))

/-- What an `unlinkat` asks about a name below the directory. -/
def ownUnlinking : Own :=
  { quietBut ⟨-1, none⟩ with first := ⟨⟨none, none⟩, ⟨some "/db", none⟩⟩ }

/-- `unlinkat` of a name of the file. -/
def unlinking (name path : String) (relative : ¬ isAbsolute name.toList)
    (names : Names dbTree [dbName] (split name.toList) [dbName, aName])
    (reports : Reports writing ownUnlinking ⟨0, 0⟩ (.unlinkat 3 (.text name))
      ⟨.unlink, -1, path, "", 0, 0, 0, 0⟩) : AtRecord [dbName, aName] where
  view := dbView
  fd := 3
  dir := [dbName]
  isDir := rfl
  name := name
  relative := relative
  names := names
  interposer := writing
  own := ownUnlinking
  real := ⟨0, 0⟩
  call := .unlinkat 3 (.text name)
  found := ownUnlinking.first
  place := Reported.path
  operand := .unlinkat
  readlink := fun dir h => by
    obtain rfl : [dbName] = dir := Option.some.inj h
    rfl
  report := ⟨.unlink, -1, path, "", 0, 0, 0, 0⟩
  reports := reports

lemma namesPath_a : dbView.NamesPath "/db/a" [dbName, aName] where
  nonempty := by decide
  names := .stay rfl (.inl rfl) (.down rfl proper_dbName (not_isLink_dbTree _) names_a)

/-- `open` of the file by its path. -/
def opening : PathRecord [dbName, aName] where
  view := dbView
  name := "/db/a"
  names := namesPath_a
  interposer := writing
  own := { quietBut ⟨-1, none⟩ with remembered := ⟨some "/db/a", none⟩ }
  real := ⟨3, 0⟩
  call := .open_ (.text "/db/a")
  found := ⟨some "/db/a", none⟩
  place := Reported.path
  operand := .open_ ⟨by decide, by decide⟩
  realpath := fun loc h => by
    obtain rfl := namesPath_a.names.unique h.names
    rfl
  report := ⟨.open_, 3, "/db/a", "", 0, 0, 3, 0⟩
  reports := ⟨0, 3, 0, _, rfl, List.mem_singleton_self _⟩

/-- `unlinkat(3, "a", 0)`. -/
def unlinkingPlain : AtRecord [dbName, aName] :=
  unlinking "a" "/db/a" (by decide) names_a ⟨0, 0, 0, _, rfl, List.mem_singleton_self _⟩

/-- `unlinkat(3, "./a", 0)`. -/
def unlinkingDotted : AtRecord [dbName, aName] :=
  unlinking "./a" "/db/./a" (by decide) (.stay rfl (.inr rfl) names_a)
    ⟨0, 0, 0, _, rfl, List.mem_singleton_self _⟩

lemma straight_a : Straight dbTree [dbName] (split "a".toList) where
  proper := fun c hc => by
    obtain rfl : c = aName := List.mem_singleton.mp hc
    exact proper_aName
  noLink := fun pre _ => not_isLink_dbTree _

/-- The name of the entry alone is recorded as the file's path. -/
theorem unlinking_plain : unlinkingPlain.path = opening.path :=
  (unlinkingPlain.path_eq_iff opening).mpr ⟨by decide, List.cons_ne_nil _ _, straight_a⟩

/-- With a dot before it, the name is recorded as another path than the file's. -/
theorem unlinking_dotted : unlinkingDotted.path = "/db/./a" ∧ opening.path = "/db/a" ∧
    unlinkingDotted.path ≠ opening.path :=
  ⟨rfl, rfl, by decide⟩

end CrashFuzz.Shim
