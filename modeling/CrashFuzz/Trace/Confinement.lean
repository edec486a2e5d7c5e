import CrashFuzz.Trace.Apply

/-!
Where replay leaves its target directory. A recorded path is mapped by
`join(targetDir, relative(rootDir, path))`, so one outside `rootDir` climbs.

* `callsMade`: the calls of a replay on a disk, up to the first that throws.
* `touched`: the locations that a call may change.
* `LeadsBack`: where the components of a recorded path lead, in terms of the
  locations of `rootDir`, `targetDir` and the path.
* `StaysInside`: an event leads into the target directory, or throws before it
  leaves it.
* `confined_iff`: replay stays inside its target directory exactly when the
  directories above it exist and every event that it comes to stays inside;
  `unlink_outside_target` is one that does not.
-/

namespace CrashFuzz

open PosixPath FileTree

/-! ### What a call touches -/

/-- The locations at which a call opens, creates, truncates, renames, links or
removes, whether or not it finds there what it needs. A recursive `mkdir` creates
the directories that are missing on its way; one that throws has met a file, above
which none is missing. The payload store is only read. -/
def touched (cwd : Chars) (disk : Disk) : FsCall → List (List Chars)
  | .readPayload _ => []
  | .mkdirRecursive path =>
      match disk.mkdirAll (resolve cwd path) with
      | .ok _ => (resolve cwd path).inits.filter fun dir => disk.node dir = none
      | .error _ => []
  | .openAppend path => [resolve cwd path]
  | .writePayload path _ _ _ => [resolve cwd path]
  | .truncate path _ => [resolve cwd path]
  | .rename source dest => [resolve cwd source, resolve cwd dest]
  | .link source dest => [resolve cwd source, resolve cwd dest]
  | .rm path => [resolve cwd path]

/-- The calls that are made, each with the disk that it finds. -/
def callsMade (cwd : Chars) (store : Store) (disk : Disk) : List FsCall → List (Disk × FsCall)
  | [] => []
  | call :: calls => (disk, call) ::
      match call.exec cwd store disk with
      | .ok disk' => callsMade cwd store disk' calls
      | .error _ => []

variable (options : ReplayOptions) (store : Store)

/-- A call touches nothing outside the target directory. -/
def StaysBelow (disk : Disk) (call : FsCall) : Prop :=
  ∀ loc ∈ touched options.cwd.toList disk call, options.target <+: loc

/-- No call that is made touches anything outside the target directory. -/
def Confined (disk : Disk) (calls : List FsCall) : Prop :=
  ∀ made ∈ callsMade options.cwd.toList store disk calls, StaysBelow options made.1 made.2

/-- Every directory above the target directory exists, unless a file is among them. -/
def AboveThere (disk : Disk) : Prop :=
  (∀ dir ∈ options.target.inits, disk.NoFile dir) →
    ∀ dir ∈ options.target.inits, disk.node dir = none → dir = options.target

/-- How many components of `rootDir` a recorded path shares. -/
def shared (path : String) : ℕ :=
  commonLength options.root (resolve options.cwd.toList path.toList)

/-- The components of `rootDir` it does not share, which are climbed. -/
def climbed (path : String) : ℕ :=
  options.root.length - shared options path

/-- The components of the target directory that the climb leaves. -/
def leftOf (path : String) : List Chars :=
  options.target.drop (options.target.length - climbed options path)

/-- The components of the path below what it shares with `rootDir`. -/
def descent (path : String) : List Chars :=
  (resolve options.cwd.toList path.toList).drop (shared options path)

/-- The path descends again through every component of the target directory
that the climb left; a path at or below `rootDir` climbs none. -/
def LeadsBack (path : String) : Prop := leftOf options path <+: descent options path

/-- No file is on the way to a path, so that its directories can be made. -/
def Clear (disk : Disk) (path : String) : Prop :=
  ∀ dir ∈ (resolve options.cwd.toList (dirname (rebase options path))).inits, disk.NoFile dir

/-- The file of a path can be opened, or made where it is missing. -/
def Opens (disk : Disk) (path : String) : Prop :=
  ∃ disk', runCalls options.cwd.toList store disk (ensureFile (rebase options path)) = .ok disk'

/-- An event leaves alone what is outside the target directory: its operands lead
into it, or it throws before it comes to them. -/
def StaysInside (disk : Disk) (event : TraceEvent) : Prop :=
  match event.call with
  | .write | .pwrite | .writev => (store (payloadObject options event)).isSome →
      Clear options disk event.path → LeadsBack options event.path
  | .truncate | .ftruncate => Clear options disk event.path → LeadsBack options event.path
  | .mkdir =>
      -- directories that are there are not made
      let loc := resolve options.cwd.toList (rebase options event.path)
      (∀ dir ∈ loc.inits, disk.NoFile dir) →
        ∀ dir ∈ loc.inits, disk.node dir = none → options.target <+: dir
  | .rename | .link => (Clear options disk event.path → LeadsBack options event.path) ∧
      (Opens options store disk event.path → LeadsBack options event.path2)
  | .unlink => LeadsBack options event.path
  | .open_ | .close | .fsync | .fdatasync | .syncFileRange => True

variable {options store} {disk disk' : Disk}

/-! ### Call by call -/

lemma confined_nil : Confined options store disk [] := fun _ h => absurd h List.not_mem_nil

lemma confined_cons {call : FsCall} {calls : List FsCall} :
    Confined options store disk (call :: calls) ↔ StaysBelow options disk call ∧
      ∀ disk', call.exec options.cwd.toList store disk = .ok disk' →
        Confined options store disk' calls := by
  rw [Confined, callsMade, List.forall_mem_cons]
  refine and_congr_right fun _ => ?_
  cases call.exec options.cwd.toList store disk with
  | ok d => simp [Confined]
  | error e => simp

/-- What comes after some calls is made if they return. -/
lemma confined_append {calls calls' : List FsCall} :
    Confined options store disk (calls ++ calls') ↔ Confined options store disk calls ∧
      ∀ disk', runCalls options.cwd.toList store disk calls = .ok disk' →
        Confined options store disk' calls' := by
  induction calls generalizing disk with
  | nil => simp [confined_nil, runCalls_nil]
  | cons call calls ih =>
      have hruns : ∀ disk', runCalls options.cwd.toList store disk (call :: calls) = .ok disk' ↔
          ∃ d, call.exec options.cwd.toList store disk = .ok d ∧
            runCalls options.cwd.toList store d calls = .ok disk' := fun disk' => by
        rw [← List.singleton_append, runCalls_append, bind_eq_ok, runCalls_singleton]
      rw [List.cons_append, confined_cons, confined_cons, and_assoc]
      refine and_congr_right fun _ => ?_
      simp only [ih, hruns]
      constructor
      · exact fun h => ⟨fun d hd => (h d hd).1, fun d ⟨d', hd', hd⟩ => (h d' hd').2 d hd⟩
      · exact fun h d hd => ⟨h.1 d hd, fun d' hd' => h.2 d' ⟨d, hd, hd'⟩⟩

/-- The groups of calls that a replay comes to. -/
lemma confined_flatMap {α : Type} {items : List α} {calls : α → List FsCall} :
    Confined options store disk (items.flatMap calls) ↔
      ∀ before item after, items = before ++ item :: after → ∀ disk',
        runCalls options.cwd.toList store disk (before.flatMap calls) = .ok disk' →
          Confined options store disk' (calls item) := by
  induction items generalizing disk with
  | nil => simp [confined_nil]
  | cons item items ih =>
      rw [List.flatMap_cons, confined_append]
      simp only [ih]
      constructor
      · rintro ⟨hfirst, hrest⟩ before item' after hsplit disk' hrun
        cases before with
        | nil =>
            obtain ⟨rfl, -⟩ := List.cons.inj hsplit
            rw [List.flatMap_nil, runCalls_nil] at hrun
            exact Except.ok.inj hrun ▸ hfirst
        | cons other before =>
            obtain ⟨rfl, hitems⟩ := List.cons.inj hsplit
            rw [List.flatMap_cons, runCalls_append, bind_eq_ok] at hrun
            obtain ⟨d, hd, hrun⟩ := hrun
            exact hrest d hd before item' after hitems disk' hrun
      · intro h
        refine ⟨h [] item items rfl disk rfl, fun d hd before item' after hsplit disk' hrun => ?_⟩
        refine h (item :: before) item' after (by rw [hsplit, List.cons_append]) disk' ?_
        rw [List.flatMap_cons, runCalls_append, bind_eq_ok]
        exact ⟨d, hd, hrun⟩

/-! ### From calls to operands -/

/-- Where a rebased path leads. -/
lemma resolve_rebase (path : String) : resolve options.cwd.toList (rebase options path) =
    options.target.take (options.target.length - climbed options path) ++ descent options path :=
  resolve_join_relative _ _ _ _

lemma leadsBack_iff {path : String} : LeadsBack options path ↔
    options.target <+: resolve options.cwd.toList (rebase options path) := by
  rw [resolve_rebase, LeadsBack, leftOf]
  conv_rhs => lhs; rw [← List.take_append_drop
    (options.target.length - climbed options path) options.target]
  exact (List.prefix_append_right_inj _).symm

/-- A recursive `mkdir` makes what is missing, unless a file is on its way. -/
lemma staysBelow_mkdir {path : Chars} : StaysBelow options disk (.mkdirRecursive path) ↔
    ((∀ dir ∈ (resolve options.cwd.toList path).inits, disk.NoFile dir) →
      ∀ dir ∈ (resolve options.cwd.toList path).inits, disk.node dir = none →
        options.target <+: dir) := by
  rw [StaysBelow, touched]
  cases hmake : disk.mkdirAll (resolve options.cwd.toList path) with
  | ok d =>
      have hclear := (Volume.mkdirAll_eq_ok_iff.mp hmake).1
      simp only [List.mem_filter, decide_eq_true_eq, and_imp]
      exact ⟨fun h _ => h, fun h => h hclear⟩
  | error e =>
      refine iff_of_true (fun _ h => absurd h List.not_mem_nil) fun hclear => ?_
      rw [Volume.mkdirAll_eq_ok_iff.mpr ⟨hclear, rfl⟩] at hmake
      cases hmake

/-- The first call of a replay makes the target directory. -/
lemma staysBelow_target : StaysBelow options disk (.mkdirRecursive options.targetDir.toList) ↔
    AboveThere options disk := by
  rw [staysBelow_mkdir]
  refine forall_congr' fun _ => forall₃_congr fun dir hdir _ => ?_
  exact ⟨fun h => ((List.mem_inits _ _).mp hdir).eq_of_length_le h.length_le,
    fun h => h ▸ List.prefix_rfl⟩

lemma exec_mkdir_eq_ok_iff {path : Chars} :
    (FsCall.mkdirRecursive path).exec options.cwd.toList store disk = .ok disk' ↔
      (∀ dir ∈ (resolve options.cwd.toList path).inits, disk.NoFile dir) ∧
        disk' = disk.addDirs (resolve options.cwd.toList path).inits := by
  rw [FsCall.exec, Volume.mkdirAll_eq_ok_iff]

section Event

variable (hthere : ∀ dir ∈ options.target.inits, disk.node dir = some .dir)

include hthere

/-- Where the target directory is there, the missing parents of a path inside are
made inside. -/
lemma staysBelow_mkdir_dirname {path : String} (h : LeadsBack options path) :
    StaysBelow options disk (.mkdirRecursive (dirname (rebase options path))) := by
  rw [leadsBack_iff] at h
  refine staysBelow_mkdir.mpr fun _ dir hdir hnone => ?_
  rw [List.mem_inits] at hdir
  have hcomparable : options.target <+: dir ∨ dir <+: options.target := by
    rcases resolve_dirname_comparable options.cwd.toList (rebase options path) with hup | hup
    · exact List.prefix_or_prefix_of_prefix h (hdir.trans hup)
    · exact List.prefix_or_prefix_of_prefix (h.trans hup) hdir
  refine hcomparable.resolve_right fun habove => ?_
  rw [hthere dir ((List.mem_inits _ _).mpr habove)] at hnone
  cases hnone

/-- The parents of a path are made, and then a call touches the path. -/
lemma confined_parents {path : String} {call : FsCall} (hcall : ∀ d,
      touched options.cwd.toList d call = [resolve options.cwd.toList (rebase options path)]) :
    Confined options store disk [.mkdirRecursive (dirname (rebase options path)), call] ↔
      (Clear options disk path → LeadsBack options path) := by
  have htouch : ∀ d, StaysBelow options d call ↔ LeadsBack options path := fun d => by
    rw [StaysBelow, hcall, List.forall_mem_singleton, leadsBack_iff]
  rw [confined_cons]
  constructor
  · rintro ⟨-, hrest⟩ hclear
    have hmade := hrest _ (exec_mkdir_eq_ok_iff.mpr ⟨hclear, rfl⟩)
    exact (htouch _).mp (confined_cons.mp hmade).1
  · intro hback
    constructor
    · by_cases hclear : Clear options disk path
      · exact staysBelow_mkdir_dirname hthere (hback hclear)
      · exact staysBelow_mkdir.mpr fun h => absurd h hclear
    · intro d hd
      refine confined_cons.mpr ⟨(htouch d).mpr (hback (exec_mkdir_eq_ok_iff.mp hd).1), ?_⟩
      exact fun _ _ => confined_nil

/-- A file is opened or made, and then a call touches it, and perhaps another path. -/
lemma confined_ensureFile_append {path : String} {call : FsCall} {also : Prop}
    (hcall : ∀ d, StaysBelow options d call ↔ LeadsBack options path ∧ also) :
    Confined options store disk (ensureFile (rebase options path) ++ [call]) ↔
      (Clear options disk path → LeadsBack options path) ∧
        (Opens options store disk path → also) := by
  rw [confined_append, ensureFile, confined_parents hthere fun _ => rfl]
  refine and_congr_right fun hback => ?_
  constructor
  · rintro h ⟨d, hd⟩
    exact ((hcall d).mp (confined_cons.mp (h d hd)).1).2
  · intro h d hd
    have hclear : Clear options disk path := by
      rw [← List.singleton_append, runCalls_append, bind_eq_ok] at hd
      obtain ⟨d', hd', -⟩ := hd
      rw [runCalls_singleton] at hd'
      exact (exec_mkdir_eq_ok_iff.mp hd').1
    exact confined_cons.mpr ⟨(hcall d).mpr ⟨hback hclear, h ⟨d, hd⟩⟩, fun _ _ => confined_nil⟩

/-- **One event** touches nothing outside exactly if it stays inside. -/
lemma confined_applySelected (event : TraceEvent) (bytes : Option ℕ) :
    Confined options store disk (applySelected options event bytes) ↔
      StaysInside options store disk event := by
  have hone : ∀ {call : FsCall} {path : String}, (∀ d, touched options.cwd.toList d call =
        [resolve options.cwd.toList (rebase options path)]) →
      ∀ d, StaysBelow options d call ↔ LeadsBack options path ∧ True := fun hcall d => by
    rw [StaysBelow, hcall, List.forall_mem_singleton, leadsBack_iff, and_true]
  have htwo : ∀ {call : FsCall}, (∀ d, touched options.cwd.toList d call =
        [resolve options.cwd.toList (rebase options event.path),
          resolve options.cwd.toList (rebase options event.path2)]) →
      ∀ d, StaysBelow options d call ↔
        LeadsBack options event.path ∧ LeadsBack options event.path2 := fun hcall d => by
    rw [StaysBelow, hcall, List.forall_mem_cons, List.forall_mem_singleton, leadsBack_iff,
      leadsBack_iff]
  have hlast : ∀ {call : FsCall}, Confined options store disk [call] ↔
      StaysBelow options disk call := by
    intro call
    rw [confined_cons]
    exact and_iff_left fun _ _ => confined_nil
  rw [applySelected, StaysInside]
  cases event.call with
  | write | pwrite | writev =>
      -- without its payload nothing is touched
      have hread : ∀ d, (FsCall.readPayload (payloadObject options event)).exec
          options.cwd.toList store disk = .ok d ↔
            (store (payloadObject options event)).isSome ∧ disk = d := fun d => by
        rw [FsCall.exec]
        split <;> simp_all
      have hnone : StaysBelow options disk (.readPayload (payloadObject options event)) :=
        fun _ h => absurd h List.not_mem_nil
      rw [applyWrite, confined_cons, and_iff_right hnone]
      have hparents : Confined options store disk
            [.mkdirRecursive (dirname (rebase options event.path)), .writePayload
              (rebase options event.path) (payloadObject options event) bytes event.offset] ↔
          (Clear options disk event.path → LeadsBack options event.path) :=
        confined_parents hthere fun _ => rfl
      rw [← hparents]
      constructor
      · exact fun h hstored => h disk ((hread disk).mpr ⟨hstored, rfl⟩)
      · intro h d hd
        obtain ⟨hstored, rfl⟩ := (hread d).mp hd
        exact h hstored
  | truncate | ftruncate =>
      rw [confined_ensureFile_append hthere (hone fun _ => rfl)]
      exact and_iff_left fun _ => trivial
  | mkdir => rw [hlast, staysBelow_mkdir]
  | rename | link => exact confined_ensureFile_append hthere (htwo fun _ => rfl)
  | unlink =>
      rw [hlast, hone fun _ => rfl]
      exact and_iff_left trivial
  | open_ | close | fsync | fdatasync | syncFileRange => exact iff_of_true confined_nil trivial

end Event

/-! ### The target directory stays -/

/-- A call removes no directory, unless it renames one. -/
lemma dir_exec {call : FsCall} {dir : List Chars}
    (hrename : ∀ source dest, call = .rename source dest →
      ∃ i, disk.node (resolve options.cwd.toList source) = some (.file i))
    (hexec : call.exec options.cwd.toList store disk = .ok disk')
    (hdir : disk.node dir = some .dir) : disk'.node dir = some .dir := by
  cases call with
  | readPayload object =>
      rw [FsCall.exec] at hexec
      split at hexec
      · exact Except.ok.inj hexec ▸ hdir
      · cases hexec
  | mkdirRecursive path =>
      obtain ⟨-, rfl⟩ := exec_mkdir_eq_ok_iff.mp hexec
      rw [Volume.node_addDirs, hdir, ite_self]
  | openAppend path =>
      obtain ⟨-, hne, rfl⟩ := Volume.create_eq_ok_iff.mp hexec
      have hother : dir ≠ resolve options.cwd.toList path := fun h => hne (h ▸ hdir)
      rwa [Volume.node_touch_of_ne hother]
  | writePayload path object bytes offset =>
      rw [FsCall.exec] at hexec
      split at hexec
      · cases hexec
      · obtain ⟨d, hd, hwrite⟩ := bind_eq_ok.mp hexec
        obtain ⟨-, hne, rfl⟩ := Volume.create_eq_ok_iff.mp hd
        obtain ⟨-, -, rfl⟩ := Volume.write_eq_ok_iff.mp hwrite
        have hother : dir ≠ resolve options.cwd.toList path := fun h => hne (h ▸ hdir)
        rwa [Volume.node_edit, Volume.node_touch_of_ne hother]
  | truncate path length =>
      obtain ⟨-, -, rfl⟩ := Volume.truncate_eq_ok_iff.mp hexec
      rwa [Volume.node_edit]
  | rename source dest =>
      obtain ⟨i, hi⟩ := hrename source dest rfl
      obtain ⟨-, -, hne, rfl⟩ := (Volume.rename_file_eq_ok_iff hi).mp hexec
      by_cases hsame : disk.node (resolve options.cwd.toList dest) = some (.file i)
      · rwa [Volume.renamed_of_same hi hsame]
      · have hdest : dir ≠ resolve options.cwd.toList dest := fun h => hne (h ▸ hdir)
        have hsource : dir ≠ resolve options.cwd.toList source := fun h => by
          rw [h, hi] at hdir
          cases hdir
        rwa [Volume.renamed_of_ne hi hsame, Volume.node_move, if_neg hdest, if_neg hsource]
  | link source dest =>
      obtain ⟨-, -, ⟨i, hi⟩, hnone, rfl⟩ := Volume.link_eq_ok_iff.mp hexec
      rw [Volume.linked_eq hi, Volume.node_setNode, if_neg, hdir]
      rintro rfl
      rw [hnone] at hdir
      cases hdir
  | rm path =>
      rw [FsCall.exec, Volume.remove] at hexec
      split at hexec
      · next i hi =>
          obtain ⟨-, hfile⟩ := Volume.inode_eq_ok_iff.mp hi
          rw [← Except.ok.inj hexec, Volume.node_removeNode, if_neg, hdir]
          rintro rfl
          rw [hfile] at hdir
          cases hdir
      · exact Except.ok.inj hexec ▸ hdir
      · cases hexec

/-- So does a list of calls that renames none. -/
lemma dir_runCalls {calls : List FsCall} {dir : List Chars}
    (hrename : ∀ source dest, .rename source dest ∉ calls)
    (hrun : runCalls options.cwd.toList store disk calls = .ok disk')
    (hdir : disk.node dir = some .dir) : disk'.node dir = some .dir := by
  induction calls generalizing disk with
  | nil => exact Except.ok.inj hrun ▸ hdir
  | cons call calls ih =>
      rw [← List.singleton_append, runCalls_append, bind_eq_ok] at hrun
      obtain ⟨d, hd, hrest⟩ := hrun
      rw [runCalls_singleton] at hd
      refine ih (fun source dest h => hrename source dest (List.mem_cons_of_mem _ h)) hrest ?_
      refine dir_exec (fun source dest h => ?_) hd hdir
      exact absurd (h ▸ List.mem_cons_self) (hrename source dest)

/-- The source of a rename is opened before, and so it is a file. -/
lemma dir_applySelected {event : TraceEvent} {bytes : Option ℕ} {dir : List Chars}
    (hrun : runCalls options.cwd.toList store disk (applySelected options event bytes) =
      .ok disk')
    (hdir : disk.node dir = some .dir) : disk'.node dir = some .dir := by
  rw [applySelected] at hrun
  cases hcall : event.call with
  | rename =>
      simp only [hcall] at hrun
      obtain ⟨d, hd, hlast⟩ := bind_eq_ok.mp ((runCalls_append _ _ _).symm.trans hrun)
      rw [runCalls_singleton] at hlast
      refine dir_exec (fun source dest h => ?_) hlast
        (dir_runCalls (by simp [ensureFile]) hd hdir)
      obtain ⟨rfl, rfl⟩ : rebase options event.path = source ∧
          rebase options event.path2 = dest := by
        simpa using h
      rw [ensureFile, ← List.singleton_append, runCalls_append, bind_eq_ok] at hd
      obtain ⟨d', -, hopen⟩ := hd
      rw [runCalls_singleton] at hopen
      obtain ⟨-, -, rfl⟩ := Volume.create_eq_ok_iff.mp hopen
      exact Volume.exists_node_touch
  | write | pwrite | writev | truncate | ftruncate | mkdir | link | unlink | open_ | close
  | fsync | fdatasync | syncFileRange =>
      simp only [hcall] at hrun
      exact dir_runCalls (by simp [applyWrite, ensureFile]) hrun hdir

/-- Events applied after the target directory was made find it there. -/
lemma there_of_applied {applied : List (TraceEvent × Option ℕ)} {dir : List Chars}
    (hrun : runCalls options.cwd.toList store disk (.mkdirRecursive options.targetDir.toList ::
      applied.flatMap fun (event, bytes) => applySelected options event bytes) = .ok disk')
    (hdir : dir ∈ options.target.inits) : disk'.node dir = some .dir := by
  rw [← List.singleton_append, runCalls_append, bind_eq_ok] at hrun
  obtain ⟨d, hd, hrest⟩ := hrun
  have hmade : d.node dir = some .dir := by
    rw [runCalls_singleton] at hd
    obtain ⟨-, rfl⟩ := exec_mkdir_eq_ok_iff.mp hd
    rw [Volume.node_addDirs]
    exact if_pos hdir
  clear hd
  induction applied generalizing d with
  | nil => exact Except.ok.inj hrest ▸ hmade
  | cons first applied ih =>
      rw [List.flatMap_cons, runCalls_append, bind_eq_ok] at hrest
      obtain ⟨d', hd', hrest⟩ := hrest
      exact ih d' hrest (dir_applySelected hd' hmade)

/-! ### A whole replay -/

/-- What `replaySelection` and `replayTrace` do with the events they apply. -/
def applyAll (options : ReplayOptions) (applied : List (TraceEvent × Option ℕ)) : List FsCall :=
  .mkdirRecursive options.targetDir.toList ::
    applied.flatMap fun (event, bytes) => applySelected options event bytes

/-- Every event that is applied stays inside on the disk that those before it leave, if none
of them threw. -/
def AllStayInside (options : ReplayOptions) (store : Store) (disk : Disk)
    (applied : List (TraceEvent × Option ℕ)) : Prop :=
  ∀ before event bytes after, applied = before ++ (event, bytes) :: after → ∀ disk',
    runCalls options.cwd.toList store disk (applyAll options before) = .ok disk' →
      StaysInside options store disk' event

lemma confined_applyAll (applied : List (TraceEvent × Option ℕ)) :
    Confined options store disk (applyAll options applied) ↔
      AboveThere options disk ∧ AllStayInside options store disk applied := by
  rw [applyAll, confined_cons, staysBelow_target]
  refine and_congr_right fun _ => ?_
  have hruns : ∀ before disk', runCalls options.cwd.toList store disk (applyAll options before) =
      .ok disk' ↔ ∃ d, (FsCall.mkdirRecursive options.targetDir.toList).exec options.cwd.toList
        store disk = .ok d ∧ runCalls options.cwd.toList store d
          (before.flatMap fun (event, bytes) => applySelected options event bytes) =
            .ok disk' := fun before disk' => by
    rw [applyAll, ← List.singleton_append, runCalls_append, bind_eq_ok, runCalls_singleton]
  simp only [confined_flatMap]
  constructor
  · intro h before event bytes after hsplit disk' hrun
    obtain ⟨d, hd, hrest⟩ := (hruns before disk').mp hrun
    refine (confined_applySelected (fun dir hdir => ?_) event bytes).mp
      (h d hd before (event, bytes) after hsplit disk' hrest)
    exact there_of_applied hrun hdir
  · rintro h d hd before ⟨event, bytes⟩ after hsplit disk' hrest
    have hrun := (hruns before disk').mpr ⟨d, hd, hrest⟩
    exact (confined_applySelected (fun dir hdir => there_of_applied hrun hdir) event bytes).mpr
      (h before event bytes after hsplit disk' hrun)

/-- The events that a full replay applies. -/
def Trace.succeeded (trace : Trace) : List (TraceEvent × Option ℕ) :=
  (trace.events.filter (0 ≤ ·.returnValue)).map fun event => (event, none)

lemma replayTrace_eq (trace : Trace) :
    replayTrace options trace = applyAll options trace.succeeded := by
  rw [replayTrace, applyAll, Trace.succeeded, List.flatMap_map]
  congr 1
  induction trace.events with
  | nil => rfl
  | cons event events ih =>
      rw [List.flatMap_cons, List.filter_cons, ih]
      by_cases hret : event.returnValue < 0
      · rw [if_pos hret, if_neg (by simpa using hret), List.nil_append]
      · rw [if_neg hret, if_pos (by simpa using hret), List.flatMap_cons]

/-- **Where replay is confined**: exactly where the directories above its target exist, and
every event that it comes to leads into the target or throws before it leaves it. -/
theorem confined_iff (options : ReplayOptions) (store : Store) (disk : Disk) (trace : Trace) :
    (∀ selection, Confined options store disk (replaySelection options trace selection) ↔
      AboveThere options disk ∧ AllStayInside options store disk (selection.applied trace)) ∧
    (Confined options store disk (replayTrace options trace) ↔
      AboveThere options disk ∧ AllStayInside options store disk trace.succeeded) := by
  refine ⟨fun selection => confined_applyAll _, ?_⟩
  rw [replayTrace_eq]
  exact confined_applyAll _

/-- Options of a replay of `/live` into a mounted image. -/
def imageOptions : ReplayOptions := ⟨"/cas", "/live", "/mnt/image", "/"⟩

/-- One successful `unlink` outside `/live`, and a write through a descriptor
whose path is unknown. -/
def strayTrace : Trace where
  header := ⟨1, 1⟩
  events := [callAt 0 .unlink "/tmp/f", callAt 1 .write ""]
  markers := []

/-- The mounted image is empty, and next to it is a file. -/
def strayDisk : Disk :=
  ⟨[([], .dir), (["mnt".toList], .dir), (["mnt".toList, "image".toList], .dir),
    (["mnt".toList, "tmp".toList], .dir), (["mnt".toList, "tmp".toList, "f".toList], .file 0)],
    fun _ => [], 1⟩

/-- The replay removes the file next to the image, and writes to the directory
above it. -/
theorem unlink_outside_target :
    (∃ disk, runCalls imageOptions.cwd.toList (fun _ => some []) strayDisk
        (replaySelection imageOptions strayTrace ⟨[0], []⟩) = .ok disk ∧
      strayDisk.node ["mnt".toList, "tmp".toList, "f".toList] = some (.file 0) ∧
      disk.node ["mnt".toList, "tmp".toList, "f".toList] = none) ∧
    rebase imageOptions "" = "/mnt".toList ∧
    ¬ Confined imageOptions (fun _ => some []) strayDisk
      (replaySelection imageOptions strayTrace ⟨[0], []⟩) ∧
    ¬ Confined imageOptions (fun _ => some []) strayDisk
      (replayTrace imageOptions strayTrace) := by
  have hout : ∀ disk, ¬ StaysBelow imageOptions disk (.rm "/mnt/tmp/f".toList) := by
    intro disk h
    exact absurd (h _ (List.mem_singleton.mpr rfl)) (by decide)
  refine ⟨⟨_, rfl, by decide, by decide⟩, by decide, fun h => ?_, fun h => ?_⟩
  · exact hout strayDisk (h (strayDisk, .rm "/mnt/tmp/f".toList) (by
      exact List.mem_cons_of_mem _ List.mem_cons_self))
  · exact hout strayDisk (h (strayDisk, .rm "/mnt/tmp/f".toList) (by
      exact List.mem_cons_of_mem _ List.mem_cons_self))

end CrashFuzz
