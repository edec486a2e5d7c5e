import CrashFuzz.Image.Host

/-!
What a mount leaves behind (`withMount` of `core/src/image/image.ts`).

* `Host.freeDevice_notMem`: a device that is attached was not in use.
* `Holds`: a host in the middle of a mount, kept by each step.
* `Leftover`: what may be left when a mount ends, at most one device, one mount and
  one mount point, and no device or mount unless a command that cleans up failed.
* `withMount_ends`: a mount that returns leaves nothing but what its callback
  made of the filesystem, one that throws what is `Leftover`.
-/

namespace CrashFuzz.Image

open PosixPath Effects

variable {Fs α : Type} {env : Environment} {h g : Host Fs} {location : List Chars} {dir : Chars}
  {n : ℕ} {mounted : Bool}

/-! ### The host in between -/

/-- **A device that is found** is not in use. -/
lemma Host.freeDevice_notMem (h : Host Fs) : h.freeDevice ∉ h.inUse := by
  have hexists : ∃ n ∈ List.range (h.inUse.length + 1), n ∉ h.inUse := by
    by_contra hnone
    push Not at hnone
    have hle := (List.nodup_range.subperm hnone).length_le
    rw [List.length_range] at hle
    omega
  obtain ⟨n, hn, hfree⟩ := hexists
  rw [Host.freeDevice]
  cases hfind : (List.range (h.inUse.length + 1)).find? (· ∉ h.inUse) with
  | none => exact absurd (List.find?_eq_none.mp hfind n hn) (by simpa using hfree)
  | some m => simpa using List.find?_some hfind

/-- The state before a mount, with the device and the mount point of its own,
and the mount once it is made. -/
structure Holds (h g : Host Fs) (location : List Chars) (dir : Chars) (n : ℕ) (mounted : Bool) :
    Prop where
  free : n ∉ h.inUse
  new : dir ∉ h.taken
  devices : g.devices = ⟨n, location, false⟩ :: h.devices
  mounts : g.mounts = if mounted then ⟨dir, n⟩ :: h.mounts else h.mounts
  dirs : g.dirs = dir :: h.dirs
  others : ∀ l ≠ location, g.images l = h.images l

namespace Holds

lemma notMem_devices (hg : Holds h g location dir n mounted) {d : Device} (hd : d ∈ h.devices) :
    d.number ≠ n := by
  rintro rfl
  exact hg.free (List.mem_append_left _ (List.mem_map_of_mem hd))

lemma notMem_mounts (hg : Holds h g location dir n mounted) {m : Mount} (hm : m ∈ h.mounts) :
    m.device ≠ n ∧ m.dir ≠ dir := by
  constructor
  · rintro rfl
    exact hg.free (List.mem_append_right _ (List.mem_map_of_mem hm))
  · rintro rfl
    exact hg.new (List.mem_append_right _ (List.mem_map_of_mem hm))

lemma filter_devices (hg : Holds h g location dir n mounted) :
    h.devices.filter (·.number ≠ n) = h.devices :=
  List.filter_eq_self.mpr fun _ hd => by simpa using hg.notMem_devices hd

lemma filter_mounts (hg : Holds h g location dir n mounted) :
    h.mounts.filter (·.dir ≠ dir) = h.mounts :=
  List.filter_eq_self.mpr fun _ hm => by simpa using (hg.notMem_mounts hm).2

lemma filter_dirs (hg : Holds h g location dir n mounted) :
    h.dirs.filter (· ≠ dir) = h.dirs := by
  refine List.filter_eq_self.mpr fun d hd => ?_
  have hne : d ≠ dir := by
    rintro rfl
    exact hg.new (List.mem_append_left _ hd)
  simpa using hne

lemma tick (hg : Holds h g location dir n mounted) : Holds h g.tick location dir n mounted :=
  ⟨hg.free, hg.new, hg.devices, hg.mounts, hg.dirs, hg.others⟩

/-- The image may change. -/
lemma setImage (hg : Holds h g location dir n mounted) (file : Option (Option Fs)) :
    Holds h (g.setImage location file) location dir n mounted where
  free := hg.free
  new := hg.new
  devices := hg.devices
  mounts := hg.mounts
  dirs := hg.dirs
  others := fun l hl => (Function.update_of_ne hl _ _).trans (hg.others l hl)

lemma mount (hg : Holds h g location dir n false) :
    Holds h (g.mount n dir) location dir n true where
  free := hg.free
  new := hg.new
  devices := hg.devices
  mounts := congrArg (_ :: ·) hg.mounts
  dirs := hg.dirs
  others := hg.others

/-- A device that was not detached stays when it is unmounted. -/
lemma umount (hg : Holds h g location dir n true) :
    Holds h (g.umount dir) location dir n false := by
  have hfind : g.mounts.find? (·.dir = dir) = some ⟨dir, n⟩ := by
    rw [hg.mounts, if_pos rfl, List.find?_cons_of_pos (by simp)]
  have hkept : (g.devices.any fun d => d.number = n && d.detached) = false := by
    rw [hg.devices, List.any_cons, List.any_eq_false.mpr]
    · simp
    · intro d hd
      simp [hg.notMem_devices hd]
  have hfilter : g.mounts.filter (·.dir ≠ dir) = h.mounts := by
    rw [hg.mounts, if_pos rfl, List.filter_cons, if_neg (by simp), hg.filter_mounts]
  have humount : g.umount dir = { g with mounts := h.mounts } := by
    rw [Host.umount, hfind, hfilter]
    simp only [hkept, Bool.false_eq_true, if_false]
  rw [humount]
  exact ⟨hg.free, hg.new, hg.devices, rfl, hg.dirs, hg.others⟩

end Holds

/-! ### What is left -/

/-- The commands that clean up do not fail. -/
def Environment.CleansUp (env : Environment) : Prop :=
  ∀ time, (∀ dir, env.fails (.umount dir) time = none) ∧ ∀ n, env.fails (.detach n) time = none

/-- What may be left: at most one device, one mount and one mount point, and no
device or mount if nothing failed to clean up. -/
structure Leftover (env : Environment) (h g : Host Fs) : Prop where
  devices : g.devices = h.devices ∨ ∃ d, g.devices = d :: h.devices
  mounts : g.mounts = h.mounts ∨ ∃ m, g.mounts = m :: h.mounts
  dirs : g.dirs = h.dirs ∨ ∃ d, g.dirs = d :: h.dirs
  cleaned : env.CleansUp → g.devices = h.devices ∧ g.mounts = h.mounts

/-- Nothing is left. -/
structure Same (h g : Host Fs) : Prop where
  devices : g.devices = h.devices
  mounts : g.mounts = h.mounts
  dirs : g.dirs = h.dirs

lemma Same.leftover (hg : Same h g) : Leftover env h g :=
  ⟨.inl hg.devices, .inl hg.mounts, .inl hg.dirs, fun _ => ⟨hg.devices, hg.mounts⟩⟩

/-- How `withMount` ends. -/
structure MountEnds (env : Environment) (fn : Chars → EStateM Thrown Fs α)
    (location : List Chars) (h : Host Fs) (r : Except Thrown α) (g : Host Fs) : Prop where
  leftover : Leftover env h g
  others : ∀ l ≠ location, g.images l = h.images l
  returned : ∀ a, r = .ok a → Same h g ∧ ∃ dir fs fs', h.images location = some (some fs) ∧
    fn dir fs = .ok a fs' ∧ g.images location = some (some fs')

/-- An error before the device is attached. -/
lemma MountEnds.of_error {fn : Chars → EStateM Thrown Fs α} {e : Thrown}
    (hleft : Leftover env h g) (hothers : ∀ l ≠ location, g.images l = h.images l) :
    MountEnds env fn location h (.error e) g :=
  ⟨hleft, hothers, fun a ha => by cases ha⟩

/-! ### The parts of the script -/

lemma ends_mkdtemp {P : Except Thrown Chars → Host Fs → Prop} :
    Ends (mkdtemp env) h P ↔
      (∀ thrown, env.throws .mkdtemp h.time = some thrown → P (.error thrown) h.tick) ∧
      (env.throws .mkdtemp h.time = none →
        P (.ok (env.tempDir h.time h.taken)) (h.tick.makeDir (env.tempDir h.time h.taken))) :=
  ends_bind.trans (ends_bind.trans ends_call)

lemma ends_losetup {cwd imagePath : Chars} {P : Except Thrown ℕ → Host Fs → Prop} :
    Ends (losetup env cwd imagePath) h P ↔
      (∀ failure, env.fails (.losetup imagePath) h.time = some failure →
        P (.error (failure.thrown (.losetup imagePath))) h.tick) ∧
      (env.fails (.losetup imagePath) h.time = none →
        P (.ok h.freeDevice) (h.tick.attach h.freeDevice (resolve cwd imagePath))) :=
  ends_bind.trans (ends_bind.trans ends_run)

/-- The callback changes the image only. -/
lemma ends_inside {fn : EStateM Thrown Fs α} {P : Except Thrown α → Host Fs → Prop}
    (herror : ∀ e file, P (.error e) (g.setImage location file)) (hstart : ∀ e, P (.error e) g)
    (hok : ∀ a fs fs', g.images location = some (some fs) → fn fs = .ok a fs' →
      P (.ok a) (g.setImage location (some (some fs')))) :
    Ends (inside location fn) g P := by
  cases himage : g.images location with
  | none =>
      have hinside : inside location fn g = .error .typeError g := by rw [inside, himage]
      exact (ends_of_error hinside).mpr (hstart _)
  | some file =>
      cases file with
      | none =>
          have hinside : inside location fn g = .error .typeError g := by rw [inside, himage]
          exact (ends_of_error hinside).mpr (hstart _)
      | some fs =>
          cases hfn : fn fs with
          | ok a fs' =>
              have hinside : inside location fn g =
                  .ok a (g.setImage location (some (some fs'))) := by
                rw [inside, himage]
                simp only [hfn]
              exact (ends_of_ok hinside).mpr (hok a fs fs' himage hfn)
          | error e fs' =>
              have hinside : inside location fn g =
                  .error e (g.setImage location (some (some fs'))) := by
                rw [inside, himage]
                simp only [hfn]
              exact (ends_of_error hinside).mpr (herror e _)

/-- Mounting is refused, fails or is done. -/
lemma ends_mount {mountOptions : Option String} {P : Except Thrown Unit → Host Fs → Prop}
    (hrefused : ∀ e, P (.error e) g) (hfails : ∀ e, P (.error e) g.tick)
    (hok : P (.ok ()) (g.tick.mount n dir)) :
    Ends (mount env mountOptions location n dir) g P := by
  have hget : (get : Script Fs (Host Fs)) g = .ok g g := rfl
  refine ends_bind.mpr ((ends_of_ok hget).mpr (then_ok.mpr ?_))
  split
  · exact ends_run.mpr ⟨fun _ _ => hfails _, fun _ => hok⟩
  · exact (ends_of_error rfl).mpr (hrefused _)

/-- What a callback that returned made of the image. -/
def Wrote (fn : Chars → EStateM Thrown Fs α) (location : List Chars) (dir : Chars) (h g : Host Fs)
    (a : α) : Prop :=
  ∃ fs fs', h.images location = some (some fs) ∧ fn dir fs = .ok a fs' ∧
    g.images location = some (some fs')

/-- How the part between attaching and detaching ends. -/
structure InnerEnds (env : Environment) (fn : Chars → EStateM Thrown Fs α)
    (location : List Chars) (dir : Chars) (n : ℕ) (h : Host Fs) (r : Except Thrown α)
    (g : Host Fs) : Prop where
  /-- The mount is left only if unmounting failed. -/
  holds : Holds h g location dir n false ∨
    Holds h g location dir n true ∧ (∀ a, r ≠ .ok a) ∧ ¬ env.CleansUp
  returned : ∀ a, r = .ok a → Wrote fn location dir h g a

section Parts

variable {fn : Chars → EStateM Thrown Fs α} {mountOptions : Option String}
  {emptied : Fs → Fs}

lemma InnerEnds.of_error {e : Thrown} (hg : Holds h g location dir n false) :
    InnerEnds env fn location dir n h (.error e) g := ⟨.inl hg, fun a ha => by cases ha⟩

lemma Host.images_umount : (g.umount dir).images = g.images := by
  rw [Host.umount]
  split
  · rfl
  · split <;> rfl

/-- Unmounting, however the callback ended. -/
lemma umount_ends {r : Except Thrown α} (hg : Holds h g location dir n true)
    (hr : ∀ a, r = .ok a → Wrote fn location dir h g a) :
    Ends (run env (.umount dir) (·.umount dir)) g
      (Then (fun _ => InnerEnds env fn location dir n h r) fun e =>
        InnerEnds env fn location dir n h (.error e)) := by
  refine ends_run.mpr ⟨fun failure hfails => ?_, fun _ => ⟨.inl hg.tick.umount, fun a ha => ?_⟩⟩
  · have hdirty : ¬ env.CleansUp := fun hclean => by
      rw [(hclean g.time).1 dir] at hfails
      cases hfails
    exact ⟨.inr ⟨hg.tick, (fun a ha => by cases ha), hdirty⟩, fun a ha => by cases ha⟩
  · obtain ⟨fs, fs', hfs, hfn, hfs'⟩ := hr a ha
    exact ⟨fs, fs', hfs, hfn, Host.images_umount.symm ▸ hfs'⟩

/-- **The inner part**: mounting, the callback and unmounting. -/
lemma inner_ends (hg : Holds h g location dir n false)
    (himage : g.images location = h.images location) :
    Ends (do
        mount env mountOptions location n dir
        try
          run env (.chmod dir) id
          inside location (fn dir)
        finally
          run env (.umount dir) (·.umount dir)) g
      (InnerEnds env fn location dir n h) := by
  refine ends_bind.mpr (ends_mount (fun e => .of_error hg) (fun e => .of_error hg.tick) ?_)
  have hmounted := hg.tick.mount
  refine ends_finally.mpr (ends_bind.mpr (ends_run.mpr ⟨fun failure _ => ?_, fun _ => ?_⟩))
  · exact umount_ends hmounted.tick fun a ha => by cases ha
  · refine then_ok.mpr (ends_inside (fun e file => ?_) (fun e => ?_) fun a fs fs' hfs hfn => ?_)
    · exact umount_ends (hmounted.tick.setImage file) fun a ha => by cases ha
    · exact umount_ends hmounted.tick fun a ha => by cases ha
    · refine umount_ends (hmounted.tick.setImage _) fun b hb => ?_
      cases hb
      exact ⟨fs, fs', himage.symm.trans hfs, hfn, Function.update_self _ _ _⟩

/-- Detaching a device that is mounted marks it. -/
lemma Holds.exists_detach_eq (hg : Holds h g location dir n true) :
    ∃ d, g.detach n = { g with devices := d :: h.devices } := by
  have hmounted : (g.mounts.any fun m => m.device = n) = true := by
    rw [hg.mounts, if_pos rfl, List.any_cons]
    simp
  have hothers : h.devices.map (fun d => if d.number = n then { d with detached := true } else d) =
      h.devices := by
    refine (List.map_congr_left fun d hd => if_neg (hg.notMem_devices hd)).trans ?_
    exact List.map_id _
  refine ⟨⟨n, location, true⟩, ?_⟩
  rw [Host.detach, if_pos hmounted, hg.devices, List.map_cons, if_pos rfl, hothers]

/-- Detaching one that is not removes it. -/
lemma Holds.detach_eq (hg : Holds h g location dir n false) :
    g.detach n = { g with devices := h.devices } := by
  have hmounts : g.mounts = h.mounts := hg.mounts
  have hfree : (g.mounts.any fun m => m.device = n) = false := by
    rw [hmounts, List.any_eq_false]
    intro m hm
    simpa using (hg.notMem_mounts hm).1
  rw [Host.detach, if_neg (by rw [hfree]; decide), Host.removeDevice, hg.devices,
    List.filter_cons, if_neg (by simp), hg.filter_devices]

/-- A mount point that is busy is left, another one is removed if that does not fail. -/
lemma ends_rmMountDir {P : Except Thrown Unit → Host Fs → Prop}
    (hbusy : g.mounts.any (·.dir = dir) = true → ∀ e file, P (.error e) (g.setImage location file))
    (hfree : g.mounts.any (·.dir = dir) = false →
      (∀ e, P (.error e) g.tick) ∧ P (.ok ()) (g.tick.removeDir dir)) :
    Ends (rmMountDir env emptied location dir) g P := by
  refine ends_bind.mpr (then_ok.mpr ?_)
  cases hany : g.mounts.any (·.dir = dir) with
  | true =>
      rw [if_pos rfl]
      exact hbusy hany _ _
  | false =>
      rw [if_neg (by decide)]
      exact ends_call.mpr ⟨fun e _ => (hfree hany).1 e, fun _ => (hfree hany).2⟩

/-- **Cleaning up**: detaching the device and removing the mount point. -/
lemma cleanup_ends {r : Except Thrown α} (hg : InnerEnds env fn location dir n h r g) :
    Ends (do
        run env (.detach n) (·.detach n)
        rmMountDir env emptied location dir) g
      (Then (fun _ => MountEnds env fn location h r) fun e =>
        MountEnds env fn location h (.error e)) := by
  refine ends_bind.mpr (ends_run.mpr ⟨fun failure hfails => ?_, fun _ => ?_⟩)
  · have hdirty : ¬ env.CleansUp := fun hclean => by
      rw [(hclean g.time).2 n] at hfails
      cases hfails
    rcases hg.holds with hheld | ⟨hheld, -⟩
    · exact .of_error ⟨.inr ⟨_, hheld.devices⟩, .inl hheld.mounts, .inr ⟨_, hheld.dirs⟩,
        fun hclean => absurd hclean hdirty⟩ hheld.others
    · exact .of_error ⟨.inr ⟨_, hheld.devices⟩, .inr ⟨_, hheld.mounts⟩, .inr ⟨_, hheld.dirs⟩,
        fun hclean => absurd hclean hdirty⟩ hheld.others
  · refine then_ok.mpr ?_
    rcases hg.holds with hheld | ⟨hheld, hthrew, hdirty⟩
    · -- the device is gone and nothing is mounted any more
      have hmounts : g.mounts = h.mounts := hheld.mounts
      have hunused : (g.mounts.any fun m => m.dir = dir) = false := by
        rw [hmounts, List.any_eq_false]
        intro m hm
        simpa using (hheld.notMem_mounts hm).2
      rw [hheld.tick.detach_eq]
      refine ends_rmMountDir (fun hbusy => ?_) fun _ => ⟨fun e => ?_, ?_⟩
      · exact absurd (hunused.symm.trans hbusy) (by decide)
      · exact .of_error ⟨.inl rfl, .inl hmounts, .inr ⟨_, hheld.dirs⟩, fun _ => ⟨rfl, hmounts⟩⟩
          hheld.others
      · have hsame : Same h (Host.removeDir
            (Host.tick { g.tick with devices := h.devices }) dir) := by
          refine ⟨rfl, hmounts, ?_⟩
          have hdirs : g.dirs.filter (· ≠ dir) = h.dirs := by
            rw [hheld.dirs, List.filter_cons, if_neg (by simp), hheld.filter_dirs]
          exact hdirs
        exact ⟨hsame.leftover, hheld.others, fun a ha => ⟨hsame, dir, hg.returned a ha⟩⟩
    · -- the mount keeps the device, and the mount point is busy
      obtain ⟨d, hd⟩ := hheld.tick.exists_detach_eq
      have hmounts : g.mounts = ⟨dir, n⟩ :: h.mounts := hheld.mounts
      have hused : (g.mounts.any fun m => m.dir = dir) = true := by
        rw [hmounts, List.any_cons]
        simp
      rw [hd]
      refine ends_rmMountDir (fun _ e file => ?_) fun hfree => ?_
      · exact .of_error ⟨.inr ⟨_, rfl⟩, .inr ⟨_, hmounts⟩, .inr ⟨_, hheld.dirs⟩,
          fun hclean => absurd hclean hdirty⟩ (hheld.setImage file).others
      · exact absurd (hused.symm.trans hfree) (by decide)

/-- **How a mount ends.** If it returns, nothing is left of it but what the
callback made of the image. If it throws, at most a device, a mount and a mount
point are left, and no device or mount unless a command that cleans up failed. -/
theorem withMount_ends (env : Environment) (emptied : Fs → Fs) (cwd imagePath : Chars)
    (fn : Chars → EStateM Thrown Fs α) (mountOptions : Option String) (h : Host Fs) :
    Ends (withMount env emptied cwd imagePath fn mountOptions) h
      (MountEnds env fn (resolve cwd imagePath) h) := by
  have hstart : ∀ e, MountEnds env fn (resolve cwd imagePath) h (.error e) h.tick := fun e =>
    .of_error (Same.leftover ⟨rfl, rfl, rfl⟩) fun _ _ => rfl
  refine ends_bind.mpr (ends_call.mpr ⟨fun e _ => hstart e, fun _ => then_ok.mpr ?_⟩)
  refine ends_bind.mpr (ends_mkdtemp.mpr ⟨fun e _ => ?_, fun _ => then_ok.mpr ?_⟩)
  · exact .of_error (Same.leftover ⟨rfl, rfl, rfl⟩) fun _ _ => rfl
  · refine ends_bind.mpr (ends_losetup.mpr ⟨fun failure _ => ?_, fun _ => then_ok.mpr ?_⟩)
    · exact .of_error ⟨.inl rfl, .inl rfl, .inr ⟨_, rfl⟩, fun _ => ⟨rfl, rfl⟩⟩ fun _ _ => rfl
    · have hheld : Holds h
          ((h.tick.tick.makeDir (env.tempDir h.tick.time h.tick.taken)).tick.attach
            (h.tick.tick.makeDir (env.tempDir h.tick.time h.tick.taken)).freeDevice
            (resolve cwd imagePath)) (resolve cwd imagePath)
          (env.tempDir h.tick.time h.tick.taken)
          (h.tick.tick.makeDir (env.tempDir h.tick.time h.tick.taken)).freeDevice false :=
        ⟨h.freeDevice_notMem, env.tempDir_fresh _ _, rfl, rfl, rfl, fun _ _ => rfl⟩
      refine ends_finally.mpr ((inner_ends hheld rfl).imp fun r g hr => ?_)
      exact cleanup_ends hr

end Parts

end CrashFuzz.Image
