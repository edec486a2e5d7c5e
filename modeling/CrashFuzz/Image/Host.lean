import CrashFuzz.Lib.Effects
import CrashFuzz.Lib.PosixPath
import CrashFuzz.Trace.Reader

/-!
Crash images on the guest (`core/src/image/image.ts`): what its commands do to
the image files, the loop devices, the mounts and the mount points.

* `Command`, `Environment`: the commands that are spawned, and what decides
  which of them fail. One that fails changes nothing.
* `Host`: what they change. A device that is detached while it is mounted goes
  with the mount.
* `createImage`, `withMount`: the two scripts.
* `withMount_ends`: what a mount leaves, however it ends.

What a filesystem holds is a parameter, and so is what a callback makes of it.
-/

namespace CrashFuzz

open PosixPath Effects

namespace Image

/-! ### Commands -/

/-- `Filesystem`. -/
inductive Filesystem where
  | ext4 | xfs | btrfs
  deriving DecidableEq, Repr

/-- `formatCommand`: options that keep a fresh filesystem byte-identical. -/
def formatCommand (filesystem : Filesystem) (imagePath : Chars) : List String :=
  match filesystem with
  | .ext4 => ["/usr/sbin/mkfs.ext4", "-q", "-F", String.ofList imagePath]
  | .xfs => ["/usr/sbin/mkfs.xfs", "-q", "-f", String.ofList imagePath]
  | .btrfs => ["/usr/sbin/mkfs.btrfs", "-q", "-f", String.ofList imagePath]

/-- The commands of the module. -/
inductive Command where
  | format (filesystem : Filesystem) (imagePath : Chars)
  | losetup (imagePath : Chars)
  | mount (mountOptions : Option String) (loopDevice : ℕ) (mountDir : Chars)
  | chmod (mountDir : Chars)
  | umount (mountDir : Chars)
  | detach (loopDevice : ℕ)
  deriving DecidableEq, Repr

/-- The path of a loop device. -/
def devicePath (loopDevice : ℕ) : String := "/dev/loop" ++ toString loopDevice

/-- A command as it is spawned. -/
def Command.words : Command → List String
  | format filesystem imagePath => formatCommand filesystem imagePath
  | losetup imagePath => ["sudo", "losetup", "--find", "--show", String.ofList imagePath]
  | mount mountOptions loopDevice mountDir =>
      ["sudo", "mount"] ++ (mountOptions.map fun options => ["-o", options]).getD [] ++
        [devicePath loopDevice, String.ofList mountDir]
  | chmod mountDir => ["sudo", "chmod", "0777", String.ofList mountDir]
  | umount mountDir => ["sudo", "umount", String.ofList mountDir]
  | detach loopDevice => ["sudo", "losetup", "--detach", devicePath loopDevice]

/-- How a command failed. -/
structure Failure where
  exitCode : String
  /-- What it printed, trimmed. -/
  detail : String

/-- What `run` and `capture` throw. -/
def Failure.thrown (failure : Failure) (command : Command) : Thrown :=
  .error (" ".intercalate command.words ++ " failed (" ++ failure.exitCode ++ "): " ++
    failure.detail)

/-- The calls into `node:fs`. -/
inductive FileCall where
  | mkdir (path : Chars)
  | mkdtemp
  | writeFile (path : Chars)
  | truncate (path : Chars) (sizeBytes : ℕ)
  | rm (path : Chars)
  deriving DecidableEq, Repr

/-- What decides how the commands and calls made at a time end. -/
structure Environment where
  fails : Command → ℕ → Option Failure
  throws : FileCall → ℕ → Option Thrown
  /-- The directory `mkdtempSync` makes, where these are taken. -/
  tempDir : ℕ → List Chars → Chars
  tempDir_fresh : ∀ time taken, tempDir time taken ∉ taken

/-! ### The host -/

/-- A loop device that is attached. -/
structure Device where
  number : ℕ
  /-- The location of its image. -/
  image : List Chars
  /-- It goes with its mount. -/
  detached : Bool

/-- An entry of the mount table. -/
structure Mount where
  dir : Chars
  device : ℕ

/-- What the scripts change. -/
structure Host (Fs : Type) where
  /-- The commands and calls made so far. -/
  time : ℕ
  /-- The image files by their location, each with its filesystem once it is made. -/
  images : List Chars → Option (Option Fs)
  devices : List Device
  mounts : List Mount
  /-- The directories made to mount on. -/
  dirs : List Chars

abbrev Script (Fs : Type) := EStateM Thrown (Host Fs)

variable {Fs α : Type}

namespace Host

variable (host : Host Fs)

def tick : Host Fs := { host with time := host.time + 1 }

/-- The loop devices in use. -/
def inUse : List ℕ := host.devices.map (·.number) ++ host.mounts.map (·.device)

/-- The first loop device that is not in use. -/
def freeDevice : ℕ :=
  ((List.range (host.inUse.length + 1)).find? (· ∉ host.inUse)).getD 0

/-- Where `mkdtempSync` may not make a directory. -/
def taken : List Chars := host.dirs ++ host.mounts.map (·.dir)

def setImage (location : List Chars) (file : Option (Option Fs)) : Host Fs :=
  { host with images := Function.update host.images location file }

def attach (loopDevice : ℕ) (location : List Chars) : Host Fs :=
  { host with devices := ⟨loopDevice, location, false⟩ :: host.devices }

def removeDevice (loopDevice : ℕ) : Host Fs :=
  { host with devices := host.devices.filter (·.number ≠ loopDevice) }

/-- A device that is mounted is only marked. -/
def detach (loopDevice : ℕ) : Host Fs :=
  if host.mounts.any (·.device = loopDevice) then
    { host with
      devices := host.devices.map fun d =>
        if d.number = loopDevice then { d with detached := true } else d }
  else host.removeDevice loopDevice

def mount (loopDevice : ℕ) (mountDir : Chars) : Host Fs :=
  { host with mounts := ⟨mountDir, loopDevice⟩ :: host.mounts }

/-- The last mount of a marked device takes it along. -/
def umount (mountDir : Chars) : Host Fs :=
  let unmounted : Host Fs := { host with mounts := host.mounts.filter (·.dir ≠ mountDir) }
  match host.mounts.find? (·.dir = mountDir) with
  | none => unmounted
  | some m =>
      if host.devices.any fun d => d.number = m.device && d.detached then
        unmounted.removeDevice m.device
      else unmounted

def makeDir (mountDir : Chars) : Host Fs := { host with dirs := mountDir :: host.dirs }

def removeDir (mountDir : Chars) : Host Fs :=
  { host with dirs := host.dirs.filter (· ≠ mountDir) }

end Host

/-! ### The scripts -/

/-- `MOUNT_ROOT`. -/
def mountRoot : Chars := "/var/lib/crashfuzz/mnt".toList

section Scripts

variable (env : Environment)

/-- `run`. -/
def run (command : Command) (effect : Host Fs → Host Fs) : Script Fs Unit := fun host =>
  match env.fails command host.time with
  | some failure => .error (failure.thrown command) host.tick
  | none => .ok () (effect host.tick)

/-- A call into `node:fs`. -/
def call (fileCall : FileCall) (effect : Host Fs → Host Fs) : Script Fs Unit := fun host =>
  match env.throws fileCall host.time with
  | some thrown => .error thrown host.tick
  | none => .ok () (effect host.tick)

/-- `mkdtempSync`. -/
def mkdtemp : Script Fs Chars := do
  let host ← get
  let mountDir := env.tempDir host.time host.taken
  call env .mkdtemp (·.makeDir mountDir)
  return mountDir

/-- `capture` of `losetup`, which prints the device it attached. -/
def losetup (cwd imagePath : Chars) : Script Fs ℕ := do
  let host ← get
  run env (.losetup imagePath) (·.attach host.freeDevice (resolve cwd imagePath))
  return host.freeDevice

/-- What `mount` says to an image without a filesystem. -/
def badSuperblock : Failure := ⟨"32", "wrong fs type, bad option, bad superblock"⟩

/-- `run` of `mount`. -/
def mount (mountOptions : Option String) (location : List Chars) (loopDevice : ℕ)
    (mountDir : Chars) : Script Fs Unit := do
  let host ← get
  match host.images location with
  | some (some _) =>
      run env (.mount mountOptions loopDevice mountDir) (·.mount loopDevice mountDir)
  | _ => throw (badSuperblock.thrown (.mount mountOptions loopDevice mountDir))

/-- The callback of `withMount`, on the filesystem that is mounted. -/
def inside (location : List Chars) (fn : EStateM Thrown Fs α) : Script Fs α := fun host =>
  match host.images location with
  | some (some fs) =>
      match fn fs with
      | .ok a fs' => .ok a (host.setImage location (some (some fs')))
      | .error e fs' => .error e (host.setImage location (some (some fs')))
  | _ => .error .typeError host

/-- `rmSync(mountDir, { recursive: true, force: true })`. What is still mounted
there is emptied, and the directory is busy. -/
def rmMountDir (emptied : Fs → Fs) (location : List Chars) (mountDir : Chars) :
    Script Fs Unit := do
  let host ← get
  if host.mounts.any (·.dir = mountDir) then
    set (host.setImage location ((host.images location).map (Option.map emptied)))
    throw (.error ("EBUSY: resource busy or locked, rm '" ++ String.ofList mountDir ++ "'"))
  else call env (.rm mountDir) (·.removeDir mountDir)

/-- `createImage`. -/
def createImage (fresh : Fs) (cwd imagePath : Chars) (filesystem : Filesystem) (sizeBytes : ℕ) :
    Script Fs Unit := do
  call env (.mkdir (dirname imagePath)) id
  call env (.writeFile imagePath) (·.setImage (resolve cwd imagePath) (some none))
  call env (.truncate imagePath sizeBytes) id
  run env (.format filesystem imagePath)
    (·.setImage (resolve cwd imagePath) (some (some fresh)))

/-- `withMount`. -/
def withMount (emptied : Fs → Fs) (cwd imagePath : Chars) (fn : Chars → EStateM Thrown Fs α)
    (mountOptions : Option String) : Script Fs α := do
  let location := resolve cwd imagePath
  call env (.mkdir mountRoot) id
  let mountDir ← mkdtemp env
  let loopDevice ← losetup env cwd imagePath
  try
    mount env mountOptions location loopDevice mountDir
    try
      run env (.chmod mountDir) id
      inside location (fn mountDir)
    finally
      run env (.umount mountDir) (·.umount mountDir)
  finally
    run env (.detach loopDevice) (·.detach loopDevice)
    rmMountDir env emptied location mountDir

end Scripts

/-! ### How the steps end -/

section Steps

variable {env : Environment} {host : Host Fs} {P : Except Thrown Unit → Host Fs → Prop}

lemma ends_run {command : Command} {effect : Host Fs → Host Fs} :
    Ends (run env command effect) host P ↔
      (∀ failure, env.fails command host.time = some failure →
        P (.error (failure.thrown command)) host.tick) ∧
      (env.fails command host.time = none → P (.ok ()) (effect host.tick)) := by
  cases h : env.fails command host.time with
  | none =>
      have hrun : run env command effect host = .ok () (effect host.tick) := by rw [run, h]
      simp [ends_of_ok hrun]
  | some failure =>
      have hrun : run env command effect host = .error (failure.thrown command) host.tick := by
        rw [run, h]
      simp [ends_of_error hrun]

lemma ends_call {fileCall : FileCall} {effect : Host Fs → Host Fs} :
    Ends (call env fileCall effect) host P ↔
      (∀ thrown, env.throws fileCall host.time = some thrown → P (.error thrown) host.tick) ∧
      (env.throws fileCall host.time = none → P (.ok ()) (effect host.tick)) := by
  cases h : env.throws fileCall host.time with
  | none =>
      have hcall : call env fileCall effect host = .ok () (effect host.tick) := by rw [call, h]
      simp [ends_of_ok hcall]
  | some thrown =>
      have hcall : call env fileCall effect host = .error thrown host.tick := by rw [call, h]
      simp [ends_of_error hcall]

end Steps

end Image

end CrashFuzz
