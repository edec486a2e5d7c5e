import CrashFuzz.Enumerate.Contents
import CrashFuzz.Lib.OrderedMap
import CrashFuzz.Oracle.Oracle

/-!
Recovery of the unsafe key-value store (`core/src/oracle/recover.ts`): a value
is whatever file bears its name.

* `recoverFileKv`: the digest of every file in a directory that is no scratch
  file and not the marker file.
* `get?_recovered`: what it reads back for a key.
-/

namespace CrashFuzz

open PosixPath FileTree

variable (sha256 : List UInt8 → String) (disk : Disk) (dir : List Chars)

/-- The protocol's scratch files and the harness's own channel. -/
def isScratch (name : Chars) : Bool :=
  ".tmp".toList.isSuffixOf name || name = "crashfuzz.marker".toList

/-- The loop of `recoverFileKv`. What is no file is passed over. -/
def readEntry (values : OrderedMap String String) (name : Chars) : OrderedMap String String :=
  match disk.read (dir ++ [name]) with
  | none => values
  | some bytes =>
      if isScratch name then values else values.set (String.ofList name) (sha256 bytes)

/-- The digest of each file by its name. -/
def recovered : OrderedMap String String :=
  (disk.list dir).foldl (readEntry sha256 disk dir) .empty

/-- `recoverFileKv`. -/
def recoverFileKv : RecoveryResult := .opened true (recovered sha256 disk dir).get? none

variable {sha256 disk dir} {values : OrderedMap String String} {name : Chars} {key : String}

/-- What the store holds for a key. -/
def heldFor (sha256 : List UInt8 → String) (disk : Disk) (dir : List Chars) (key : String) :
    Option String :=
  if isScratch key.toList then none else (disk.read (dir ++ [key.toList])).map sha256

lemma get?_readEntry : (readEntry sha256 disk dir values name).get? key =
    if key.toList = name then (heldFor sha256 disk dir key).or (values.get? key)
    else values.get? key := by
  rw [readEntry]
  by_cases hkey : key.toList = name
  · subst hkey
    rw [if_pos rfl, heldFor]
    split
    · next hread => simp [hread]
    · next bytes hread =>
        split
        · simp
        · rw [String.ofList_toList, OrderedMap.get?_set_self, hread]
          rfl
  · rw [if_neg hkey]
    split
    · rfl
    · split
      · rfl
      · refine OrderedMap.get?_set_of_ne fun heq => hkey ?_
        rw [heq, String.toList_ofList]

/-- **What is read back** for a key. -/
theorem get?_recovered : (recovered sha256 disk dir).get? key = heldFor sha256 disk dir key := by
  have hfold : ∀ (names : List Chars) (values : OrderedMap String String),
      (names.foldl (readEntry sha256 disk dir) values).get? key =
        if key.toList ∈ names then (heldFor sha256 disk dir key).or (values.get? key)
        else values.get? key := by
    intro names
    induction names with
    | nil => simp
    | cons name names ih =>
        intro values
        rw [List.foldl_cons, ih, get?_readEntry]
        by_cases hname : key.toList = name
        · -- reading it again changes nothing
          rw [if_pos hname, ← Option.or_assoc, Option.or_self, ite_self,
            if_pos (hname ▸ List.mem_cons_self)]
        · simp [hname]
  rw [recovered, hfold, OrderedMap.get?_empty, Option.or_none]
  split
  · rfl
  · next hmissing =>
      -- nothing stands at a name that is not listed
      rw [Volume.mem_list, not_not] at hmissing
      rw [heldFor, Volume.read_of_noFile fun i => by rw [hmissing]; simp]
      simp

end CrashFuzz
