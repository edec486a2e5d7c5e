import CrashFuzz.Lib.Replace
import CrashFuzz.Lib.Words
import CrashFuzz.Oracle.Dedup

/-!
The texts of a packaged finding (`writeReproducer` in
`core/src/oracle/reproducer.ts`).

* `escapeForDoubleQuotedShell`: what bash reads between the double quotes is
  the build command again (`readDoubleQuoted_escape`).
* `runScript`, `readme`: the two templates and their placeholders.
* `templates_filled_iff`: they are filled with exactly the values when no value
  holds a later placeholder and the claim no dollar sequence.
-/

namespace CrashFuzz

open Replace

/-! ### Between double quotes -/

/-- The characters that `escapeForDoubleQuotedShell` escapes. -/
def isEscaped (c : Char) : Bool := c = '\\' || c = '"' || c = '`'

/-- `escapeForDoubleQuotedShell`: a backslash before every backslash, double
quote and backtick. -/
def escapeForDoubleQuotedShell (value : String) : String :=
  String.ofList (value.toList.flatMap fun c => if isEscaped c then ['\\', c] else [c])

/-- What bash reads after an opening double quote, and what follows the closing
one. None: a substitution begins, or the quotes are not closed. -/
def readDoubleQuoted : List Char → Option (List Char × List Char)
  | '"' :: rest => some ([], rest)
  | '`' :: _ | '$' :: _ => none
  | '\\' :: '\n' :: rest => readDoubleQuoted rest
  | '\\' :: c :: rest =>
      -- Only before these the backslash is removed.
      if c = '$' ∨ c = '`' ∨ c = '"' ∨ c = '\\' then
        (readDoubleQuoted rest).map fun found => (c :: found.1, found.2)
      else (readDoubleQuoted (c :: rest)).map fun found => ('\\' :: found.1, found.2)
  | c :: rest => (readDoubleQuoted rest).map fun found => (c :: found.1, found.2)
  | [] => none

/-- A build command without `$` is read back, up to the closing quote. -/
theorem readDoubleQuoted_escape {value : String} (h : '$' ∉ value.toList) (rest : List Char) :
    readDoubleQuoted ((escapeForDoubleQuotedShell value).toList ++ '"' :: rest) =
      some (value.toList, rest) := by
  rw [escapeForDoubleQuotedShell, String.toList_ofList]
  generalize value.toList = text at h ⊢
  induction text with
  | nil => rw [List.flatMap_nil, List.nil_append, readDoubleQuoted]
  | cons c text ih =>
      have hc : c ≠ '$' := (List.ne_of_not_mem_cons h).symm
      have ih := ih (List.not_mem_of_not_mem_cons h)
      rw [List.flatMap_cons]
      by_cases hesc : isEscaped c = true
      · have hspecial : c = '$' ∨ c = '`' ∨ c = '"' ∨ c = '\\' := by
          simp [isEscaped] at hesc
          tauto
        have hline : c ≠ '\n' := by
          rintro rfl
          cases hesc
        rw [if_pos hesc, List.cons_append, List.singleton_append, List.cons_append,
          List.cons_append, readDoubleQuoted, if_pos hspecial, ih, Option.map_some]
        simpa using hline
      · simp only [isEscaped, Bool.or_eq_true, decide_eq_true_eq, not_or] at hesc
        obtain ⟨⟨hslash, hquote⟩, htick⟩ := hesc
        rw [if_neg (by simp [isEscaped, hslash, hquote, htick]), List.singleton_append,
          List.cons_append, readDoubleQuoted, ih, Option.map_some]
        all_goals simp_all

/-- A command with a quote, a backtick and a backslash at its end. -/
theorem readDoubleQuoted_escape_make :
    readDoubleQuoted ((escapeForDoubleQuotedShell "make \"a`b\"\\").toList ++ ['"', '\n']) =
      some ("make \"a`b\"\\".toList, ['\n']) :=
  readDoubleQuoted_escape (by decide) ['\n']

/-! ### The templates -/

/-- `RUN_SCRIPT` up to the query command. -/
def runHead : String := "#!/usr/bin/env bash
# Replays one crash image through the target's own recovery.
#
# Needs Linux, root for the loop device, and the environment this project's
# Requirements section documents: a Rust toolchain and /var/lib/crashfuzz
# writable (vm/lima.yaml provisions both). Builds the query tool itself if
# it is not already there:
#
#   CRASHFUZZ_REPO=/path/to/crashfuzz bash run.sh
#
# Nothing in this script enumerates or materializes anything. It mounts the
# image that shipped with the finding and asks the target what it can read.
set -euo pipefail

here=\"$(cd \"$(dirname \"$\x7bBASH_SOURCE[0]\x7d\")\" && pwd)\"
repo=\"$\x7bCRASHFUZZ_REPO:-$here/../../..\x7d\"

# The query tool for the target this finding came from. Substituted when the
# artifact was written, because asking a different target reports a confident
# and false observation rather than failing visibly.
query=("

/-- From the query command to the build command. -/
def runBuild : String := ")
build=\""

/-- From the build command to the slash before the database name. -/
def runBody : String := "\"

# A fresh clone has no build of the query tool at the path above. Build it
# rather than fail: the \"reproduces on a machine you have not touched\" gate
# means this artifact, not an already-built binary, is what has to be enough.
if [[ -n \"$build\" ]] && [[ ! -x \"$\x7bquery[0]\x7d\" ]]; then
  echo \"query tool not found at $\x7bquery[0]\x7d, building it: $build\" >&2
  eval \"$build\"
fi

mnt=\"$(mktemp -d)\"
loop=\"$(sudo losetup --find --show \"$here/state.img\")\"
cleanup() \x7b
  sudo umount \"$mnt\" 2>/dev/null || true
  sudo losetup --detach \"$loop\" 2>/dev/null || true
  rmdir \"$mnt\" 2>/dev/null || true
\x7d
trap cleanup EXIT

sudo mount \"$loop\" \"$mnt\"
sudo chmod 0777 \"$mnt\"

echo \"--- expected ---\"
sed -n 's/^  //p' \"$here/finding.json\" | grep -E '\"(key|expected|actual|violationClass)\"'
echo \"--- observed now ---\"
\"$\x7bquery[@]\x7d\" \"$mnt"

/-- What follows the database name. -/
def runTail : String := "\"
"

/-- `RUN_SCRIPT` around a query command, a build command and a database name. -/
def runScriptWith (query build db : String) : String :=
  runHead ++ query ++ runBuild ++ build ++ runBody ++ "/" ++ db ++ runTail

/-- `README` up to the filesystem. -/
def readmeHead : String := "# Crash-consistency finding

Generated by crashfuzz. Everything needed to see the behavior is in this
directory; nothing here re-runs the enumeration.

| File | What it is |
|---|---|
| `state.img` | The crash image, a real "

/-- From the filesystem to the claim. -/
def readmeBody : String := " filesystem. Mount it and look. |
| `trace-prefix.jsonl` | The target's own syscalls up to the crash point, and nothing after. |
| `finding.json` | The violation class, the key, what was expected and what came back. |
| `run.sh` | Mounts the image and asks the target what it can read. |

## Running it

```bash
CRASHFUZZ_REPO=/path/to/crashfuzz bash run.sh
```

Requires Linux, a loop device, sudo for the mount, and the environment this
project's Requirements section documents (a Rust toolchain, /var/lib/crashfuzz
writable — `vm/lima.yaml` provisions both). If the query tool this finding
was built against is not already there, the script builds it first.

## What the finding claims

"

/-- What follows the claim. -/
def readmeTail : String := "

The workload acknowledged this operation as durable before the crash point, at
the settings recorded in `finding.json`. The image is one of the states the
persistence model in `docs/model.md` says the filesystem could have been left
in by a crash at that point.
"

/-- `README` around a filesystem and a claim. -/
def readmeWith (filesystem claim : String) : String :=
  readmeHead ++ filesystem ++ readmeBody ++ claim ++ readmeTail

def queryPlaceholder : String := "__QUERY_COMMAND__"

def buildPlaceholder : String := "__BUILD_COMMAND__"

def dbPlaceholder : String := "__DB_NAME__"

def filesystemPlaceholder : String := "__FILESYSTEM__"

def claimPlaceholder : String := "__CLAIM__"

/-- `RUN_SCRIPT`. -/
def runScriptTemplate : String :=
  runScriptWith queryPlaceholder buildPlaceholder dbPlaceholder

/-- `README`. -/
def readmeTemplate : String := readmeWith filesystemPlaceholder claimPlaceholder

/-! ### `writeReproducer` -/

/-- `text.replace(placeholder, () => value)`: the value as it is. -/
def replaceByFunction (text placeholder value : String) : String :=
  String.ofList (replaceFirst placeholder.toList (fun _ _ => value.toList) text.toList)

/-- `text.replace(placeholder, value)`: dollar sequences of the value count. -/
def replaceByString (text placeholder value : String) : String :=
  String.ofList (replaceFirst placeholder.toList
    (fun before after => expand placeholder.toList before after value.toList) text.toList)

/-- The `ReproducerOptions` that the two templates take. `Filesystem` has three
values; the code below would take any. -/
structure ReproducerOptions where
  /-- Database file name inside the image. -/
  dbName : String
  filesystem : String
  queryCommand : String
  buildCommand : Option String

/-- What `run.sh` builds the query tool with, as it stands between the quotes. -/
def ReproducerOptions.build (options : ReproducerOptions) : String :=
  escapeForDoubleQuotedShell (options.buildCommand.getD "")

/-- The `run.sh` of an artifact. -/
def runScript (options : ReproducerOptions) : String :=
  replaceByFunction
    (replaceByFunction
      (replaceByFunction runScriptTemplate queryPlaceholder options.queryCommand)
      buildPlaceholder options.build)
    dbPlaceholder options.dbName

/-- What the finding claims. -/
def claimText (violation : Violation) : String :=
  if violation.violationClass = .lostAcked then
    "Key `" ++ violation.key ++ "` should read back with digest `" ++ violation.expected ++
      "` and instead reads `" ++ violation.actual ++ "`."
  else violation.violationClass.text ++ ": " ++ violation.actual

/-- The `README.md` of an artifact. -/
def readme (violation : Violation) (options : ReproducerOptions) : String :=
  replaceByString
    (replaceByString readmeTemplate filesystemPlaceholder options.filesystem)
    claimPlaceholder (claimText violation)

/-! ### Text between placeholders -/

/-- The letters of a placeholder. -/
def isLabel (c : Char) : Bool := c.isUpper || c == '_'

/-- The text has no two underscores in a row, and no letter of a placeholder at
either end. -/
def isBetween (text : List Char) : Bool :=
  (findFirst ['_', '_'] text).isNone && text.head?.any (!isLabel ·) &&
    text.getLast?.any (!isLabel ·)

/-- A placeholder begins with two underscores. -/
def isPlaceholder (pat : List Char) : Bool := ['_', '_'].isPrefixOf pat && pat.all isLabel

/-- What is seen of the characters of a literal. -/
lemma isBetween_ofList {text : List Char} (h : isBetween text = true) :
    isBetween (String.ofList text).toList = true := by
  rwa [String.toList_ofList]

lemma separates_of_isBetween {pat text : List Char} (hpat : isPlaceholder pat = true)
    (h : isBetween text = true) : Separates pat text := by
  simp only [isPlaceholder, Bool.and_eq_true, List.isPrefixOf_iff_prefix, List.all_eq_true]
    at hpat
  simp only [isBetween, Bool.and_eq_true, Option.isNone_iff_eq_none, findFirst_eq_none_iff,
    Option.any_eq_true, Bool.not_eq_true'] at h
  obtain ⟨⟨habsent, c, hc, hclabel⟩, d, hd, hdlabel⟩ := h
  refine ⟨fun hin => habsent (hpat.1.isInfix.trans hin), ⟨c, hc, fun hmem => ?_⟩,
    ⟨d, hd, fun hmem => ?_⟩⟩
  · exact absurd (hpat.2 c hmem) (by simp [hclabel])
  · exact absurd (hpat.2 d hmem) (by simp [hdlabel])

set_option maxRecDepth 10000 in
lemma runHead_between : isBetween runHead.toList = true :=
  isBetween_ofList (by decide +kernel)

lemma runBuild_between : isBetween runBuild.toList = true :=
  isBetween_ofList (by decide +kernel)

set_option maxRecDepth 10000 in
lemma runBody_between : isBetween runBody.toList = true :=
  isBetween_ofList (by decide +kernel)

set_option maxRecDepth 10000 in
lemma readmeHead_between : isBetween readmeHead.toList = true :=
  isBetween_ofList (by decide +kernel)

set_option maxRecDepth 10000 in
lemma readmeBody_between : isBetween readmeBody.toList = true :=
  isBetween_ofList (by decide +kernel)

/-- What is seen of the first character of a literal. -/
lemma beginsPlain_ofList {c : Char} {text : List Char} (hc : c ≠ '$') :
    BeginsPlain (String.ofList (c :: text)).toList :=
  ⟨c, text, String.toList_ofList, hc⟩

set_option maxRecDepth 10000 in
lemma readmeHead_plain : BeginsPlain readmeHead.toList := beginsPlain_ofList (by decide)

set_option maxRecDepth 10000 in
lemma readmeBody_plain : BeginsPlain readmeBody.toList := beginsPlain_ofList (by decide)

set_option maxRecDepth 10000 in
lemma readmeTail_plain : BeginsPlain readmeTail.toList := beginsPlain_ofList (by decide)

/-! ### Two placeholders and dollar sequences -/

section Readme

variable {fp cp A B C fs cl : List Char}

/-- The first placeholder is replaced. -/
lemma replaceFirst_placeholder {value : List Char → List Char → List Char}
    (hA : Separates fp A) (hfp : fp ≠ []) (y : List Char) :
    replaceFirst fp value (A ++ (fp ++ y)) = A ++ (value A y ++ y) := by
  rw [replaceFirst, hA.findFirst_pat hfp]
  exact List.append_assoc _ _ _

/-- Both placeholders are replaced by exactly their values when the first value
has no dollar sequence and not the second placeholder, and the second value has
no dollar sequence. -/
lemma replaced_twice_iff (hA : Separates fp A) (hA' : Separates cp A) (hB : Separates cp B)
    (hfp : ∃ l, fp = '_' :: l) (hcp : ∃ l, cp = '_' :: l) (hAhead : BeginsPlain A)
    (hBhead : BeginsPlain B) (hChead : BeginsPlain C)
    (hcl : ∃ h l, cl = h :: l ∧ h ≠ '_' ∧ h ≠ '$') :
    replaceFirst cp (fun before after => expand cp before after cl)
        (replaceFirst fp (fun before after => expand fp before after fs)
          (A ++ (fp ++ (B ++ (cp ++ C))))) = A ++ (fs ++ (B ++ (cl ++ C))) ↔
      hasSequence fs = false ∧ ¬ cp <:+: fs ∧ hasSequence cl = false := by
  obtain ⟨fp', rfl⟩ := hfp
  obtain ⟨cp', rfl⟩ := hcp
  obtain ⟨h, cl', rfl, hh, hhd⟩ := hcl
  have hplain : ∀ l : List Char, BeginsPlain ('_' :: l) := fun l => ⟨'_', l, rfl, by decide⟩
  rw [replaceFirst_placeholder hA (List.cons_ne_nil _ _)]
  by_cases hseq : hasSequence fs = true
  · -- The text parts from the filled one at a dollar, wherever the claim goes.
    have hparts := (expand_parts (t := B ++ (h :: cl' ++ C)) (hplain fp') hAhead
      (hBhead.append ('_' :: cp' ++ C)) (hBhead.append ('_' :: cp' ++ C)) hseq).append_left A
    refine iff_of_false (fun heq => ?_) fun hfit => by simp [hseq] at hfit
    obtain ⟨⟨before, after⟩, hfound⟩ : ∃ found, findFirst ('_' :: cp')
        (A ++ (expand ('_' :: fp') A (B ++ ('_' :: cp' ++ C)) fs ++ (B ++ ('_' :: cp' ++ C)))) =
          some found := by
      refine Option.ne_none_iff_exists'.mp fun hnone => findFirst_eq_none_iff.mp hnone ?_
      exact ⟨A ++ (expand ('_' :: fp') A (B ++ ('_' :: cp' ++ C)) fs ++ B), C, by simp⟩
    rw [eq_append_of_findFirst hfound, List.append_assoc before] at hparts
    rw [replaceFirst, hfound] at heq
    simp only [expand_cons hhd, List.append_assoc, List.cons_append] at heq hparts
    exact hparts.ne_of_replaced hh hhd heq
  · have hexpand : expand ('_' :: fp') A (B ++ ('_' :: cp' ++ C)) fs = fs :=
      expand_of_not_hasSequence (by simpa using hseq)
    rw [hexpand, replaceFirst, hA'.findFirst_left (List.cons_ne_nil _ _),
      hB.findFirst_append (List.cons_ne_nil _ _), findFirst_append_self]
    cases hfound : findFirst ('_' :: cp') fs with
    | some found =>
        -- The first claim placeholder is one of the filesystem's own.
        obtain ⟨before, after⟩ := found
        have hfs := eq_append_of_findFirst hfound
        refine iff_of_false (fun heq => hh ?_) fun hfit => hfit.2.1 ⟨before, after, hfs.symm⟩
        rw [hfs] at heq
        simp only [Option.map_some, expand_cons hhd, List.append_assoc, List.cons_append,
          List.append_cancel_left_eq, List.cons.injEq] at heq
        exact heq.1
    | none =>
        have hnot := findFirst_eq_none_iff.mp hfound
        simp only [Option.map_some, List.append_nil, List.append_assoc,
          List.append_cancel_left_eq]
        by_cases hclaim : hasSequence (h :: cl') = true
        · refine iff_of_false (fun heq => ?_) fun hfit => by simp [hclaim] at hfit
          exact (expand_parts (hplain cp') (hAhead.append (fs ++ B)) hChead hChead hclaim).ne heq
        · rw [expand_of_not_hasSequence (by simpa using hclaim)]
          simp_all

end Readme

/-! ### Three placeholders in turn -/

/-- Every double quote of the text comes after a backslash. -/
def QuotesEscaped (text : List Char) : Prop :=
  ∀ l r, text = l ++ '"' :: r → l.getLast? = some '\\'

namespace QuotesEscaped

variable {x y : List Char}

lemma append (hx : QuotesEscaped x) (hy : QuotesEscaped y) : QuotesEscaped (x ++ y) := by
  intro l r h
  rcases List.append_eq_append_iff.mp h with ⟨m, rfl, hm⟩ | ⟨m, rfl, hm⟩
  · rw [List.getLast?_append, hy m r hm, Option.some_or]
  · cases m with
    | nil => exact absurd (hy [] r (by simpa using hm.symm)) (by simp)
    | cons c m =>
        obtain ⟨rfl, -⟩ := List.cons.inj hm
        exact hx l m rfl

lemma of_append (h : QuotesEscaped (x ++ y)) : QuotesEscaped x :=
  fun l r hx => h l (r ++ y) (by rw [hx, List.append_assoc, List.cons_append])

lemma of_not_mem (h : '"' ∉ x) : QuotesEscaped x :=
  fun l _ hx => absurd (hx ▸ List.mem_append_right l List.mem_cons_self) h

/-- The backslash of the first quote is not in a text without one before it. -/
lemma of_append_left (h : QuotesEscaped (x ++ y)) (hx : '\\' ∉ x) : QuotesEscaped y := by
  intro l r hy
  have hlast := h (x ++ l) r (by rw [hy, List.append_assoc])
  rw [List.getLast?_append] at hlast
  cases hl : l.getLast? with
  | some c => simpa [hl] using hlast
  | none =>
      rw [hl, Option.none_or] at hlast
      exact absurd (List.mem_of_getLast? hlast) hx

/-- An escaped build command. -/
lemma build (options : ReproducerOptions) : QuotesEscaped options.build.toList := by
  rw [ReproducerOptions.build, escapeForDoubleQuotedShell, String.toList_ofList]
  induction (options.buildCommand.getD "").toList with
  | nil => exact of_not_mem (by simp)
  | cons c text ih =>
      rw [List.flatMap_cons]
      refine append ?_ ih
      split
      · intro l r h
        rcases l with _ | ⟨a, _ | ⟨b, l⟩⟩
        · cases h
        · cases h
          rfl
        · simp at h
      · rename_i hc
        refine of_not_mem ?_
        rw [List.mem_singleton]
        rintro rfl
        exact hc rfl

end QuotesEscaped

section RunScript

variable {q b bp dp A1 A2 : List Char}

/-- Two words change places around a text with a quote that is not escaped
only when they are the same. -/
lemma eq_of_exchange {W : List Char} (hW : ∀ z, ¬ QuotesEscaped (W ++ z))
    (hb : QuotesEscaped b) (hquote : '"' ∉ bp) (hslash : '\\' ∉ bp)
    (h : b ++ (W ++ bp) = bp ++ (W ++ b)) : b = bp := by
  rcases List.append_eq_append_iff.mp h with ⟨u, hbp, hu⟩ | ⟨u, hbu, hu⟩
  · by_cases hne : u = []
    · rw [hbp, hne, List.append_nil]
    · -- The rest of the placeholder commutes with what is around it.
      refine absurd ?_ (hW b)
      refine of_commute QuotesEscaped.append QuotesEscaped.of_append hne
        (QuotesEscaped.of_not_mem fun hmem => hquote (hbp ▸ List.mem_append_right b hmem)) ?_
      rw [← hu, hbp, List.append_assoc]
  · by_cases hne : u = []
    · rw [hbu, hne, List.append_nil]
    · -- The rest of the escaped command does.
      refine absurd ?_ (hW bp)
      refine of_commute QuotesEscaped.append QuotesEscaped.of_append hne
        ((hbu ▸ hb).of_append_left hslash) ?_
      rw [← hu, hbu, List.append_assoc]

/-- The text before the slash is the filled one when the query command does not
hold the build placeholder, or the build command is that. -/
lemma replace_build (hA1 : Separates bp A1) (hA2 : Separates bp A2) (hbp : bp ≠ [])
    (hW : ∀ y z, ¬ QuotesEscaped (y ++ A2 ++ z)) (hb : QuotesEscaped b) (hquote : '"' ∉ bp)
    (hslash : '\\' ∉ bp) (A3 rest : List Char) :
    ∃ S, replaceFirst bp (fun _ _ => b) (A1 ++ (q ++ (A2 ++ (bp ++ (A3 ++ rest))))) =
        S ++ rest ∧
      (S = A1 ++ (q ++ (A2 ++ (b ++ A3))) ↔ ¬ bp <:+: q ∨ b = bp) := by
  rw [replaceFirst, hA1.findFirst_left hbp, hA2.findFirst_append hbp, findFirst_append_self]
  cases hfound : findFirst bp q with
  | none =>
      refine ⟨A1 ++ (q ++ (A2 ++ (b ++ A3))), by simp, ?_⟩
      exact iff_of_true rfl (.inl (findFirst_eq_none_iff.mp hfound))
  | some found =>
      obtain ⟨x, y⟩ := found
      obtain rfl := eq_append_of_findFirst hfound
      refine ⟨A1 ++ (x ++ (b ++ (y ++ (A2 ++ (bp ++ A3))))), by simp, ?_⟩
      constructor
      · intro h
        simp only [List.append_assoc, List.append_cancel_left_eq] at h
        simp only [← List.append_assoc, List.append_cancel_right_eq] at h
        refine .inr (eq_of_exchange (W := y ++ A2) (hW y) hb hquote hslash ?_)
        simpa only [List.append_assoc] using h
      · rintro (hnot | rfl)
        · exact absurd ⟨x, y, rfl⟩ hnot
        · simp

/-- The last placeholder, after a slash. -/
lemma replace_db (S S' d A4 : List Char) (hslash : '/' ∉ dp) (hdp : dp ≠ []) :
    ((S = S' ∧ (¬ dp <:+: S' ∨ d = dp)) →
      replaceFirst dp (fun _ _ => d) (S ++ '/' :: (dp ++ A4)) = S' ++ '/' :: (d ++ A4)) ∧
    ('/' ∉ d →
      replaceFirst dp (fun _ _ => d) (S ++ '/' :: (dp ++ A4)) = S' ++ '/' :: (d ++ A4) →
      S = S' ∧ (¬ dp <:+: S' ∨ d = dp)) := by
  rw [replaceFirst, findFirst_append_sep hslash hdp, findFirst_append_self]
  cases hfound : findFirst dp S with
  | none =>
      refine ⟨?_, fun hd h => ?_⟩
      · rintro ⟨rfl, -⟩
        simp
      · have hS : S = S' := by
          simpa using h
        exact ⟨hS, .inl (hS ▸ findFirst_eq_none_iff.mp hfound)⟩
  | some found =>
      obtain ⟨x, y⟩ := found
      obtain rfl := eq_append_of_findFirst hfound
      have hin : dp <:+: x ++ dp ++ y := ⟨x, y, rfl⟩
      refine ⟨?_, fun hd h => ?_⟩
      · rintro ⟨rfl, hnot | rfl⟩
        · exact absurd hin hnot
        · simp
      · -- The last slash of the two texts.
        have hcut : ((x ++ d ++ y) ++ '/' :: dp) ++ A4 = (S' ++ '/' :: d) ++ A4 := by
          simpa using h
        obtain ⟨hS, rfl⟩ :=
          Words.append_sep_inj_last hslash hd (List.append_cancel_right hcut)
        exact ⟨hS, .inr rfl⟩

end RunScript

/-! ### When the templates are filled -/

/-- Placeholders of the templates. -/
lemma isPlaceholder_templates :
    ∀ pat ∈ [queryPlaceholder, buildPlaceholder, dbPlaceholder, filesystemPlaceholder,
      claimPlaceholder], isPlaceholder pat.toList = true := by
  decide

lemma runBuild_toList : runBuild.toList = [')', '\n', 'b', 'u', 'i', 'l', 'd'] ++ ['=', '"'] := by
  decide

/-- The quote before the build command is not escaped. -/
lemma not_quotesEscaped_runBuild (y z : List Char) :
    ¬ QuotesEscaped (y ++ runBuild.toList ++ z) := by
  intro h
  have hlast := h (y ++ [')', '\n', 'b', 'u', 'i', 'l', 'd', '=']) z (by simp [runBuild_toList])
  simp at hlast

lemma runScriptWith_toList (query build db : String) :
    (runScriptWith query build db).toList =
      runHead.toList ++ (query.toList ++ (runBuild.toList ++ (build.toList ++
        (runBody.toList ++ '/' :: (db.toList ++ runTail.toList))))) := by
  have hslash : ("/" : String).toList = ['/'] := by decide
  simp only [runScriptWith, String.toList_append, hslash, List.append_assoc,
    List.cons_append, List.nil_append]

lemma readmeWith_toList (filesystem claim : String) :
    (readmeWith filesystem claim).toList =
      readmeHead.toList ++ (filesystem.toList ++ (readmeBody.toList ++ (claim.toList ++
        readmeTail.toList))) := by
  simp only [readmeWith, String.toList_append, List.append_assoc]

/-- No value of the README has a dollar sequence, and the filesystem is not
taken for the claim. -/
structure ReadmeFits (violation : Violation) (options : ReproducerOptions) : Prop where
  filesystem : hasSequence options.filesystem.toList = false
  noClaim : ¬ claimPlaceholder.toList <:+: options.filesystem.toList
  claim : hasSequence (claimText violation).toList = false

/-- No value of the script holds a placeholder that is looked for after it, but
one that is replaced by itself. -/
structure RunScriptFits (options : ReproducerOptions) : Prop where
  build : ¬ buildPlaceholder.toList <:+: options.queryCommand.toList ∨
    options.build = buildPlaceholder
  db : (¬ dbPlaceholder.toList <:+: options.queryCommand.toList ∧
      ¬ dbPlaceholder.toList <:+: options.build.toList) ∨
    options.dbName = dbPlaceholder

variable (violation : Violation) (options : ReproducerOptions)

/-- A claim begins with a word of its own. -/
lemma claimText_head :
    ∃ h l, (claimText violation).toList = h :: l ∧ h ≠ '_' ∧ h ≠ '$' := by
  obtain ⟨violationClass, _, _, key, expected, actual⟩ := violation
  cases violationClass <;>
    simp [claimText, ViolationClass.text, String.toList_append]

lemma readme_eq_iff :
    readme violation options = readmeWith options.filesystem (claimText violation) ↔
      ReadmeFits violation options := by
  have hpat := isPlaceholder_templates
  have hfp := hpat filesystemPlaceholder (by simp)
  have hcp := hpat claimPlaceholder (by simp)
  rw [← String.toList_inj, readme, replaceByString, replaceByString, String.toList_ofList,
    String.toList_ofList, readmeTemplate, readmeWith_toList, readmeWith_toList,
    replaced_twice_iff (separates_of_isBetween hfp readmeHead_between)
      (separates_of_isBetween hcp readmeHead_between)
      (separates_of_isBetween hcp readmeBody_between) ⟨_, rfl⟩ ⟨_, rfl⟩ readmeHead_plain
      readmeBody_plain readmeTail_plain (claimText_head violation)]
  exact ⟨fun h => ⟨h.1, h.2.1, h.2.2⟩, fun h => ⟨h.filesystem, h.noClaim, h.claim⟩⟩

/-- What is looked for last is looked for in the filled text before it. -/
lemma dbPlaceholder_infix_iff (query build : List Char) :
    dbPlaceholder.toList <:+: runHead.toList ++ (query ++ (runBuild.toList ++ (build ++
        runBody.toList))) ↔
      dbPlaceholder.toList <:+: query ∨ dbPlaceholder.toList <:+: build := by
  have hdb := isPlaceholder_templates dbPlaceholder (by simp)
  have hne : dbPlaceholder.toList ≠ [] := by decide
  have hhead := separates_of_isBetween hdb runHead_between
  have hbuild := separates_of_isBetween hdb runBuild_between
  have hbody := separates_of_isBetween hdb runBody_between
  have hnil : ¬ dbPlaceholder.toList <:+: [] := by simpa using hne
  have hcut := hbody.infix_append_iff (x := build) (y := []) hne
  rw [List.append_nil] at hcut
  have hcut' := hhead.infix_append_iff (x := [])
    (y := query ++ (runBuild.toList ++ (build ++ runBody.toList))) hne
  rw [List.nil_append] at hcut'
  rw [hcut', hbuild.infix_append_iff hne, hcut]
  simp [hnil]

/-- The script with its first placeholder replaced, and then its second. -/
lemma runScript_eq_replaceFirst :
    ∃ S, (runScript options).toList = replaceFirst dbPlaceholder.toList
        (fun _ _ => options.dbName.toList)
        (S ++ '/' :: (dbPlaceholder.toList ++ runTail.toList)) ∧
      (S = runHead.toList ++ (options.queryCommand.toList ++ (runBuild.toList ++
          (options.build.toList ++ runBody.toList))) ↔
        ¬ buildPlaceholder.toList <:+: options.queryCommand.toList ∨
          options.build.toList = buildPlaceholder.toList) := by
  have hquery := isPlaceholder_templates queryPlaceholder (by simp)
  have hbuild := isPlaceholder_templates buildPlaceholder (by simp)
  obtain ⟨S, hS, hiff⟩ := replace_build (q := options.queryCommand.toList)
    (separates_of_isBetween hbuild runHead_between)
    (separates_of_isBetween hbuild runBuild_between) (by decide) not_quotesEscaped_runBuild
    (QuotesEscaped.build options) (by decide) (by decide) runBody.toList
    ('/' :: (dbPlaceholder.toList ++ runTail.toList))
  refine ⟨S, ?_, hiff⟩
  rw [runScript, replaceByFunction, replaceByFunction, replaceByFunction, String.toList_ofList,
    String.toList_ofList, String.toList_ofList, runScriptTemplate, runScriptWith_toList,
    replaceFirst_placeholder (separates_of_isBetween hquery runHead_between) (by decide), hS]

/-- The templates are filled with exactly the values if and only if these fit.
A database name is a file name; with a slash in it a name may contain parts of
the script and put together again what the search took apart. -/
theorem templates_filled_iff :
    (readme violation options = readmeWith options.filesystem (claimText violation) ↔
      ReadmeFits violation options) ∧
    (RunScriptFits options →
      runScript options = runScriptWith options.queryCommand options.build options.dbName) ∧
    ('/' ∉ options.dbName.toList →
      runScript options = runScriptWith options.queryCommand options.build options.dbName →
        RunScriptFits options) := by
  obtain ⟨S, hrun, hS⟩ := runScript_eq_replaceFirst options
  have hslash : '/' ∉ dbPlaceholder.toList := by decide
  have hdb := replace_db S (runHead.toList ++ (options.queryCommand.toList ++
    (runBuild.toList ++ (options.build.toList ++ runBody.toList)))) options.dbName.toList
    runTail.toList hslash (by decide)
  rw [hS, dbPlaceholder_infix_iff, ← hrun, not_or, String.toList_inj, String.toList_inj] at hdb
  have hwith : (runScriptWith options.queryCommand options.build options.dbName).toList =
      runHead.toList ++ (options.queryCommand.toList ++ (runBuild.toList ++
        (options.build.toList ++ runBody.toList))) ++
        '/' :: (options.dbName.toList ++ runTail.toList) := by
    rw [runScriptWith_toList]
    simp only [List.append_assoc]
  rw [← hwith, String.toList_inj] at hdb
  refine ⟨readme_eq_iff violation options, fun hfits => ?_, fun hname hfilled => ?_⟩
  · exact hdb.1 ⟨hfits.build, hfits.db⟩
  · obtain ⟨hbuild, hdb'⟩ := hdb.2 hname hfilled
    exact ⟨hbuild, hdb'⟩

/-- A target that gives up with a dollar in its last words. -/
def gaveUp : Violation where
  violationClass := .recoveryFailed
  crashStamp := 7
  op := none
  key := ""
  expected := ""
  actual := "cost $& at page 7"

def ext4Kv : ReproducerOptions where
  dbName := "kv.db"
  filesystem := "ext4"
  queryCommand := "$repo/target/release/query"
  buildCommand := none

/-- The README then says `cost __CLAIM__ at page 7`. -/
theorem gaveUp_not_filled :
    readme gaveUp ext4Kv ≠ readmeWith ext4Kv.filesystem (claimText gaveUp) := by
  intro h
  have hfits := (readme_eq_iff gaveUp ext4Kv).mp h
  have hdollar : hasSequence (claimText gaveUp).toList = true := by decide
  rw [hfits.claim] at hdollar
  exact absurd hdollar (by decide)

end CrashFuzz
