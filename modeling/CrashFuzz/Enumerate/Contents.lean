import CrashFuzz.Enumerate.Materialize

/-!
The bytes of a materialized crash state.

* `Contents`: the abstract target of a replay, a map from names to bytes.
* `effect`: what one event does to it.
* `contents_applyEvent`: the file tree refines it, as long as no file has two
  names.
* `contentsTo`, `contents_replayTo`: the same for the replay of a selection of
  a trace without links.
-/

namespace CrashFuzz

open PosixPath FileTree

/-- The bytes at each name below `targetDir`. -/
abbrev Contents := List Chars → Option (List UInt8)

variable (options : ReplayOptions) (store : Store)

/-- The bytes at each name of a file tree. -/
def contents (disk : Disk) : Contents := fun r => disk.read (options.target ++ r)

/-- What one event, whose payload is cut to `bytes` when given, does to the
bytes at each name. -/
def effect (event : TraceEvent) (bytes : Option ℕ) (c : Contents) : Contents :=
  let name := below options event.path
  let name2 := below options event.path2
  let old := (c name).getD []
  let payload := (store (payloadObject options event)).getD []
  match event.call with
  | .write | .pwrite | .writev => Function.update c name
      (some (Volume.splice old event.offset.toNat (payload.take (bytes.getD payload.length))))
  | .truncate | .ftruncate => Function.update c name (some (Volume.resize old event.length))
  | .rename => Function.update (Function.update c name none) name2 (some old)
  | .link => Function.update (Function.update c name (some old)) name2 (some old)
  | .unlink => Function.update c name none
  | .mkdir | .open_ | .close | .fsync | .fdatasync | .syncFileRange => c

/-- What a selection does at one position. -/
def Selection.effectAt (selection : Selection) (trace : Trace) (index : ℕ) (c : Contents) :
    Contents :=
  if index ∉ selection.persisted ∧ selection.tornBytes index = none then c
  else
    match trace.events[index]? with
    | none => c
    | some event => effect options store event (selection.tornBytes index) c

/-- What a selection does at the first `n` positions. -/
def contentsTo (trace : Trace) (selection : Selection) (n : ℕ) : Contents :=
  (List.range n).foldl (fun c index => selection.effectAt options store trace index c)
    fun _ => none

variable {options store} {trace : Trace} {selection : Selection} {disk : Disk}
  {event : TraceEvent} {bytes : Option ℕ} {b r : List Chars}

/-! ### One event -/

lemma append_eq_append_iff : options.target ++ r = options.target ++ b ↔ r = b :=
  List.append_right_inj _

/-- Making a file is seen at its name. -/
lemma contents_ensured (hwf : disk.WF)
    (hway : ∀ q ∈ Volume.way (options.target ++ b), disk.NoFile q) :
    contents options (disk.ensured (options.target ++ b)) =
      Function.update (contents options disk) b (some ((contents options disk b).getD [])) := by
  funext r
  rw [contents, Volume.read_ensured hwf hway, Function.update_apply]
  simp only [append_eq_append_iff, contents]

/-- A change of its bytes too, when it has no other name. -/
lemma contents_edit {f : List UInt8 → List UInt8} (hsingle : Single options disk) :
    contents options (disk.edit (options.target ++ b) f) =
      Function.update (contents options disk) b ((contents options disk b).map f) := by
  funext r
  have hname : ∀ i, disk.node (options.target ++ b) = some (.file i) →
      disk.node (options.target ++ r) = some (.file i) →
        options.target ++ r = options.target ++ b := fun i hb hr =>
    append_eq_append_iff.mpr (hsingle r b i hr hb)
  rw [contents, Volume.read_edit hname, Function.update_apply]
  simp only [append_eq_append_iff, contents]

/-- A file that is made and changed. -/
lemma contents_edit_ensured {f : List UInt8 → List UInt8} (hwf : disk.WF)
    (hsingle : Single options disk) (hb : b ≠ [])
    (hway : ∀ q ∈ Volume.way (options.target ++ b), disk.NoFile q) :
    contents options ((disk.ensured (options.target ++ b)).edit (options.target ++ b) f) =
      Function.update (contents options disk) b
        (some (f ((contents options disk b).getD []))) := by
  rw [contents_edit (hsingle.ensured hwf hb hway), contents_ensured hwf hway, Function.update_self,
    Function.update_idem, Option.map_some]

/-- A file that is made and takes another name. -/
lemma contents_renamed_ensured {c : List Chars} (hwf : disk.WF) (hsingle : Single options disk)
    (hb : b ≠ []) (hway : ∀ q ∈ Volume.way (options.target ++ b), disk.NoFile q) :
    contents options ((disk.ensured (options.target ++ b)).renamed (options.target ++ b)
        (options.target ++ c)) =
      Function.update (Function.update (contents options disk) b none) c
        (some ((contents options disk b).getD [])) := by
  obtain ⟨i, hi⟩ := @exists_heldAt_ensured options disk b
  have hens := contents_ensured hwf hway
  by_cases hsame : heldAt options (disk.ensured (options.target ++ b)) c = some (.file i)
  · -- both are names of the file, so they are one name
    obtain rfl : c = b := hsingle.ensured hwf hb hway c b i hsame hi
    rw [Volume.renamed_of_same hi hsame, hens, Function.update_idem]
  · funext r
    have hread : ∀ r, (disk.ensured (options.target ++ b)).read (options.target ++ r) = _ :=
      fun r => congrFun hens r
    rw [contents, Volume.read_renamed hi hsame, hread, hread, Function.update_self]
    simp only [append_eq_append_iff]
    by_cases hrc : r = c
    · rw [if_pos hrc, hrc, Function.update_self]
    · rw [if_neg hrc, Function.update_of_ne hrc]
      by_cases hrb : r = b
      · rw [if_pos hrb, hrb, Function.update_self]
      · rw [if_neg hrb, Function.update_of_ne hrb, Function.update_of_ne hrb]

/-- A file that is made and gets another name. -/
lemma contents_linked_ensured {c : List Chars} (hwf : disk.WF)
    (hway : ∀ q ∈ Volume.way (options.target ++ b), disk.NoFile q) :
    contents options ((disk.ensured (options.target ++ b)).linked (options.target ++ b)
        (options.target ++ c)) =
      Function.update
        (Function.update (contents options disk) b (some ((contents options disk b).getD [])))
        c (some ((contents options disk b).getD [])) := by
  obtain ⟨i, hi⟩ := @exists_heldAt_ensured options disk b
  have hens := contents_ensured hwf hway
  have hold : some ((disk.ensured (options.target ++ b)).data i) =
      some ((contents options disk b).getD []) := by
    rw [← Volume.read_of_file hi]
    exact (congrFun hens b).trans (Function.update_self _ _ _)
  rw [Volume.linked_eq hi, ← hens]
  funext r
  by_cases hrc : r = c
  · rw [hrc, Function.update_self, contents, Volume.read_of_file (i := i) (by simp), ← hold]
    rfl
  · rw [Function.update_of_ne hrc]
    refine Volume.read_congr ?_ fun _ _ => rfl
    rw [Volume.node_setNode, if_neg fun heq => hrc (append_eq_append_iff.mp heq)]

/-- **The effect of one event** on the bytes at each name. -/
theorem contents_applyEvent (hwf : disk.WF) (hsingle : Single options disk)
    (hbelow : event.call ∈ mutating → OperandsBelow options event)
    (happ : Applicable options disk event) :
    contents options (applyEvent options store disk event bytes) =
      effect options store event bytes (contents options disk) := by
  have hb : event.call ∈ mutating → below options event.path ≠ [] :=
    fun h => (hbelow h).1.below_ne_nil
  rw [Applicable] at happ
  rw [applyEvent, effect]
  cases hcall : event.call with
  | write | pwrite | writev | truncate | ftruncate =>
      simp only [hcall] at happ
      exact contents_edit_ensured hwf hsingle (hb (by simp [hcall, mutating])) happ.1
  | mkdir =>
      simp only [hcall] at happ
      funext r
      exact Volume.read_addDirs happ
  | rename =>
      simp only [hcall] at happ
      exact contents_renamed_ensured hwf hsingle (hb (by simp [hcall, mutating])) happ.1.1
  | link =>
      simp only [hcall] at happ
      exact contents_linked_ensured hwf happ.1.1
  | unlink =>
      funext r
      simp only [contents, place, Volume.read_removeNode, Function.update_apply,
        append_eq_append_iff]
  | open_ | close | fsync | fdatasync | syncFileRange => rfl

/-! ### A whole replay -/

lemma effectAt_of_not_selects {index : ℕ} (h : ¬ selection.Selects index) (c : Contents) :
    selection.effectAt options store trace index c = c := by
  rw [Selection.effectAt, if_pos (skipped_iff.mpr h)]

lemma effectAt_of_selects {index : ℕ} (h : selection.Selects index)
    (hevent : trace.events[index]? = some event) (c : Contents) :
    selection.effectAt options store trace index c =
      effect options store event (selection.tornBytes index) c := by
  rw [Selection.effectAt, if_neg (mt skipped_iff.mp (not_not.mpr h)), hevent]

lemma contentsTo_succ {n : ℕ} : contentsTo options store trace selection (n + 1) =
    selection.effectAt options store trace n (contentsTo options store trace selection n) := by
  rw [contentsTo, List.range_succ, List.foldl_append, List.foldl_cons, List.foldl_nil]
  rfl

/-- **What a replay leaves** of a trace without links, whose selected events are
all applicable. -/
theorem contents_replayTo (hrun : RunBelow options store trace)
    (hempty : EmptyDir options.target disk) (hlinks : ∀ e ∈ trace.events, e.call ≠ .link)
    (happ : ∀ n e d, selection.Selects n → trace.events[n]? = some e →
      Replayed options trace.events selection.Selects n d → Applicable options d e) :
    ∀ n ≤ trace.events.length, ∀ d, replayTo options store trace selection disk n = .ok d →
      contents options d = contentsTo options store trace selection n := by
  intro n hn
  induction n with
  | zero =>
      intro d hd
      obtain rfl : disk = d := Except.ok.inj hd
      funext r
      refine Volume.read_of_noFile fun i hi => ?_
      by_cases hr : r = []
      · rw [hr, List.append_nil, hempty.dir] at hi
        cases hi
      · rw [hempty.empty r hr] at hi
        cases hi
  | succ n ih =>
      intro d hd
      obtain ⟨d₀, hd₀, hinv⟩ := exists_replayed hrun hempty happ n (by omega)
      rw [replayTo_succ, hd₀] at hd
      rw [contentsTo_succ, ← ih (by omega) d₀ hd₀]
      by_cases hsel : selection.Selects n
      · have hev := List.getElem?_eq_getElem hn
        have hmem := List.mem_of_getElem? hev
        have hsingle : Single options d₀ := hinv.single fun j _ _ e he =>
          hlinks e (List.mem_of_getElem? he)
        have hcalls : runCalls options.cwd.toList store d₀
            (applySelected options trace.events[n] (selection.tornBytes n)) = .ok d := by
          rwa [← callsAt_of_selects hsel hev]
        obtain ⟨hok, rfl⟩ := (runCalls_applySelected_iff hinv.wf (hrun.below _ hmem)
          (hrun.stored _ hmem)).mp hcalls
        rw [effectAt_of_selects hsel hev]
        exact contents_applyEvent hinv.wf hsingle (hrun.below _ hmem) hok
      · rw [callsAt_of_not_selects hsel] at hd
        obtain rfl : d₀ = d := Except.ok.inj hd
        rw [effectAt_of_not_selects hsel]

end CrashFuzz
