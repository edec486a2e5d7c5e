import CrashFuzz.Lib.Mirror
import CrashFuzz.Shim.Capture

/-!
The replay of a recording, call by call.

* `InScope`, `Faithful`: what the runs promise, and when the record of a call
  says what the call did.
* `unrecorded`: the files that were made by `open` and are in no record since.
* `Follows`: the replay of the records so far mirrors the live tree, except for
  those files.
* `Follows.extend`, `Follows.quiet`: a call with one record and with none;
  `Follows.step` carries the replay over every call.
-/

namespace CrashFuzz.Shim

open PosixPath FileTree

/-! ### Calls and what they record -/

section Runs

variable (options : ReplayOptions) (p : Process)

/-- A location strictly below `rootDir`. -/
def Inside (loc : List Chars) : Prop := options.root <+: loc ∧ loc ≠ options.root

/-- No other payload is stored under the digest of this one. -/
def Session.Distinct (s : Session) (payload : List UInt8) : Prop :=
  ∀ entry ∈ s.cas, entry.1 = p.sha256 payload → entry.2 = payload

/-- What the runs promise of a call: operands below `rootDir`, vectored payloads
that fit the staging buffer, payloads that their digests tell apart. -/
def InScope (s : Session) : Call → Prop
  | .open_ path _ _ _ _ | .truncate path _ | .mkdir path | .unlink path =>
      Inside options (p.loc path)
  | .link source dest | .rename source dest =>
      Inside options (p.loc source) ∧ Inside options (p.loc dest)
  | .write _ payload | .pwrite _ payload _ => s.Distinct p payload
  | .writev _ buffers => buffers.flatten.length ≤ iovStageMax ∧ s.Distinct p buffers.flatten
  | .ftruncate _ _ | .close _ => True

/-- The path cached for a descriptor is a name of the file it is open on. -/
def Session.NamesOwn (s : Session) (fd : ℕ) : Prop :=
  fd < maxFd ∧ ∃ i position access, s.fds fd = some (.file i position access) ∧
    s.disk.node (PosixPath.resolve p.cwd.toList (s.fdPaths fd).toList) = some (.file i)

/-- The record of a call says what the call does: an `open` discards no bytes,
a call on a descriptor finds its file under the cached path, and a `write` not
on the marker file, and a rename is of a file. -/
def Faithful (s : Session) : Call → Prop
  | .open_ path _ _ trunc _ =>
      trunc = true → ∀ i, s.disk.node (p.loc path) = some (.file i) → s.disk.data i = []
  | .write fd _ => s.isMarkerFd fd = false ∧ s.NamesOwn p fd
  | .pwrite fd _ _ | .writev fd _ | .ftruncate fd _ => s.NamesOwn p fd
  | .rename source _ => ∃ i, s.disk.node (p.loc source) = some (.file i)
  | .truncate _ _ | .mkdir _ | .link _ _ | .unlink _ | .close _ => True

/-- The file a record of the call names, in addition to what it makes. -/
def Session.operand (s : Session) : Call → Option ℕ
  | .write fd _ | .pwrite fd _ _ | .writev fd _ | .ftruncate fd _ =>
      match s.fds fd with
      | some (.file i _ _) => some i
      | _ => none
  | .truncate path _ | .link path _ | .rename path _ =>
      match s.disk.node (p.loc path) with
      | some (.file i) => some i
      | _ => none
  | .open_ _ _ _ _ _ | .mkdir _ | .unlink _ | .close _ => none

/-- The files that were made by `open` and are the operand of no record since. -/
def unrecorded (s : Session) (u : Finset ℕ) (call : Call) : Finset ℕ :=
  match call with
  | .open_ path _ _ _ _ => if s.disk.node (p.loc path) = none then insert s.disk.next u else u
  | _ => match s.operand p call with
    | some i => u.erase i
    | none => u

end Runs

variable {options : ReplayOptions} {p : Process} {s s' : Session} {u : Finset ℕ}
  {store : Store} {image image' : Disk} {loc b c : List Chars} {path : String} {i fd : ℕ}

/-! ### Canonical paths -/

lemma loc_proper {c : Chars} (hc : c ∈ p.loc path) : Proper c := resolve_proper hc

/-- A canonical path leads to its location from everywhere. -/
lemma resolve_canonical (cwd : Chars) (hloc : ∀ c ∈ loc, Proper c) :
    PosixPath.resolve cwd (canonical loc).toList = loc := by
  have habs : isAbsolute ('/' :: unsplit loc) = true := rfl
  rw [canonical, String.toList_ofList, resolve_eq_walk, if_pos habs,
    ← List.nil_append ('/' :: unsplit loc), walk_append, walk_nil, walk_unsplit_proper hloc,
    List.nil_append]

lemma Inside.exists_below (h : Inside options loc) : ∃ b ≠ [], loc = options.root ++ b := by
  obtain ⟨b, rfl⟩ := h.1
  exact ⟨b, fun hb => h.2 (by rw [hb, List.append_nil]), rfl⟩

lemma belowRoot_canonical (hloc : ∀ c ∈ loc, Proper c) (h : Inside options loc) :
    BelowRoot options (canonical loc) := by
  rw [BelowRoot, resolve_canonical _ hloc]
  exact h

/-- Where replay finds a canonical path. -/
lemma place_canonical (hloc : ∀ c ∈ options.root ++ b, Proper c) :
    place options (canonical (options.root ++ b)) = options.target ++ b := by
  rw [place, below, resolve_canonical _ hloc, List.drop_left]

/-- What exists is recorded by its canonical path. -/
lemma resolve_eq_canonical {disk : Disk} (h : disk.node (p.loc path) ≠ none) :
    p.resolve disk path = canonical (p.loc path) := by
  rw [Process.resolve, Process.realpath, if_neg h, Option.getD_some]

/-! ### The replay so far -/

/-- What the interposer stored is found by replay. -/
def Keeps (options : ReplayOptions) (store : Store) (cas : List (String × List UInt8)) : Prop :=
  ∀ entry ∈ cas, store (join options.casDir.toList entry.1.toList) = some entry.2

/-- The replay of the records of a session, in an image that was empty before,
mirrors its live tree without the files in `u`. -/
structure Follows (options : ReplayOptions) (store : Store) (image : Disk) (s : Session)
    (u : Finset ℕ) : Prop where
  ascending : s.events.Pairwise (·.index < ·.index)
  issued : ∀ e ∈ s.events, e.index < s.stamp
  succeeded : ∀ e ∈ s.events, 0 ≤ e.returnValue
  cached : ∀ fd < maxFd, s.fds fd ≠ none →
    ∃ loc, Inside options loc ∧ (∀ c ∈ loc, Proper c) ∧ s.fdPaths fd = canonical loc
  mirrored : ∃ m image', runCalls options.cwd.toList store image
      (s.events.flatMap fun e => applySelected options e none) = .ok image' ∧
    Mirrors options.root options.target m u s.disk image'

namespace Follows

variable {m : ℕ → ℕ} {disk : Disk} {event : TraceEvent} {u' : Finset ℕ}

/-- A step that records nothing. -/
lemma quiet (h : Follows options store image s u) (hevents : s'.events = s.events)
    (hstamp : s.stamp ≤ s'.stamp)
    (hcached : ∀ fd < maxFd, s'.fds fd ≠ none →
      ∃ loc, Inside options loc ∧ (∀ c ∈ loc, Proper c) ∧ s'.fdPaths fd = canonical loc)
    (hmirrors : ∀ m image', Mirrors options.root options.target m u s.disk image' →
      Mirrors options.root options.target m u' s'.disk image') :
    Follows options store image s' u' := by
  obtain ⟨m, image', hrun, hm⟩ := h.mirrored
  refine ⟨hevents ▸ h.ascending, fun e he => ?_, hevents ▸ h.succeeded, hcached, m, image',
    hevents ▸ hrun, hmirrors m image' hm⟩
  exact (h.issued e (hevents ▸ he)).trans_le hstamp

/-- A step that adds one record, which replay can apply. -/
lemma extend (h : Follows options store image s u) (hevents : s'.events = s.events ++ [event])
    (hindex : event.index = s.stamp) (hstamp : s.stamp < s'.stamp)
    (hreturn : 0 ≤ event.returnValue)
    (hcached : ∀ fd < maxFd, s'.fds fd ≠ none →
      ∃ loc, Inside options loc ∧ (∀ c ∈ loc, Proper c) ∧ s'.fdPaths fd = canonical loc)
    (hbelow : event.call ∈ mutating → OperandsBelow options event)
    (hstored : PayloadStored options store event)
    (hmirrors : ∀ m image', Mirrors options.root options.target m u s.disk image' →
      Applicable options image' event ∧ ∃ m', Mirrors options.root options.target m' u' s'.disk
        (applyEvent options store image' event none)) :
    Follows options store image s' u' := by
  obtain ⟨m, image', hrun, hm⟩ := h.mirrored
  obtain ⟨happ, m', hm'⟩ := hmirrors m image' hm
  refine ⟨?_, fun e he => ?_, fun e he => ?_, hcached, m', _, ?_, hm'⟩
  · rw [hevents, List.pairwise_append]
    refine ⟨h.ascending, List.pairwise_singleton _ _, fun e he e' he' => ?_⟩
    rw [List.mem_singleton.mp he', hindex]
    exact h.issued e he
  · rw [hevents, List.mem_append, List.mem_singleton] at he
    rcases he with he | rfl
    · exact (h.issued e he).trans hstamp
    · exact hindex ▸ hstamp
  · rw [hevents, List.mem_append, List.mem_singleton] at he
    rcases he with he | rfl
    · exact h.succeeded e he
    · exact hreturn
  · -- the replay so far, and then the calls of the new record
    rw [hevents, List.flatMap_append, List.flatMap_singleton, runCalls_append, hrun]
    exact (runCalls_applySelected_iff hm.wf' hbelow hstored).mpr ⟨happ, rfl⟩

/-! ### One call -/

/-- The way to a live file is clear on the other side. -/
lemma clear_of_mirrors (h : Mirrors options.root options.target m u disk image') (hb : b ≠ [])
    (hi : disk.node (options.root ++ b) = some (.file i)) :
    (∀ q ∈ Volume.way (options.target ++ b), image'.NoFile q) ∧
      image'.node (options.target ++ b) ≠ some .dir := by
  have hreach := h.reached hb (h.wf.reached (by simp [hi]))
  exact ⟨fun q hq f => by simp [hreach q hq], h.not_dir (by simp [hi])⟩

/-- Replaying a change of the bytes of a file. -/
lemma mirrors_edit (h : Mirrors options.root options.target m u disk image') (hb : b ≠ [])
    (hi : disk.node (options.root ++ b) = some (.file i)) (f : List UInt8 → List UInt8) :
    ∃ m', Mirrors options.root options.target m' (u.erase i) (disk.setData i (f (disk.data i)))
      ((image'.ensured (options.target ++ b)).edit (options.target ++ b) f) := by
  obtain ⟨m', h'⟩ := h.ensured hb (h.wf.reached (by simp [hi])) hi
  exact ⟨m', h'.edit hi (Finset.notMem_erase i u) f⟩

/-- `open` on the live tree: only a file it makes is missing on the other side. -/
lemma mirrors_open {machine : Machine} {access : Access} {creat trunc : Bool}
    (hinside : Inside options (p.loc path))
    (htrunc : trunc = true → ∀ i, s.disk.node (p.loc path) = some (.file i) → s.disk.data i = [])
    (hstep : s.toMachine.open_ (p.loc path) access creat trunc fd = .ok machine)
    (hm : Mirrors options.root options.target m u s.disk image') :
    Mirrors options.root options.target m
      (unrecorded p s u (.open_ path access creat trunc fd)) machine.disk image' := by
  obtain ⟨-, hreach, hcases⟩ := open_eq_ok_iff.mp hstep
  obtain ⟨b, hb, hloc⟩ := hinside.exists_below
  rw [unrecorded]
  rcases hcases with ⟨hnone, -, rfl⟩ | ⟨hdir, -, rfl⟩ | ⟨i, hi, rfl⟩
  · -- `O_CREAT` made the file, which replay does not make
    rw [if_pos hnone]
    rw [hloc] at hreach hnone ⊢
    exact hm.addFile hreach hnone
  · rw [if_neg (by simp [hdir])]
    exact hm
  · rw [if_neg (by simp [hi])]
    cases htr : trunc with
    | false => exact hm
    | true =>
        -- replay truncates nothing, but the file had no bytes
        have hsame : s.disk.setData i [] = s.disk := by
          rw [Volume.setData, ← htrunc htr i hi, Function.update_eq_self]
        simpa [hsame] using hm

variable (h : Follows options store image s u)

include h

/-- Descriptors that stay open keep their paths. -/
lemma cached_of_subset (hfds : ∀ fd, s'.fds fd ≠ none → s.fds fd ≠ none)
    (hpaths : s'.fdPaths = s.fdPaths) : ∀ fd < maxFd, s'.fds fd ≠ none →
      ∃ loc, Inside options loc ∧ (∀ c ∈ loc, Proper c) ∧ s'.fdPaths fd = canonical loc :=
  fun fd hfd hopen => hpaths ▸ h.cached fd hfd (hfds fd hopen)

/-- The record of a change of the bytes of one file. -/
lemma extend_edit (hloc : ∀ c ∈ options.root ++ b, Proper c) (hb : b ≠ [])
    (hi : s.disk.node (options.root ++ b) = some (.file i)) (f : List UInt8 → List UInt8)
    (hdisk : s'.disk = s.disk.setData i (f (s.disk.data i)))
    (hevents : s'.events = s.events ++ [event]) (hindex : event.index = s.stamp)
    (hstamp : s.stamp < s'.stamp) (hreturn : 0 ≤ event.returnValue)
    (hpath : event.path = canonical (options.root ++ b))
    (hfds : ∀ fd, s'.fds fd ≠ none → s.fds fd ≠ none) (hpaths : s'.fdPaths = s.fdPaths)
    (hcall : event.call ∈ [.write, .pwrite, .writev, .truncate, .ftruncate])
    (hstored : PayloadStored options store event)
    (hedit : ∀ image', applyEvent options store image' event none =
      (image'.ensured (place options event.path)).edit (place options event.path) f) :
    Follows options store image s' (u.erase i) := by
  have hinside : Inside options (options.root ++ b) :=
    ⟨List.prefix_append _ _, fun heq => hb (List.append_right_eq_self.mp heq)⟩
  have hplace : place options event.path = options.target ++ b := by
    rw [hpath, place_canonical hloc]
  refine h.extend hevents hindex hstamp hreturn (h.cached_of_subset hfds hpaths) (fun _ => ?_)
    hstored fun m image' hm => ⟨?_, ?_⟩
  · refine ⟨hpath ▸ belowRoot_canonical hloc hinside, fun h => ?_⟩
    rcases h with h | h <;> simp [h] at hcall
  · have hclear := clear_of_mirrors hm hb hi
    rw [Applicable, hplace]
    cases hc : event.call <;> simp [hc] at hcall ⊢ <;> exact hclear
  · rw [hedit, hplace, hdisk]
    exact mirrors_edit hm hb hi f

/-- A change through a descriptor whose path is a name of its file. -/
lemma alter_own {machine : Machine} {change : ℕ → List UInt8 → List UInt8} {advance : ℕ}
    (hown : s.NamesOwn p fd) (hstep : s.toMachine.alter fd change advance = .ok machine) :
    ∃ i position access b, s.fds fd = some (.file i position access) ∧ b ≠ [] ∧
      (∀ c ∈ options.root ++ b, Proper c) ∧ s.disk.node (options.root ++ b) = some (.file i) ∧
      s.pathFor fd = canonical (options.root ++ b) ∧
      machine.disk = s.disk.setData i (change position (s.disk.data i)) ∧
      ∀ fd', machine.fds fd' ≠ none → s.fds fd' ≠ none := by
  obtain ⟨hmax, i, position, access, hfd, hnode⟩ := hown
  obtain ⟨j, position', access', hfd', -, rfl⟩ := alter_eq_ok_iff.mp hstep
  obtain ⟨rfl, rfl, rfl⟩ : i = j ∧ position = position' ∧ access = access' := by
    simpa [hfd] using hfd'
  -- the cached path is still a name of the file that the descriptor is open on
  obtain ⟨loc, hinside, hproper, hpath⟩ := h.cached fd hmax (by simp [hfd])
  obtain ⟨b, hb, rfl⟩ := hinside.exists_below
  rw [hpath, resolve_canonical _ hproper] at hnode
  refine ⟨i, position, access, b, hfd, hb, hproper, hnode, ?_, rfl, fun fd' hopen => ?_⟩
  · rw [Session.pathFor, if_pos hmax, hpath]
  · by_cases heq : fd' = fd
    · simp [heq, hfd]
    · simpa [Function.update_of_ne heq] using hopen

/-- A recorded write through a descriptor. -/
lemma extend_write {machine : Machine} {change : ℕ → List UInt8 → List UInt8} {advance : ℕ}
    {payload : List UInt8} {offset : ℤ} {call : CallName}
    (hscope : s.Distinct p payload) (hown : s.NamesOwn p fd)
    (hstep : s.toMachine.alter fd change advance = .ok machine)
    (hcall : call ∈ [CallName.write, .pwrite, .writev])
    (hchange : ∀ i position access, s.fds fd = some (.file i position access) →
      change position = (Volume.splice · offset.toNat payload))
    (hstore : Keeps options store
      ((s.issue machine).emitWrite p s.stamp call fd payload offset).cas)
    (hu : ∀ i position access, s.fds fd = some (.file i position access) → u' = u.erase i) :
    Follows options store image ((s.issue machine).emitWrite p s.stamp call fd payload offset)
      u' := by
  obtain ⟨i, position, access, b, hfd, hb, hproper, hnode, hpath, hdisk, hfds⟩ :=
    h.alter_own hown hstep
  -- replay finds the bytes of the record under their digest
  have hkept : store (join options.casDir.toList (p.sha256 payload).toList) = some payload :=
    hstore _ (mem_storePayload hscope)
  rw [hu i position access hfd]
  refine h.extend_edit hproper hb hnode (Volume.splice · offset.toNat payload) ?_
    emitWrite_events rfl ?_ ?_ hpath ?_ ?_ ?_ ?_ fun image' => ?_
  · rw [emitWrite_toMachine, issue_toMachine, hdisk, hchange i position access hfd]
  · rw [emitWrite_stamp, issue_stamp]
    omega
  · exact Int.natCast_nonneg _
  · simpa using hfds
  · simp
  · revert hcall
    cases call <;> simp [eventOf]
  · exact fun _ => by simp [eventOf, payloadObject, hkept]
  · rw [applyEvent]
    revert hcall
    cases call <;> simp [eventOf, payloadObject, hkept]

/-- `ftruncate`. -/
lemma step_ftruncate {length : ℕ} (hown : s.NamesOwn p fd)
    (hstep : s.ftruncate p fd length = .ok s') :
    Follows options store image s' (unrecorded p s u (.ftruncate fd length)) := by
  rw [Session.ftruncate, bind_eq_ok] at hstep
  obtain ⟨machine, hmachine, heq⟩ := hstep
  cases heq
  obtain ⟨i, position, access, b, hfd, hb, hproper, hnode, hpath, hdisk, hfds⟩ :=
    h.alter_own hown hmachine
  have hu : unrecorded p s u (.ftruncate fd length) = u.erase i := by
    simp [unrecorded, Session.operand, hfd]
  rw [hu]
  refine h.extend_edit hproper hb hnode (Volume.resize · length) hdisk emitEvent_events rfl ?_
    le_rfl hpath hfds rfl (by simp [eventOf]) (fun hw => ?_) fun _ => rfl
  · simp [Session.issue]
  · simp [eventOf] at hw

/-- `truncate`. -/
lemma step_truncate {length : ℕ} (hinside : Inside options (p.loc path))
    (hstep : s.truncate p path length = .ok s') :
    Follows options store image s' (unrecorded p s u (.truncate path length)) := by
  rw [Session.truncate, bind_eq_ok] at hstep
  obtain ⟨machine, hmachine, heq⟩ := hstep
  cases heq
  obtain ⟨disk, hdisk, rfl⟩ := onDisk_eq_ok_iff.mp hmachine
  obtain ⟨-, ⟨i, hi⟩, rfl⟩ := Volume.truncate_eq_ok_iff.mp hdisk
  have hu : unrecorded p s u (.truncate path length) = u.erase i := by
    simp [unrecorded, Session.operand, hi]
  have hpath : p.resolve s.disk path = canonical (p.loc path) :=
    resolve_eq_canonical (by simp [hi])
  have hedit : s.disk.edit (p.loc path) (Volume.resize · length) =
      s.disk.setData i (Volume.resize (s.disk.data i) length) := by
    rw [Volume.edit, hi]
  obtain ⟨b, hb, hloc⟩ := hinside.exists_below
  have hproper : ∀ c ∈ options.root ++ b, Proper c := fun c hc => loc_proper (hloc ▸ hc)
  rw [hloc] at hi hpath
  rw [hu]
  refine h.extend_edit hproper hb hi (Volume.resize · length) hedit emitEvent_events rfl ?_
    le_rfl hpath (fun fd hfd => hfd) rfl (by simp [eventOf]) (fun hw => ?_) fun _ => rfl
  · simp [Session.issue]
  · simp [eventOf] at hw

/-- `mkdir`. -/
lemma step_mkdir (hinside : Inside options (p.loc path)) (hstep : s.mkdir p path = .ok s') :
    Follows options store image s' (unrecorded p s u (.mkdir path)) := by
  rw [Session.mkdir, bind_eq_ok] at hstep
  obtain ⟨machine, hmachine, heq⟩ := hstep
  cases heq
  obtain ⟨disk, hdisk, rfl⟩ := onDisk_eq_ok_iff.mp hmachine
  obtain ⟨hreach, hnone, rfl⟩ := Volume.mkdir_eq_ok_iff.mp hdisk
  -- the path is resolved after the call, when the directory is there
  have hpath : p.resolve (s.disk.setNode (p.loc path) .dir) path = canonical (p.loc path) :=
    resolve_eq_canonical (by simp)
  obtain ⟨b, hb, hloc⟩ := hinside.exists_below
  have hproper : ∀ c ∈ options.root ++ b, Proper c := fun c hc => loc_proper (hloc ▸ hc)
  refine h.extend emitEvent_events rfl ?_ le_rfl (h.cached_of_subset (fun fd hfd => hfd) rfl)
    (fun _ => ⟨?_, ?_⟩) (fun hw => ?_) fun m image' hm => ?_
  · simp [Session.issue]
  · simpa [eventOf, hpath] using belowRoot_canonical (fun c hc => loc_proper hc) hinside
  · simp [eventOf]
  · simp [eventOf] at hw
  · have hplace : place options (p.resolve (s.disk.setNode (p.loc path) .dir) path) =
        options.target ++ b := by
      rw [hpath, hloc, place_canonical hproper]
    rw [hloc] at hreach hnone
    have hreach' := hm.reached hb hreach
    have hnone' := hm.node_none hnone
    simp only [Applicable, applyEvent, eventOf, hplace, emitEvent_toMachine, issue_toMachine]
    refine ⟨fun q hq f => ?_, m, hloc ▸ hm.addDir hb hreach hnone⟩
    rcases Volume.mem_inits_iff.mp hq with rfl | hq
    · simp [hnone']
    · simp [hreach' q hq]

/-- `unlink`. -/
lemma step_unlink (hinside : Inside options (p.loc path)) (hstep : s.unlink p path = .ok s') :
    Follows options store image s' (unrecorded p s u (.unlink path)) := by
  rw [Session.unlink, bind_eq_ok] at hstep
  obtain ⟨machine, hmachine, heq⟩ := hstep
  cases heq
  obtain ⟨disk, hdisk, rfl⟩ := onDisk_eq_ok_iff.mp hmachine
  obtain ⟨-, ⟨i, hi⟩, rfl⟩ := Volume.unlink_eq_ok_iff.mp hdisk
  -- the path is resolved before the call, when the file is still there
  have hpath : p.resolve s.disk path = canonical (p.loc path) :=
    resolve_eq_canonical (by simp [hi])
  obtain ⟨b, hb, hloc⟩ := hinside.exists_below
  have hproper : ∀ c ∈ options.root ++ b, Proper c := fun c hc => loc_proper (hloc ▸ hc)
  refine h.extend emitEvent_events rfl ?_ le_rfl (h.cached_of_subset (fun fd hfd => hfd) rfl)
    (fun _ => ⟨?_, ?_⟩) (fun hw => ?_) fun m image' hm => ?_
  · simp [Session.issue]
  · simpa [eventOf, hpath] using belowRoot_canonical (fun c hc => loc_proper hc) hinside
  · simp [eventOf]
  · simp [eventOf] at hw
  · have hplace : place options (p.resolve s.disk path) = options.target ++ b := by
      rw [hpath, hloc, place_canonical hproper]
    rw [hloc] at hi
    simp only [Applicable, applyEvent, eventOf, hplace, emitEvent_toMachine, issue_toMachine]
    exact ⟨clear_of_mirrors hm hb hi, m, hloc ▸ hm.removeNode hb (by simp [hi])⟩

/-- `rename` and `link`: the source is made where it is missing, and then both
sides change their names alike. -/
lemma extend_pair {source dest : String} {disk : Disk} {call : CallName} (hsource :
      Inside options (p.loc source)) (hdest : Inside options (p.loc dest))
    (hcall : call = .rename ∨ call = .link)
    (hi : s.disk.node (p.loc source) = some (.file i)) (hexists : disk.node (p.loc dest) ≠ none)
    (hmirrors : ∀ b ≠ [], ∀ c ≠ [], p.loc source = options.root ++ b →
      p.loc dest = options.root ++ c → ∀ m image',
        Mirrors options.root options.target m (u.erase i) s.disk image' →
        (call = .rename → image'.Reached (options.target ++ c) ∧
            image'.node (options.target ++ c) ≠ some .dir ∧
            Mirrors options.root options.target m (u.erase i) disk
              (image'.renamed (options.target ++ b) (options.target ++ c))) ∧
        (call = .link → image'.Reached (options.target ++ c) ∧
            image'.node (options.target ++ c) = none ∧
            Mirrors options.root options.target m (u.erase i) disk
              (image'.linked (options.target ++ b) (options.target ++ c)))) :
    Follows options store image ((s.issue ⟨disk, s.fds⟩).emitEvent p s.stamp call (-1)
      (p.resolve s.disk source) (p.resolve disk dest) 0 0 0 "") (u.erase i) := by
  -- the old name is resolved before the call, the new one after it
  have hpath : p.resolve s.disk source = canonical (p.loc source) :=
    resolve_eq_canonical (by simp [hi])
  have hpath2 : p.resolve disk dest = canonical (p.loc dest) := resolve_eq_canonical hexists
  obtain ⟨b, hb, hloc⟩ := hsource.exists_below
  obtain ⟨c, hc, hloc2⟩ := hdest.exists_below
  have hproper : ∀ x ∈ options.root ++ b, Proper x := fun x hx => loc_proper (hloc ▸ hx)
  have hproper2 : ∀ x ∈ options.root ++ c, Proper x := fun x hx => loc_proper (hloc2 ▸ hx)
  refine h.extend emitEvent_events rfl ?_ le_rfl (h.cached_of_subset (fun fd hfd => hfd) rfl)
    (fun _ => ⟨?_, fun _ => ?_⟩) (fun hw => ?_) fun m image' hm => ?_
  · simp [Session.issue]
  · simpa [eventOf, hpath] using belowRoot_canonical (fun c hc => loc_proper hc) hsource
  · simpa [eventOf, hpath2] using belowRoot_canonical (fun c hc => loc_proper hc) hdest
  · rcases hcall with rfl | rfl <;> simp [eventOf] at hw
  · have hplace : place options (p.resolve s.disk source) = options.target ++ b := by
      rw [hpath, hloc, place_canonical hproper]
    have hplace2 : place options (p.resolve disk dest) = options.target ++ c := by
      rw [hpath2, hloc2, place_canonical hproper2]
    rw [hloc] at hi
    have hclear := clear_of_mirrors hm hb hi
    -- a source that was opened but never written is missing on the other side
    obtain ⟨m', hm'⟩ := hm.ensured hb (hm.wf.reached (by simp [hi])) hi
    obtain ⟨hrename, hlink⟩ := hmirrors b hb c hc hloc hloc2 m' _ hm'
    rcases hcall with rfl | rfl
    · obtain ⟨hreach, hdir, hm''⟩ := hrename rfl
      simp only [Applicable, applyEvent, eventOf, hplace, hplace2, emitEvent_toMachine,
        issue_toMachine]
      exact ⟨⟨hclear, hreach, hdir⟩, m', hm''⟩
    · obtain ⟨hreach, hnone, hm''⟩ := hlink rfl
      simp only [Applicable, applyEvent, eventOf, hplace, hplace2, emitEvent_toMachine,
        issue_toMachine]
      exact ⟨⟨hclear, hreach, hnone⟩, m', hm''⟩

/-- `rename` of a file. -/
lemma step_rename {source dest : String} (hsource : Inside options (p.loc source))
    (hdest : Inside options (p.loc dest)) (hfile : ∃ i, s.disk.node (p.loc source) = some (.file i))
    (hstep : s.rename p source dest = .ok s') :
    Follows options store image s' (unrecorded p s u (.rename source dest)) := by
  rw [Session.rename, bind_eq_ok] at hstep
  obtain ⟨machine, hmachine, heq⟩ := hstep
  cases heq
  obtain ⟨disk, hdisk, rfl⟩ := onDisk_eq_ok_iff.mp hmachine
  obtain ⟨i, hi⟩ := hfile
  obtain ⟨-, hreach, hdir, rfl⟩ := (Volume.rename_file_eq_ok_iff hi).mp hdisk
  have hu : unrecorded p s u (.rename source dest) = u.erase i := by
    simp [unrecorded, Session.operand, hi]
  have hexists : (s.disk.renamed (p.loc source) (p.loc dest)).node (p.loc dest) ≠ none := by
    by_cases hsame : s.disk.node (p.loc dest) = some (.file i)
    · simp [Volume.renamed_of_same hi hsame, hsame]
    · simp [Volume.renamed_of_ne hi hsame]
  rw [hu]
  refine h.extend_pair hsource hdest (Or.inl rfl) hi hexists
    fun b hb c hc hloc hloc2 m image' hm => ⟨fun _ => ?_, by simp⟩
  rw [hloc2] at hreach hdir
  rw [hloc] at hi
  rw [hloc, hloc2]
  exact ⟨hm.reached hc hreach, hm.not_dir hdir,
    hm.renamed hb hc hi (Finset.notMem_erase i u) hreach hdir⟩

/-- `link`. -/
lemma step_link {source dest : String} (hsource : Inside options (p.loc source))
    (hdest : Inside options (p.loc dest)) (hstep : s.link p source dest = .ok s') :
    Follows options store image s' (unrecorded p s u (.link source dest)) := by
  rw [Session.link, bind_eq_ok] at hstep
  obtain ⟨machine, hmachine, heq⟩ := hstep
  cases heq
  obtain ⟨disk, hdisk, rfl⟩ := onDisk_eq_ok_iff.mp hmachine
  obtain ⟨-, hreach, ⟨i, hi⟩, hnone, rfl⟩ := Volume.link_eq_ok_iff.mp hdisk
  have hu : unrecorded p s u (.link source dest) = u.erase i := by
    simp [unrecorded, Session.operand, hi]
  have hexists : (s.disk.linked (p.loc source) (p.loc dest)).node (p.loc dest) ≠ none := by
    simp [Volume.linked_eq hi]
  rw [hu]
  refine h.extend_pair hsource hdest (Or.inr rfl) hi hexists
    fun b hb c hc hloc hloc2 m image' hm => ⟨by simp, fun _ => ?_⟩
  rw [hloc2] at hreach hnone
  rw [hloc] at hi
  rw [hloc, hloc2]
  exact ⟨hm.reached hc hreach, hm.node_none hnone,
    hm.linked hc hi (Finset.notMem_erase i u) hreach hnone⟩

/-- `close`. -/
lemma step_close (hstep : s.close p fd = .ok s') :
    Follows options store image s' (unrecorded p s u (.close fd)) := by
  rw [Session.close, bind_eq_ok] at hstep
  obtain ⟨machine, hmachine, heq⟩ := hstep
  cases heq
  obtain rfl : machine = ⟨s.disk, Function.update s.fds fd none⟩ := by
    rw [Machine.close] at hmachine
    split at hmachine
    · cases hmachine
    · exact (Except.ok.inj hmachine).symm
  -- forgetting the path of `fd` leaves those of the descriptors still open
  have hcached : ∀ s'' : Session, s''.fdPaths = s.fdPaths →
      s''.toMachine = ⟨s.disk, Function.update s.fds fd none⟩ →
      ∀ fd' < maxFd, (s''.forgetPath fd).fds fd' ≠ none →
        ∃ loc, Inside options loc ∧ (∀ c ∈ loc, Proper c) ∧
          (s''.forgetPath fd).fdPaths fd' = canonical loc := by
    intro s'' hpaths hmachine fd' hmax hopen
    rw [forgetPath_toMachine, hmachine] at hopen
    have hne : fd' ≠ fd := fun heq => hopen (by simp [heq])
    rw [forgetPath_fdPaths_of_ne hne, hpaths]
    exact h.cached fd' hmax (by simpa [Function.update_of_ne hne] using hopen)
  have hu : unrecorded p s u (.close fd) = u := rfl
  rw [hu]
  split
  · exact h.quiet (by simp) (by simp) (hcached _ rfl rfl) fun m image' hm => by simpa using hm
  · refine h.extend ((forgetPath_events).trans emitEvent_events) rfl ?_ le_rfl
      (hcached _ rfl rfl) ?_ ?_ fun m image' hm => ⟨trivial, m, ?_⟩
    · rw [forgetPath_stamp, emitEvent_stamp, issue_stamp]
      omega
    · simp [eventOf, mutating]
    · simp [PayloadStored, eventOf]
    · simpa [applyEvent, eventOf] using hm

/-- `open`. -/
lemma step_open {access : Access} {creat trunc : Bool} (hinside : Inside options (p.loc path))
    (htrunc : trunc = true → ∀ i, s.disk.node (p.loc path) = some (.file i) → s.disk.data i = [])
    (hstep : s.open_ p path access creat trunc fd = .ok s') :
    Follows options store image s' (unrecorded p s u (.open_ path access creat trunc fd)) := by
  rw [Session.open_, bind_eq_ok] at hstep
  obtain ⟨machine, hmachine, heq⟩ := hstep
  cases heq
  have hexists : machine.disk.node (p.loc path) ≠ none := open_exists hmachine
  -- the new descriptor's path is below the root, and the others keep theirs
  have hcached : ∀ fd' < maxFd, machine.fds fd' ≠ none →
      ∃ loc, Inside options loc ∧ (∀ c ∈ loc, Proper c) ∧
        ((s.issue machine).rememberPath p fd path).fdPaths fd' = canonical loc := by
    intro fd' hmax hopen
    by_cases hne : fd' = fd
    · refine ⟨p.loc path, hinside, fun c hc => loc_proper hc, ?_⟩
      rw [hne, rememberPath_fdPaths_self (hne ▸ hmax), issue_toMachine,
        resolve_eq_canonical hexists]
    · rw [rememberPath_fdPaths_of_ne hne, issue_fdPaths]
      exact h.cached fd' hmax (open_fds hmachine hne ▸ hopen)
  have hevents : (((s.issue machine).rememberPath p fd path).setFlags
      (openFlags access creat trunc)).events = s.events := by
    simp
  split
  · refine h.quiet hevents (by simp) (by simpa using hcached) fun m image' hm => ?_
    simpa using mirrors_open hinside htrunc hmachine hm
  · refine h.extend (emitEvent_events.trans (congrArg (· ++ _) hevents)) rfl ?_
      (Int.natCast_nonneg fd) (by simpa using hcached) ?_ ?_ fun m image' hm => ⟨trivial, m, ?_⟩
    · rw [emitEvent_stamp, setFlags_stamp, rememberPath_stamp, issue_stamp]
      omega
    · simp [eventOf, mutating]
    · simp [PayloadStored, eventOf]
    · simpa [applyEvent, eventOf] using mirrors_open hinside htrunc hmachine hm

/-- **One call**: when its record says what it did, the replay goes on to mirror
the live tree. -/
theorem step {call : Call} (hscope : InScope options p s call) (hfaithful : Faithful p s call)
    (hstep : s.step p call = .ok s') (hstore : Keeps options store s'.cas) :
    Follows options store image s' (unrecorded p s u call) := by
  cases call with
  | open_ path access creat trunc fd => exact h.step_open hscope hfaithful hstep
  | write fd payload =>
      obtain ⟨hmarker, hown⟩ := hfaithful
      rw [Session.step, Session.write, bind_eq_ok] at hstep
      obtain ⟨machine, hmachine, heq⟩ := hstep
      cases heq
      rw [if_neg (by simp [hmarker])] at hstore ⊢
      refine h.extend_write hscope hown hmachine (by simp) (fun i position access hfd => ?_) hstore
        fun i position access hfd => by simp [unrecorded, Session.operand, hfd]
      rw [toNat_writeOffset hmachine hfd]
  | pwrite fd payload offset =>
      rw [Session.step, Session.pwrite, bind_eq_ok] at hstep
      obtain ⟨machine, hmachine, heq⟩ := hstep
      cases heq
      exact h.extend_write hscope hfaithful hmachine (by simp) (fun _ _ _ _ => rfl) hstore
        fun i position access hfd => by simp [unrecorded, Session.operand, hfd]
  | writev fd buffers =>
      obtain ⟨hstage, hdistinct⟩ := hscope
      rw [Session.step, Session.writev, bind_eq_ok] at hstep
      obtain ⟨machine, hmachine, heq⟩ := hstep
      cases heq
      rw [if_pos hstage] at hstore ⊢
      refine h.extend_write hdistinct hfaithful hmachine (by simp)
        (fun i position access hfd => ?_) hstore
        fun i position access hfd => by simp [unrecorded, Session.operand, hfd]
      rw [toNat_writeOffset hmachine hfd]
  | ftruncate fd length => exact h.step_ftruncate hfaithful hstep
  | truncate path length => exact h.step_truncate hscope hstep
  | mkdir path => exact h.step_mkdir hscope hstep
  | link source dest => exact h.step_link hscope.1 hscope.2 hstep
  | rename source dest => exact h.step_rename hscope.1 hscope.2 hfaithful hstep
  | unlink path => exact h.step_unlink hscope hstep
  | close fd => exact h.step_close hstep

end Follows

end CrashFuzz.Shim
