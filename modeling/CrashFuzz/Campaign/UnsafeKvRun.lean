import CrashFuzz.Campaign.PositiveControl

/-!
The unsafe key-value store under the interposer: what is recorded of its calls.

* `KvProcess`: the traced process, with the store's directory as `rootDir`.
* `KvProcess.calls`: the calls of `main.c`, and `KvProcess.toUnsafeKv` the run
  of the store they stand for.
* `KvProcess.Ready`: the session between two operations, which `Ready.step`
  carries over one.
* `KvProcess.recorded`: the records of a session are the trace of the run, and
  its payload store holds the values.
* `KvProcess.Room`, `KvProcess.exists_run`: in a directory without directories
  every call goes through.
-/

namespace CrashFuzz

open PosixPath FileTree Shim

/-- The store as a traced process. -/
structure KvProcess where
  process : Process
  options : ReplayOptions
  cwd_eq : process.cwd = options.cwd
  /-- The directory argument. -/
  dir_ne : options.rootDir ≠ ""
  /-- A path with a name of up to 24 bytes fits into `tmp`. -/
  dir_fits : options.rootDir.utf8ByteSize + 26 ≤ 512
  /-- The marker file, which its basename tells. -/
  markerPath : String
  marker_named : pathIsMarker markerPath = true
  /-- The descriptor of the marker file, and that of each temporary file. -/
  markerFd : ℕ
  fd : ℕ
  fd_ne : fd ≠ markerFd
  fd_lt : fd < maxFd
  markerFd_lt : markerFd < maxFd
  /-- A digest is 64 hex digits. -/
  length_digest : ∀ bytes, (process.sha256 bytes).toList.length = 64
  hex_digest : ∀ bytes, ∀ c ∈ (process.sha256 bytes).toList,
    '0'.toNat ≤ c.toNat ∧ c.toNat ≤ 'f'.toNat

namespace KvProcess

open UnsafeKv

variable (k : KvProcess) (i n : ℕ)

lemma solid_digest (bytes : List UInt8) : Solid (k.process.sha256 bytes) := by
  intro c hc
  have hhex : 48 ≤ c.toNat ∧ c.toNat ≤ 102 := k.hex_digest bytes c hc
  simp [isTrimmed]
  omega

/-- The run of the store. The open of the marker file takes the first stamp. -/
def toUnsafeKv : UnsafeKv where
  options := k.options
  pid := k.process.pid
  tid := k.process.tid
  fd := fun _ => k.fd
  clock := fun index => index + 1
  increasing := fun _ _ h => Nat.succ_lt_succ h
  sha256 := k.process.sha256
  sha256_solid := k.solid_digest

/-- `"%s/%s"`. -/
def fileIn (name : String) : String := k.options.rootDir ++ "/" ++ name

/-- The bytes `marker` writes. -/
def markerBytes (text : String) : List UInt8 := text.toList.map fun c => UInt8.ofNat c.toNat

/-- The calls of one operation. -/
def opCalls : List Call :=
  [.write k.markerFd (markerBytes (beginText i)),
   .open_ (k.fileIn (tmpName i)) .writeOnly true true k.fd,
   .write k.fd (value i),
   .close k.fd,
   .rename (k.fileIn (tmpName i)) (k.fileIn (key i)),
   .write k.markerFd (markerBytes (k.toUnsafeKv.ackText i))]

/-- The calls of `main`. -/
def calls : List Call :=
  .open_ k.markerPath .writeOnly true true k.markerFd ::
    ((List.range' 1 n).flatMap k.opCalls ++ [.close k.markerFd])

variable {k} {i n}

/-! ### Paths -/

lemma toList_fileIn {name : String} :
    (k.fileIn name).toList = k.options.rootDir.toList ++ '/' :: name.toList := by
  rw [fileIn, String.toList_append, String.toList_append, List.append_assoc]
  rfl

lemma loc_fileIn {name : String} (h : Proper name.toList) :
    k.process.loc (k.fileIn name) = k.options.root ++ [name.toList] := by
  have hne : k.options.rootDir.toList ≠ [] := fun hnil =>
    k.dir_ne (String.toList_injective hnil)
  have habsolute : isAbsolute (k.options.rootDir.toList ++ '/' :: name.toList) =
      isAbsolute k.options.rootDir.toList := by
    rw [isAbsolute, isAbsolute, List.head?_append_of_ne_nil _ hne]
  have hwalk (base : List Chars) : walk base name.toList = base ++ [name.toList] := by
    have hproper : ∀ c ∈ [name.toList], Proper c := by simpa using h
    simpa [unsplit] using walk_unsplit_proper hproper
  rw [Process.loc, toList_fileIn, k.cwd_eq, ReplayOptions.root, resolve_eq_walk, resolve_eq_walk,
    habsolute]
  split <;> rw [walk_append, hwalk]

/-! ### Markers -/

/-- A character that a marker prints as it is. -/
def Printed (c : Char) : Prop := 0 < c.toNat ∧ c.toNat < 256

instance (c : Char) : Decidable (Printed c) := inferInstanceAs (Decidable (_ ∧ _))

/-- Every character of a text is printed as it is. -/
def PrintedText (text : String) : Prop := ∀ c ∈ text.toList, Printed c

instance (text : String) : Decidable (PrintedText text) := List.decidableBAll _ text.toList

lemma Printed.toNat {c : Char} (h : Printed c) : (UInt8.ofNat c.toNat).toNat = c.toNat := by
  rw [UInt8.toNat_ofNat', Nat.mod_eq_of_lt h.2]

/-- What `emit_marker` prints of a text. -/
lemma emitMarker_text {text : String} (hlength : text.toList.length ≤ markerTextMax)
    (hchars : PrintedText text) :
    String.ofList ((((markerBytes text).take markerTextMax).takeWhile (· ≠ 0)).map
      fun byte => Char.ofNat byte.toNat) = text := by
  have hzero : ∀ byte ∈ markerBytes text, byte ≠ 0 := by
    intro byte hbyte
    obtain ⟨c, hc, rfl⟩ := List.mem_map.mp hbyte
    intro hnul
    have htoNat := congrArg UInt8.toNat hnul
    rw [(hchars c hc).toNat] at htoNat
    exact (hchars c hc).1.ne' htoNat
  rw [List.take_of_length_le (by rw [markerBytes, List.length_map]; exact hlength),
    List.takeWhile_eq_self_iff.mpr (by simpa using hzero), markerBytes, List.map_map]
  have hprinted : text.toList.map ((fun byte : UInt8 => Char.ofNat byte.toNat) ∘
      fun c => UInt8.ofNat c.toNat) = text.toList :=
    (List.map_congr_left fun c hc => by
      rw [Function.comp_apply, (hchars c hc).toNat, Char.ofNat_toNat, id]).trans (List.map_id _)
  rw [hprinted, String.ofList_toList]

variable {s s' : Session}

/-! ### The texts of the markers -/

lemma toList_beginText : (beginText i).toList = "op=".toList ++ Decimal.integerChars i ++
    " phase=begin kind=put key=".toList ++ (key i).toList := by
  rw [beginText, pairsText, String.toList_ofList]
  simp only [List.map_cons, List.map_nil, Decimal.toList_toString_int]
  simp [List.intercalate, List.intersperse]

lemma toList_ackText : (k.toUnsafeKv.ackText i).toList = "op=".toList ++ Decimal.integerChars i ++
    " phase=ack kind=put key=".toList ++ (key i).toList ++ " digest=".toList ++
      (k.process.sha256 (value i)).toList ++ " durable=1".toList := by
  rw [UnsafeKv.ackText, pairsText, String.toList_ofList]
  simp only [List.map_cons, List.map_nil, Decimal.toList_toString_int]
  simp [List.intercalate, List.intersperse, UnsafeKv.digest, toUnsafeKv]

lemma length_integerChars (hi : i < 10 ^ 19) : (Decimal.integerChars (i : ℤ)).length ≤ 19 := by
  rw [integerChars_natCast]
  exact Nat.toDigits_length 10 i 19 (by omega) hi

lemma length_key (hi : i < 10 ^ 19) : (key i).toList.length ≤ 20 := by
  have hdigits := length_integerChars hi
  rw [toList_key, List.length_cons]
  omega

lemma length_value (hi : i < 10 ^ 19) : (value i).length = valueBytes := by
  have hkey := length_key hi
  rw [value, List.length_append, List.length_drop, List.length_map, List.length_replicate,
    valueBytes]
  omega

/-- Both markers fit into the buffer of a marker. -/
lemma length_texts (hi : i < 10 ^ 19) : (beginText i).toList.length ≤ markerTextMax ∧
    (k.toUnsafeKv.ackText i).toList.length ≤ markerTextMax := by
  have hdigits := length_integerChars hi
  have hkey := length_key hi
  have hdigest := k.length_digest (value i)
  have hwords : "op=".toList.length = 3 ∧ " phase=begin kind=put key=".toList.length = 26 ∧
      " phase=ack kind=put key=".toList.length = 24 ∧ " digest=".toList.length = 8 ∧
      " durable=1".toList.length = 10 := by decide
  rw [toList_beginText, toList_ackText, markerTextMax]
  simp only [List.length_append]
  omega

lemma printed_texts : PrintedText (beginText i) ∧ PrintedText (k.toUnsafeKv.ackText i) := by
  have hdigits : ∀ c ∈ Decimal.integerChars (i : ℤ), Printed c := by
    intro c hc
    rw [integerChars_natCast] at hc
    have hrange : 48 ≤ c.toNat ∧ c.toNat ≤ 57 :=
      Char.isDigit_iff_toNat.mp (Decimal.isDigit_toDigits hc)
    exact ⟨by omega, by omega⟩
  have hkey : ∀ c ∈ (key i).toList, Printed c := by
    rw [toList_key]
    exact List.forall_mem_cons.mpr ⟨by decide, hdigits⟩
  have hdigest : ∀ c ∈ (k.process.sha256 (value i)).toList, Printed c := by
    intro c hc
    have hhex : 48 ≤ c.toNat ∧ c.toNat ≤ 102 := k.hex_digest _ c hc
    exact ⟨by omega, by omega⟩
  have hop : PrintedText "op=" := by decide
  have hbegin : PrintedText " phase=begin kind=put key=" := by decide
  have hack : PrintedText " phase=ack kind=put key=" := by decide
  have hname : PrintedText " digest=" := by decide
  have hdurable : PrintedText " durable=1" := by decide
  rw [PrintedText, PrintedText, toList_beginText, toList_ackText]
  simp only [List.forall_mem_append]
  exact ⟨⟨⟨⟨hop, hdigits⟩, hbegin⟩, hkey⟩,
    ⟨⟨⟨⟨⟨hop, hdigits⟩, hack⟩, hkey⟩, hname⟩, hdigest⟩, hdurable⟩

/-! ### The records of the calls -/

/-- A marker. -/
lemma marker_cases {text : String} (hlength : text.toList.length ≤ markerTextMax)
    (hprinted : PrintedText text) (hmarker : s.isMarkerFd k.markerFd = true)
    (hstep : s.step k.process (.write k.markerFd (markerBytes text)) = .ok s') :
    s'.fdIsMarker = s.fdIsMarker ∧ s'.stamp = s.stamp + 1 ∧ s'.events = s.events ∧
      s'.markers = s.markers ++ [⟨s.stamp, k.process.tid, text⟩] ∧ s'.cas = s.cas := by
  rw [Session.step, Session.write, bind_eq_ok] at hstep
  obtain ⟨machine, -, heq⟩ := hstep
  cases heq
  rw [if_pos hmarker]
  refine ⟨rfl, rfl, by simp, ?_, rfl⟩
  rw [emitMarker_markers, emitMarker_text hlength hprinted]
  rfl

lemma split_name {name : Chars} (h : Proper name) : split name = [name] := by
  simpa [unsplit] using split_unsplit (List.cons_ne_nil name []) (by simpa using h.2.2.2)

/-- No temporary file is the marker file. -/
lemma pathIsMarker_tmp : pathIsMarker (k.fileIn (tmpName i)) = false := by
  rw [pathIsMarker, toList_fileIn, split_append, split_name proper_tmpName,
    List.getLast?_concat, decide_eq_false_iff_not, Option.some.injEq, toList_tmpName, toList_key]
  intro h
  have hhead := congrArg List.head? h
  rw [List.cons_append, List.head?_cons] at hhead
  revert hhead
  decide

/-- The open of a temporary file, which is then at its start. -/
lemma open_cases {m : ℕ} (hstamp : s.stamp = 10 * m + 2)
    (hstep : s.step k.process
      (.open_ (k.fileIn (tmpName (m + 1))) .writeOnly true true k.fd) = .ok s') :
    (∃ j, s'.fds k.fd = some (.file j 0 .writeOnly) ∧
      s'.disk.node (k.options.root ++ [(tmpName (m + 1)).toList]) = some (.file j)) ∧
      s'.fdIsMarker = Function.update s.fdIsMarker k.fd false ∧
      s'.fdPaths k.fd = k.toUnsafeKv.path (tmpName (m + 1)) ∧ s'.stamp = 10 * m + 4 ∧
      s'.events = s.events ++ [k.toUnsafeKv.openTmp (m + 1)] ∧ s'.markers = s.markers ∧
      s'.cas = s.cas := by
  rw [Session.step, Session.open_, bind_eq_ok] at hstep
  obtain ⟨machine, hmachine, heq⟩ := hstep
  have hloc := loc_fileIn (k := k) (proper_tmpName (i := m + 1))
  have hpath : k.process.resolve machine.disk (k.fileIn (tmpName (m + 1))) =
      k.toUnsafeKv.path (tmpName (m + 1)) := by
    rw [resolve_eq_canonical (open_exists hmachine), hloc]
    rfl
  have hfile : ∃ j, machine.fds k.fd = some (.file j 0 .writeOnly) ∧
      machine.disk.node (k.options.root ++ [(tmpName (m + 1)).toList]) = some (.file j) := by
    obtain ⟨-, -, ⟨-, -, rfl⟩ | ⟨-, hmode, -⟩ | ⟨j, hj, rfl⟩⟩ := open_eq_ok_iff.mp hmachine
    · exact ⟨s.disk.next, Function.update_self _ _ _, by rw [hloc]; simp⟩
    · exact absurd (.inl rfl) hmode
    · exact ⟨j, Function.update_self _ _ _, by rw [← hloc]; exact hj⟩
  have hmarker : ((s.issue machine).rememberPath k.process k.fd
      (k.fileIn (tmpName (m + 1)))).fdIsMarker = Function.update s.fdIsMarker k.fd false := by
    rw [rememberPath_fdIsMarker k.fd_lt, pathIsMarker_tmp, issue_fdIsMarker]
  have hcached : ((s.issue machine).rememberPath k.process k.fd
      (k.fileIn (tmpName (m + 1)))).fdPaths k.fd = k.toUnsafeKv.path (tmpName (m + 1)) := by
    rw [rememberPath_fdPaths_self k.fd_lt]
    exact hpath
  cases heq
  rw [if_neg (by simp [Session.isMarkerFd, hmarker])]
  refine ⟨by simpa using hfile, by simpa using hmarker, by simpa using hcached,
    by simp [hstamp], ?_, by simp, by simp⟩
  rw [emitEvent_events]
  simp [Session.pathFor, hcached, k.fd_lt, hstamp]
  rfl

/-- The write of a value to a file that is at its start. -/
lemma write_cases {m j : ℕ} (hm : m + 1 < 10 ^ 19) (hstamp : s.stamp = 10 * m + 4)
    (hfd : s.fds k.fd = some (.file j 0 .writeOnly)) (hmarker : s.fdIsMarker k.fd = false)
    (hpath : s.fdPaths k.fd = k.toUnsafeKv.path (tmpName (m + 1)))
    (hstep : s.step k.process (.write k.fd (value (m + 1))) = .ok s') :
    s'.disk.node = s.disk.node ∧ s'.fdIsMarker = s.fdIsMarker ∧ s'.fdPaths = s.fdPaths ∧
      s'.stamp = 10 * m + 6 ∧
      s'.events = s.events ++ [k.toUnsafeKv.writeValue (m + 1)] ∧ s'.markers = s.markers ∧
      s'.cas = (s.storePayload (k.toUnsafeKv.digest (m + 1)) (value (m + 1))).cas := by
  rw [Session.step, Session.write, bind_eq_ok] at hstep
  obtain ⟨machine, hmachine, heq⟩ := hstep
  have hoffset := writeOffset_eq hmachine hfd
  obtain ⟨j', position, access, -, -, rfl⟩ := alter_eq_ok_iff.mp hmachine
  cases heq
  rw [if_neg (by simp [Session.isMarkerFd, hmarker])]
  refine ⟨by simp; rfl, by simp, by simp, by simp [hstamp], ?_, by simp, ?_⟩
  · rw [emitWrite_events, hoffset, length_value hm]
    simp [Session.pathFor, hpath, k.fd_lt, hstamp]
    rfl
  · rw [Session.emitWrite, emitEvent_cas, storePayload_cas_congr (s := s) issue_cas]
    rfl

/-- The close of it. -/
lemma close_cases {m : ℕ} (hstamp : s.stamp = 10 * m + 6) (hmarker : s.fdIsMarker k.fd = false)
    (hpath : s.fdPaths k.fd = k.toUnsafeKv.path (tmpName (m + 1)))
    (hstep : s.step k.process (.close k.fd) = .ok s') :
    s'.disk = s.disk ∧ s'.fdIsMarker = Function.update s.fdIsMarker k.fd false ∧
      s'.stamp = 10 * m + 8 ∧ s'.events = s.events ++ [k.toUnsafeKv.closeTmp (m + 1)] ∧
      s'.markers = s.markers ∧ s'.cas = s.cas := by
  rw [Session.step, Session.close, bind_eq_ok] at hstep
  obtain ⟨machine, hmachine, heq⟩ := hstep
  have hdisk : machine.disk = s.disk := by
    rw [Machine.close] at hmachine
    split at hmachine
    · cases hmachine
    · cases hmachine
      rfl
  cases heq
  rw [if_neg (by simp [Session.isMarkerFd, hmarker])]
  refine ⟨by simpa using hdisk, forgetPath_fdIsMarker k.fd_lt, by simp [hstamp], ?_, by simp,
    by simp⟩
  rw [forgetPath_events, emitEvent_events]
  simp [Session.pathFor, hpath, k.fd_lt, hstamp]
  rfl

/-- The rename of it to the key. -/
lemma rename_cases {m j : ℕ} (hstamp : s.stamp = 10 * m + 8)
    (hfile : s.disk.node (k.options.root ++ [(tmpName (m + 1)).toList]) = some (.file j))
    (hstep : s.step k.process
      (.rename (k.fileIn (tmpName (m + 1))) (k.fileIn (key (m + 1)))) = .ok s') :
    s'.fdIsMarker = s.fdIsMarker ∧ s'.stamp = 10 * m + 10 ∧
      s'.events = s.events ++ [k.toUnsafeKv.renameTmp (m + 1)] ∧ s'.markers = s.markers ∧
      s'.cas = s.cas := by
  have hsource := loc_fileIn (k := k) (proper_tmpName (i := m + 1))
  have hdest := loc_fileIn (k := k) (proper_key (i := m + 1))
  rw [Session.step, Session.rename, bind_eq_ok] at hstep
  obtain ⟨machine, hmachine, heq⟩ := hstep
  obtain ⟨disk, hrename, rfl⟩ := onDisk_eq_ok_iff.mp hmachine
  rw [hsource, hdest, Volume.rename_file_eq_ok_iff hfile] at hrename
  obtain ⟨-, -, -, rfl⟩ := hrename
  have hthere : (s.disk.renamed (k.options.root ++ [(tmpName (m + 1)).toList])
      (k.options.root ++ [(key (m + 1)).toList])).node (k.process.loc (k.fileIn (key (m + 1)))) ≠
        none := by
    rw [hdest]
    by_cases hsame : s.disk.node (k.options.root ++ [(key (m + 1)).toList]) = some (.file j)
    · rw [Volume.renamed_of_same hfile hsame, hsame]
      exact Option.some_ne_none _
    · rw [Volume.renamed_of_ne hfile hsame]
      simp
  have hpath : k.process.resolve s.disk (k.fileIn (tmpName (m + 1))) =
      k.toUnsafeKv.path (tmpName (m + 1)) := by
    rw [resolve_eq_canonical (by rw [hsource, hfile]; exact Option.some_ne_none _), hsource]
    rfl
  have hpath2 := (resolve_eq_canonical hthere).trans (congrArg canonical hdest)
  cases heq
  refine ⟨rfl, by simp [hstamp], ?_, by simp, by simp⟩
  rw [emitEvent_events]
  simp [hpath, hpath2, hstamp]
  rfl

/-! ### The whole run -/

/-- The session between two operations, after `m` of them. -/
structure Ready (k : KvProcess) (m : ℕ) (s : Session) : Prop where
  marker : s.isMarkerFd k.markerFd = true
  stamp : s.stamp = 10 * m + 1
  events : s.events = k.toUnsafeKv.events m
  markers : s.markers = k.toUnsafeKv.markers m
  /-- Each object has the digest it is stored under. -/
  hashed : ∀ entry ∈ s.cas, k.process.sha256 entry.2 = entry.1
  stored : ∀ j, 1 ≤ j → j ≤ m → ∃ payload, (k.toUnsafeKv.digest j, payload) ∈ s.cas

/-- **One operation.** -/
lemma Ready.step {m : ℕ} (h : Ready k m s) (hm : m + 1 < 10 ^ 19)
    (hrun : (k.opCalls (m + 1)).foldlM (Session.step k.process) s = .ok s') :
    Ready k (m + 1) s' := by
  have hlength := length_texts (k := k) hm
  have hprinted := printed_texts (k := k) (i := m + 1)
  simp only [opCalls, List.foldlM_cons, List.foldlM_nil, bind_eq_ok] at hrun
  obtain ⟨s₁, hbegin, s₂, hopen, s₃, hwrite, s₄, hclose, s₅, hrename, s₆, hack, hlast⟩ := hrun
  obtain rfl : s₆ = s' := Except.ok.inj hlast
  obtain ⟨hflags₁, hstamp₁, hevents₁, hmarkers₁, hcas₁⟩ :=
    marker_cases hlength.1 hprinted.1 h.marker hbegin
  obtain ⟨⟨j, hfd, hfile⟩, hflags₂, hpath, hstamp₂, hevents₂, hmarkers₂, hcas₂⟩ :=
    open_cases (by rw [hstamp₁, h.stamp]) hopen
  have hquiet : s₂.fdIsMarker k.fd = false := by rw [hflags₂, Function.update_self]
  obtain ⟨hnodes₃, hflags₃, hpaths₃, hstamp₃, hevents₃, hmarkers₃, hcas₃⟩ :=
    write_cases hm hstamp₂ hfd hquiet hpath hwrite
  obtain ⟨hdisk₄, hflags₄, hstamp₄, hevents₄, hmarkers₄, hcas₄⟩ :=
    close_cases hstamp₃ (hflags₃ ▸ hquiet) (hpaths₃ ▸ hpath) hclose
  obtain ⟨hflags₅, hstamp₅, hevents₅, hmarkers₅, hcas₅⟩ :=
    rename_cases hstamp₄ (by rw [hdisk₄, hnodes₃, hfile]) hrename
  have hmarker₅ : s₅.isMarkerFd k.markerFd = true := by
    rw [Session.isMarkerFd, hflags₅, hflags₄, hflags₃, hflags₂, Function.update_idem,
      Function.update_of_ne k.fd_ne.symm, hflags₁]
    exact h.marker
  obtain ⟨hflags₆, hstamp₆, hevents₆, hmarkers₆, hcas₆⟩ :=
    marker_cases hlength.2 hprinted.2 hmarker₅ hack
  have hcas : s₆.cas = (s.storePayload (k.toUnsafeKv.digest (m + 1)) (value (m + 1))).cas := by
    rw [hcas₆, hcas₅, hcas₄, hcas₃]
    exact storePayload_cas_congr (hcas₂.trans hcas₁)
  refine ⟨?_, ?_, ?_, ?_, ?_, ?_⟩
  · rw [Session.isMarkerFd, hflags₆]
    exact hmarker₅
  · rw [hstamp₆, hstamp₅]
    omega
  · rw [hevents₆, hevents₅, hevents₄, hevents₃, hevents₂, hevents₁, h.events, events_succ]
    simp [opEvents]
  · rw [hmarkers₆, hmarkers₅, hmarkers₄, hmarkers₃, hmarkers₂, hmarkers₁, h.markers,
      markers_succ, hstamp₅, h.stamp]
    simp [opMarkers, UnsafeKv.stamp, toUnsafeKv]
  · intro entry hentry
    rw [hcas] at hentry
    rcases mem_of_mem_storePayload hentry with hold | rfl
    · exact h.hashed entry hold
    · rfl
  · intro j hj hjm
    rw [hcas]
    rcases Nat.lt_or_eq_of_le hjm with hlt | rfl
    · obtain ⟨payload, hpayload⟩ := h.stored j hj (Nat.lt_succ_iff.mp hlt)
      exact ⟨payload, cas_subset_storePayload hpayload⟩
    · exact exists_mem_storePayload

/-- The open of the marker file records nothing. -/
lemma ready_start {disk : Disk}
    (hopen : (Session.start disk).step k.process
      (.open_ k.markerPath .writeOnly true true k.markerFd) = .ok s) : Ready k 0 s := by
  rw [Session.step, Session.open_, bind_eq_ok] at hopen
  obtain ⟨machine, -, heq⟩ := hopen
  have hmarker : ((((Session.start disk).issue machine).rememberPath k.process k.markerFd
      k.markerPath).setFlags (openFlags .writeOnly true true)).isMarkerFd k.markerFd = true := by
    rw [Session.isMarkerFd, setFlags_fdIsMarker, rememberPath_fdIsMarker k.markerFd_lt,
      Function.update_self, k.marker_named, decide_eq_true k.markerFd_lt]
    rfl
  cases heq
  rw [if_pos hmarker]
  refine ⟨hmarker, by simp [Session.start], ?_, ?_, by simp [Session.start],
    fun j hj hj' => ?_⟩
  · rw [setFlags_events, rememberPath_events, issue_events]
    rfl
  · rw [setFlags_markers, rememberPath_markers, issue_markers]
    rfl
  · omega

/-- The close of the marker file records nothing. -/
lemma Ready.close {m : ℕ} (h : Ready k m s)
    (hclose : s.step k.process (.close k.markerFd) = .ok s') :
    s'.events = s.events ∧ s'.markers = s.markers ∧ s'.cas = s.cas := by
  rw [Session.step, Session.close, bind_eq_ok] at hclose
  obtain ⟨machine, -, heq⟩ := hclose
  cases heq
  rw [if_pos h.marker]
  exact ⟨by simp, by simp, by simp⟩

/-- The operations of a run, up to the last one. -/
lemma ops_succ : ((List.range' 1 (n + 1)).flatMap k.opCalls).foldlM (Session.step k.process) s =
    .ok s' ↔ ∃ t, ((List.range' 1 n).flatMap k.opCalls).foldlM (Session.step k.process) s = .ok t ∧
      (k.opCalls (n + 1)).foldlM (Session.step k.process) t = .ok s' := by
  rw [List.range'_1_concat, List.flatMap_append, List.flatMap_singleton, Nat.add_comm 1 n,
    List.foldlM_append, bind_eq_ok]

/-- The session after `n` operations. -/
lemma ready_ops (hn : n < 10 ^ 19) (h : Ready k 0 s)
    (hrun : ((List.range' 1 n).flatMap k.opCalls).foldlM (Session.step k.process) s = .ok s') :
    Ready k n s' := by
  induction n generalizing s' with
  | zero =>
      obtain rfl : s = s' := Except.ok.inj hrun
      exact h
  | succ n ih =>
      obtain ⟨t, hops, hlast⟩ := ops_succ.mp hrun
      exact (ih (Nat.lt_of_succ_lt hn) hops).step hn hlast

/-- **The records of a run** of `main` are its trace, and a store that keeps the
objects has its values. -/
theorem recorded {disk : Disk} {store : Store} (hn : n < 10 ^ 19)
    (hrun : (k.calls n).foldlM (Session.step k.process) (.start disk) = .ok s)
    (hstore : Shim.Keeps k.options store s.cas) :
    s.events = k.toUnsafeKv.events n ∧ s.markers = k.toUnsafeKv.markers n ∧
      k.toUnsafeKv.Stored store n := by
  simp only [calls, List.foldlM_cons, List.foldlM_append, List.foldlM_nil, bind_eq_ok] at hrun
  obtain ⟨t, hopen, t', hops, u, hclose, hlast⟩ := hrun
  obtain rfl : u = s := Except.ok.inj hlast
  have hready := ready_ops hn (ready_start hopen) hops
  obtain ⟨hevents, hmarkers, hcas⟩ := hready.close hclose
  rw [hcas] at hstore
  refine ⟨hevents.trans hready.events, hmarkers.trans hready.markers, fun i hi hin => ?_⟩
  obtain ⟨payload, hmem⟩ := hready.stored i hi hin
  exact ⟨payload, hstore _ hmem, hready.hashed _ hmem⟩

/-! ### Every call goes through -/

/-- What the next operation needs: its descriptor is free, the marker file is
open, and the directory has no directories in it. -/
structure Room (k : KvProcess) (m : Machine) : Prop where
  free : m.fds k.fd = none
  marker : ∃ j position, m.fds k.markerFd = some (.file j position .writeOnly)
  reached : ∀ q ∈ k.options.root.inits, m.disk.node q = some .dir
  names : ∀ name, m.disk.node (k.options.root ++ [name]) ≠ some .dir

/-- The directories of a machine are those of another one. -/
def SameDirs (m m' : Machine) : Prop :=
  ∀ x, m'.disk.node x = some .dir ↔ m.disk.node x = some .dir

lemma Room.reached_child {m : Machine} (h : Room k m) (name : Chars) :
    m.disk.Reached (k.options.root ++ [name]) := by
  intro q hq
  rw [Volume.way, List.dropLast_concat] at hq
  exact h.reached q hq

lemma sameDirs_open {m m' : Machine} {loc : List Chars} {access : Access} {creat trunc : Bool}
    {fd : ℕ} (h : m.open_ loc access creat trunc fd = .ok m') : SameDirs m m' := by
  intro x
  obtain ⟨-, -, ⟨hnone, -, rfl⟩ | ⟨-, -, rfl⟩ | ⟨i, -, rfl⟩⟩ := open_eq_ok_iff.mp h
  · by_cases hx : x = loc
    · subst hx
      simp [hnone]
    · simp [hx]
  · rfl
  · cases trunc <;> simp

lemma sameDirs_renamed {m : Machine} {p q : List Chars} {j : ℕ}
    (hp : m.disk.node p = some (.file j)) (hq : m.disk.node q ≠ some .dir) :
    SameDirs m ⟨m.disk.renamed p q, m.fds⟩ := by
  intro x
  by_cases hsame : m.disk.node q = some (.file j)
  · simp [Volume.renamed_of_same hp hsame]
  · simp only [Volume.renamed_of_ne hp hsame, Volume.node_move]
    split
    · rename_i hx
      subst hx
      simp [hq]
    · split
      · rename_i hx
        subst hx
        simp [hp]
      · rfl

/-- Room is left by what keeps the directories and the descriptors. -/
lemma Room.of_sameDirs {m m' : Machine} (h : Room k m) (hdirs : SameDirs m m')
    (hfree : m'.fds k.fd = none) (hmarker : m'.fds k.markerFd = m.fds k.markerFd) : Room k m' where
  free := hfree
  marker := by
    rw [hmarker]
    exact h.marker
  reached := fun q hq => (hdirs q).mpr (h.reached q hq)
  names := fun name hdir => h.names name ((hdirs _).mp hdir)

/-- A marker. -/
lemma Room.write (h : Room k s.toMachine) (bytes : List UInt8) :
    ∃ s', s.step k.process (.write k.markerFd bytes) = .ok s' ∧ Room k s'.toMachine := by
  obtain ⟨j, position, hfd⟩ := h.marker
  obtain ⟨s', hstep, hnode, hfds⟩ := taken_write (p := k.process) bytes hfd (by simp)
  refine ⟨s', hstep, ?_, ⟨j, position + bytes.length, ?_⟩, ?_, ?_⟩
  · rw [hfds, Function.update_of_ne k.fd_ne]
    exact h.free
  · rw [hfds, Function.update_self]
  · rw [hnode]
    exact h.reached
  · rw [hnode]
    exact h.names

/-- A file is opened where there is no directory. -/
lemma exists_open_file {m : Machine} {loc : List Chars} {n : ℕ} (hfree : m.fds n = none)
    (hreached : m.disk.Reached loc) (hdir : m.disk.node loc ≠ some .dir) : ∃ j m',
      m.open_ loc .writeOnly true true n = .ok m' ∧
        m'.fds = Function.update m.fds n (some (.file j 0 .writeOnly)) ∧
        m'.disk.node loc = some (.file j) := by
  cases hnode : m.disk.node loc with
  | none =>
      exact ⟨_, _, open_eq_ok_iff.mpr ⟨hfree, hreached, .inl ⟨hnode, rfl, rfl⟩⟩, rfl, by simp⟩
  | some node =>
      cases node with
      | dir => exact absurd hnode hdir
      | file j =>
          exact ⟨j, _, open_eq_ok_iff.mpr ⟨hfree, hreached, .inr (.inr ⟨j, hnode, rfl⟩)⟩, rfl,
            by simp [hnode]⟩

/-- The open of a temporary file. -/
lemma Room.open_ (h : Room k s.toMachine) (i : ℕ) : ∃ s' j,
    s.step k.process (.open_ (k.fileIn (tmpName i)) .writeOnly true true k.fd) = .ok s' ∧
      SameDirs s.toMachine s'.toMachine ∧
      s'.fds = Function.update s.fds k.fd (some (.file j 0 .writeOnly)) ∧
      s'.disk.node (k.options.root ++ [(tmpName i).toList]) = some (.file j) := by
  have hloc := loc_fileIn (k := k) (proper_tmpName (i := i))
  have hreached := h.reached_child (tmpName i).toList
  have hname := h.names (tmpName i).toList
  rw [← hloc] at hreached hname ⊢
  obtain ⟨j, machine, hok, hfds, hnode⟩ := exists_open_file h.free hreached hname
  obtain ⟨s', hstep, rfl⟩ := taken_open (p := k.process) hok
  exact ⟨s', j, hstep, sameDirs_open hok, hfds, hnode⟩

/-- Every operation goes through, and leaves the room for the next one. -/
lemma Room.step (h : Room k s.toMachine) (i : ℕ) :
    ∃ s', (k.opCalls i).foldlM (Session.step k.process) s = .ok s' ∧ Room k s'.toMachine := by
  obtain ⟨s₁, hbegin, hroom₁⟩ := h.write (markerBytes (beginText i))
  obtain ⟨s₂, j, hopen, hdirs₂, hfds₂, hfile₂⟩ := hroom₁.open_ i
  obtain ⟨s₃, hwrite, hnode₃, hfds₃⟩ := taken_write (p := k.process) (value i)
    (by rw [hfds₂, Function.update_self]) (by simp)
  have hopen₃ : s₃.fds k.fd ≠ none := by
    rw [hfds₃, Function.update_self]
    exact Option.some_ne_none _
  obtain ⟨s₄, hclose, hdisk₄, hfds₄⟩ := taken_close (p := k.process) hopen₃
  have hdirs₄ : SameDirs s₁.toMachine s₄.toMachine := fun x => by
    rw [hdisk₄, hnode₃]
    exact hdirs₂ x
  have hfds : s₄.fds = Function.update s₁.fds k.fd none := by
    rw [hfds₄, hfds₃, hfds₂, Function.update_idem, Function.update_idem]
  have hroom₄ : Room k s₄.toMachine := hroom₁.of_sameDirs hdirs₄
    (by rw [hfds, Function.update_self]) (by rw [hfds, Function.update_of_ne k.fd_ne.symm])
  have hfile₄ : s₄.disk.node (k.options.root ++ [(tmpName i).toList]) = some (.file j) := by
    rw [hdisk₄, hnode₃, hfile₂]
  have hkey := hroom₄.names (key i).toList
  have hrename := (Volume.rename_file_eq_ok_iff hfile₄).mpr
    ⟨hroom₄.reached_child _, hroom₄.reached_child _, hkey, rfl⟩
  rw [← loc_fileIn proper_tmpName, ← loc_fileIn proper_key] at hrename
  obtain ⟨s₅, hrenamed, hmachine₅⟩ := taken_rename hrename
  have hroom₅ : Room k s₅.toMachine := by
    rw [hmachine₅, loc_fileIn proper_tmpName, loc_fileIn proper_key]
    exact hroom₄.of_sameDirs (sameDirs_renamed hfile₄ hkey) hroom₄.free rfl
  obtain ⟨s₆, hack, hroom₆⟩ := hroom₅.write (markerBytes (k.toUnsafeKv.ackText i))
  refine ⟨s₆, ?_, hroom₆⟩
  simp only [opCalls, List.foldlM_cons, List.foldlM_nil, bind_eq_ok]
  exact ⟨s₁, hbegin, s₂, hopen, s₃, hwrite, s₄, hclose, s₅, hrenamed, s₆, hack, rfl⟩

/-- Where the store can start. -/
structure Installed (k : KvProcess) (disk : Disk) : Prop where
  reached : ∀ q ∈ k.options.root.inits, disk.node q = some .dir
  names : ∀ name, disk.node (k.options.root ++ [name]) ≠ some .dir
  marker_reached : disk.Reached (k.process.loc k.markerPath)
  marker_free : disk.node (k.process.loc k.markerPath) ≠ some .dir

/-- The open of the marker file. -/
lemma Installed.open_ {disk : Disk} (h : Installed k disk) :
    ∃ s, (Session.start disk).step k.process
      (.open_ k.markerPath .writeOnly true true k.markerFd) = .ok s ∧ Room k s.toMachine := by
  have hfree : (Session.start disk).fds k.markerFd = none := rfl
  obtain ⟨j, machine, hok, hfds, -⟩ := exists_open_file hfree h.marker_reached h.marker_free
  obtain ⟨s, hstep, rfl⟩ := taken_open (p := k.process) hok
  have hdirs := sameDirs_open hok
  exact ⟨s, hstep, by rw [hfds, Function.update_of_ne k.fd_ne]; rfl,
    ⟨j, 0, by rw [hfds, Function.update_self]⟩,
    fun q hq => (hdirs q).mpr (h.reached q hq), fun name hdir => h.names name ((hdirs _).mp hdir)⟩

/-- **A run of `main` comes to its end.** -/
theorem exists_run {disk : Disk} (h : Installed k disk) (n : ℕ) :
    ∃ s, (k.calls n).foldlM (Session.step k.process) (.start disk) = .ok s := by
  obtain ⟨t, hopen, hroom⟩ := h.open_
  have hops : ∃ s, ((List.range' 1 n).flatMap k.opCalls).foldlM (Session.step k.process) t =
      .ok s ∧ Room k s.toMachine := by
    induction n with
    | zero => exact ⟨t, rfl, hroom⟩
    | succ n ih =>
        obtain ⟨s, hrun, hs⟩ := ih
        obtain ⟨s', hstep, hs'⟩ := hs.step (n + 1)
        exact ⟨s', ops_succ.mpr ⟨s, hrun, hstep⟩, hs'⟩
  obtain ⟨s, hrun, hs⟩ := hops
  obtain ⟨j, position, hfd⟩ := hs.marker
  have hsome : s.fds k.markerFd ≠ none := by
    rw [hfd]
    exact Option.some_ne_none _
  obtain ⟨u, hclose, -⟩ := taken_close (p := k.process) hsome
  refine ⟨u, ?_⟩
  simp only [calls, List.foldlM_cons, List.foldlM_append, List.foldlM_nil, bind_eq_ok]
  exact ⟨t, hopen, s, hrun, u, hclose, rfl⟩

/-- The store in `/live`. -/
def liveKv : KvProcess where
  process := ⟨7, 7, "/", fun _ => String.ofList (List.replicate 64 '0'), fun _ => 0⟩
  options := liveOptions
  cwd_eq := rfl
  dir_ne := by decide
  dir_fits := by decide
  markerPath := "/live/crashfuzz.marker"
  marker_named := by decide
  markerFd := 3
  fd := 4
  fd_ne := by decide
  fd_lt := by decide
  markerFd_lt := by decide
  length_digest := fun _ => by rw [String.toList_ofList, List.length_replicate]
  hex_digest := fun _ c hc => by
    rw [String.toList_ofList] at hc
    rw [List.eq_of_mem_replicate hc]
    decide

/-- It runs in an empty directory. -/
example : ∃ s, (liveKv.calls n).foldlM (Session.step liveKv.process)
    (.start (freshDisk "live".toList)) = .ok s := by
  have hempty := emptyDir_freshDisk "live".toList
  have hroot : liveKv.options.root = ["live".toList] := by decide
  have hloc : liveKv.process.loc liveKv.markerPath =
      ["live".toList, markerBasename.toList] := by decide
  have hreached : ∀ q ∈ ["live".toList].inits, (freshDisk "live".toList).node q = some .dir := by
    decide
  refine exists_run ⟨?_, fun name => ?_, ?_, ?_⟩ n
  · rwa [hroot]
  · rw [hroot, hempty.empty [name] (by simp)]
    exact (Option.some_ne_none _).symm
  · rw [hloc]
    exact hreached
  · rw [hloc]
    decide

end KvProcess

end CrashFuzz
