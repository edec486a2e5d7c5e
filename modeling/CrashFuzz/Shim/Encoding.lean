import CrashFuzz.Shim.TraceText
import CrashFuzz.Trace.ReadLine

/-!
The encoder of the interposer against the decoder of the reader.

* `headOf`, `tailOf`: the members around the free texts of a record.
* `readLine_event`, `readLine_marker`: what needs no escapes is read as it was
  printed.
* `plain_of_parse`, `plain_of_parse_marker`: nothing else is.
* `agrees_iff`: the traces of records that fit their buffers are read as they
  were recorded exactly when their texts need no escapes.
-/

namespace CrashFuzz.Shim

open Json
open Decimal (integerChars toList_toString_int toList_toString_nat)

/-! ### The layout of a record -/

/-- What an event says before its paths. -/
def headOf (e : TraceEvent) : List (String × Scalar) :=
  [("i", .integer e.index), ("j", .integer e.completionIndex),
    ("call", .text (callText e.call).toList), ("fd", .integer e.fd), ("tid", .integer e.threadId)]

/-- What it says after them, up to the digest. -/
def tailOf (line : Line) (e : TraceEvent) : List (String × Scalar) :=
  [("off", .integer e.offset), ("len", .integer e.length), ("ret", .integer e.returnValue),
    ("err", .integer e.errno), ("flags", .integer line.flags), ("t", .integer line.time)]

/-- The fields of a list, one after the other. -/
def fieldsOf (fields : List (String × Scalar)) : List Char :=
  fields.flatMap fun f => field f.1 f.2

/-- A name and its colon. -/
def nameChars (name : String) : List Char := '"' :: name.toList ++ ['"', ':']

lemma Line.chars_event {line : Line} {e : TraceEvent} (h : line.record = .event e) :
    line.chars = '\x7b' :: field "rec" (.text "event".toList) ++ fieldsOf (headOf e) ++
      (nameChars "path" ++ '"' :: e.path.toList) ++ ('"' :: ',' :: nameChars "path2") ++
      ('"' :: e.path2.toList) ++ ['"', ','] ++ fieldsOf (tailOf line e) ++
      (nameChars "dig" ++ ('"' :: e.digest.toList ++ ['"']) ++ ['\x7d']) := by
  simp only [Line.chars, Line.pieces, h, fieldsOf, headOf, tailOf, List.flatMap_cons,
    List.flatMap_nil, field, nameChars, Scalar.chars, toList_toString_nat, toList_toString_int,
    List.append_assoc, List.cons_append, List.append_nil, List.nil_append]
  rfl

lemma Line.chars_marker {line : Line} {m : TraceMarker} (h : line.record = .marker m) :
    line.chars = '\x7b' :: field "rec" (.text "marker".toList) ++
      fieldsOf [("i", .integer m.index), ("tid", .integer m.threadId)] ++
      (nameChars "text" ++ '"' :: m.text.toList) ++ ['"', '\x7d'] := by
  simp only [Line.chars, Line.pieces, h, fieldsOf, List.flatMap_cons,
    List.flatMap_nil, field, nameChars, Scalar.chars, toList_toString_nat, toList_toString_int,
    List.append_assoc, List.cons_append, List.append_nil, List.nil_append]
  rfl

/-! ### Reading plain records -/

lemma asInteger_integer {n : ℤ} (h : n.natAbs ≤ 2 ^ 53) :
    asInteger (Scalar.integer n).value = some n := by
  rw [Scalar.value, Binary64.round_intCast h, asInteger, if_pos (Rat.den_intCast n),
    Rat.num_intCast]

lemma asNatural_integer {n : ℕ} (h : n ≤ 2 ^ 53) :
    asNatural (Scalar.integer n).value = some n := by
  rw [asNatural, asInteger_integer (by simpa using h)]
  rfl

lemma charOfCode_toNat (c : Char) : charOfCode c.toNat = some c := by
  have hvalid : c.toNat.isValidChar := c.valid
  rw [charOfCode, dif_pos hvalid]
  exact congrArg some (Char.ext (UInt32.ofNatLT_toNat c.val))

lemma asString_text (cs : List Char) :
    asString (Scalar.text cs).value = some (String.ofList cs) := by
  have hcodes : (codesOf cs).mapM charOfCode = some cs := by
    induction cs with
    | nil => rfl
    | cons c cs ih =>
        rw [codesOf] at ih ⊢
        rw [List.map_cons, List.mapM_cons, charOfCode_toNat, ih]
        rfl
  rw [Scalar.value, asString, textOfCodes, hcodes, Option.map_some]

lemma asString_toList (text : String) : asString (Scalar.text text.toList).value = some text := by
  rw [asString_text, String.ofList_toList]

lemma asCallName_callText (call : CallName) :
    asCallName (Scalar.text (callText call).toList).value = some call := by
  rw [asCallName, asString_toList]
  cases call <;> rfl

lemma plain_callText (call : CallName) : Plain (callText call).toList := by
  cases call <;> decide

/-- The parser within the first path of an event. -/
def inPath (e : TraceEvent) : State :=
  ⟨[.member (membersOf (("rec", .text "event".toList) :: headOf e)) (keyOf "path")], .string []⟩

lemma run_head (e : TraceEvent) :
    run ⟨[], .value false⟩ ('\x7b' :: field "rec" (.text "event".toList) ++ fieldsOf (headOf e) ++
      (nameChars "path" ++ ['"'])) = some (inPath e) := by
  have hopen : step ⟨[], .value false⟩ '\x7b' = some ⟨[.object []], .key true⟩ := rfl
  have hhead : ∀ f ∈ headOf e, Plain f.1.toList ∧ f.2.Readable := by
    simp only [headOf, List.forall_mem_cons, Scalar.Readable, plain_callText, and_true,
      List.not_mem_nil, false_imp_iff, implies_true]
    decide
  have hrec : (Scalar.text "event".toList).Readable := show Plain _ by decide
  rw [List.cons_append, List.cons_append, run_cons, hopen, Option.bind_some, run_append, run_append,
    run_field (by decide) hrec, Option.bind_some, fieldsOf, run_fields hhead, Option.bind_some,
    nameChars, run_append, run_name (by decide)]
  rfl

lemma run_tail {members : List (List ℕ × Value)} {key codes : List ℕ} {rest : List Frame}
    (line : Line) (e : TraceEvent) (hdigest : Plain e.digest.toList) :
    run ⟨.member members key :: rest, .string codes⟩ (['"', ','] ++ fieldsOf (tailOf line e) ++
        (nameChars "dig" ++ ('"' :: e.digest.toList ++ ['"']) ++ ['\x7d'])) =
      some (complete rest (.object ((keyOf "dig", .string (codesOf e.digest.toList)) ::
        (membersOf (tailOf line e) ++ (key, .string codes.reverse) :: members)))) := by
  have hclose : run ⟨.member members key :: rest, .string codes⟩ ['"', ','] =
      some ⟨.object ((key, .string codes.reverse) :: members) :: rest, .key false⟩ := rfl
  have htail : ∀ f ∈ tailOf line e, Plain f.1.toList ∧ f.2.Readable := by
    simp only [tailOf, List.forall_mem_cons, Scalar.Readable, and_true, List.not_mem_nil,
      false_imp_iff, implies_true]
    decide
  rw [run_append, run_append, hclose, Option.bind_some, fieldsOf, run_fields htail,
    Option.bind_some, nameChars, run_last (by decide) hdigest]

/-- The members of an event whose paths need no escapes, the last one first. -/
def eventMembers (line : Line) (e : TraceEvent) : List (List ℕ × Value) :=
  [(keyOf "dig", (Scalar.text e.digest.toList).value),
    (keyOf "t", (Scalar.integer line.time).value),
    (keyOf "flags", (Scalar.integer line.flags).value),
    (keyOf "err", (Scalar.integer e.errno).value),
    (keyOf "ret", (Scalar.integer e.returnValue).value),
    (keyOf "len", (Scalar.integer e.length).value),
    (keyOf "off", (Scalar.integer e.offset).value),
    (keyOf "path2", (Scalar.text e.path2.toList).value),
    (keyOf "path", (Scalar.text e.path.toList).value),
    (keyOf "tid", (Scalar.integer e.threadId).value),
    (keyOf "fd", (Scalar.integer e.fd).value),
    (keyOf "call", (Scalar.text (callText e.call).toList).value),
    (keyOf "j", (Scalar.integer e.completionIndex).value),
    (keyOf "i", (Scalar.integer e.index).value),
    (keyOf "rec", (Scalar.text "event".toList).value)]

/-- The characters of an event around its paths. -/
lemma Line.chars_event_split {line : Line} {e : TraceEvent} (h : line.record = .event e) :
    line.chars = ('\x7b' :: field "rec" (.text "event".toList) ++ fieldsOf (headOf e) ++
      (nameChars "path" ++ ['"'])) ++
      (e.path.toList ++ ('"' :: ',' :: (nameChars "path2" ++ ['"']) ++
      (e.path2.toList ++ (['"', ','] ++ fieldsOf (tailOf line e) ++
        (nameChars "dig" ++ ('"' :: e.digest.toList ++ ['"']) ++ ['\x7d']))))) := by
  simp [Line.chars_event h]

lemma parse_event {line : Line} {e : TraceEvent} (h : line.record = .event e)
    (hpath : Plain e.path.toList) (hpath2 : Plain e.path2.toList)
    (hdigest : Plain e.digest.toList) :
    parse line.chars = some (.object (eventMembers line e)) := by
  have hrun : run ⟨[], .value false⟩ line.chars =
      some (complete [] (.object (eventMembers line e))) := by
    rw [Line.chars_event_split h, run_append, run_head, Option.bind_some, run_append, inPath,
      run_plain hpath,
      Option.bind_some, run_append, nameChars, run_next_text (by decide), Option.bind_some,
      run_append, run_plain hpath2, Option.bind_some, run_tail line e hdigest]
    rw [codesOf_reverse_append, codesOf_reverse_append]
    rfl
  rw [parse, hrun]
  rfl

/-- The numbers of an event are exact in JavaScript. -/
def ExactEvent (e : TraceEvent) : Prop :=
  e.index ≤ 2 ^ 53 ∧ e.completionIndex ≤ 2 ^ 53 ∧ e.fd.natAbs ≤ 2 ^ 53 ∧
    e.threadId.natAbs ≤ 2 ^ 53 ∧ e.offset.natAbs ≤ 2 ^ 53 ∧ e.length ≤ 2 ^ 53 ∧
    e.returnValue.natAbs ≤ 2 ^ 53 ∧ e.errno.natAbs ≤ 2 ^ 53

lemma toEvent_eventMembers {line : Line} {e : TraceEvent} (h : ExactEvent e) :
    toEvent (eventMembers line e) = some e := by
  obtain ⟨hi, hj, hfd, htid, hoff, hlen, hret, herr⟩ := h
  have hindex : (property (eventMembers line e) "i").bind asNatural = some e.index :=
    asNatural_integer hi
  have hcompletion : (property (eventMembers line e) "j").bind asNatural =
      some e.completionIndex := asNatural_integer hj
  have hcall : (property (eventMembers line e) "call").bind asCallName = some e.call :=
    asCallName_callText e.call
  have hfd' : (property (eventMembers line e) "fd").bind asInteger = some e.fd :=
    asInteger_integer hfd
  have hthread : (property (eventMembers line e) "tid").bind asInteger = some e.threadId :=
    asInteger_integer htid
  have hpath : (property (eventMembers line e) "path").bind asString = some e.path :=
    asString_toList e.path
  have hpath2 : (property (eventMembers line e) "path2").bind asString = some e.path2 :=
    asString_toList e.path2
  have hoffset : (property (eventMembers line e) "off").bind asInteger = some e.offset :=
    asInteger_integer hoff
  have hlength : (property (eventMembers line e) "len").bind asNatural = some e.length :=
    asNatural_integer hlen
  have hreturn : (property (eventMembers line e) "ret").bind asInteger = some e.returnValue :=
    asInteger_integer hret
  have herrno : (property (eventMembers line e) "err").bind asInteger = some e.errno :=
    asInteger_integer herr
  have hdigest : (property (eventMembers line e) "dig").bind asString = some e.digest :=
    asString_toList e.digest
  rw [toEvent, hindex, hcompletion, hcall, hfd', hthread, hpath, hpath2, hoffset, hlength, hreturn,
    herrno, hdigest]
  rfl

/-- What is read of an event whose texts need no escapes. -/
lemma readLine_event {line : Line} {e : TraceEvent} (h : line.record = .event e)
    (hexact : ExactEvent e) (hpath : Plain e.path.toList) (hpath2 : Plain e.path2.toList)
    (hdigest : Plain e.digest.toList) : readLine line.text = .ok (.event e) := by
  have hrec : (property (eventMembers line e) "rec").bind asString = some "event" :=
    asString_toList "event"
  rw [readLine, Line.toList_text, parse_event h hpath hpath2 hdigest]
  simp only [toRecord, hrec, toEvent_eventMembers hexact]
  rfl

/-- The numbers of a marker are exact in JavaScript. -/
def ExactMarker (m : TraceMarker) : Prop := m.index ≤ 2 ^ 53 ∧ m.threadId.natAbs ≤ 2 ^ 53

/-- The members of a marker whose text needs no escapes, the last one first. -/
def markerMembers (m : TraceMarker) : List (List ℕ × Value) :=
  [(keyOf "text", (Scalar.text m.text.toList).value),
    (keyOf "tid", (Scalar.integer m.threadId).value),
    (keyOf "i", (Scalar.integer m.index).value), (keyOf "rec", (Scalar.text "marker".toList).value)]

/-- The parser within the text of a marker. -/
def inText (m : TraceMarker) : State :=
  ⟨[.member (membersOf [("rec", .text "marker".toList), ("i", .integer m.index),
    ("tid", .integer m.threadId)]) (keyOf "text")], .string []⟩

lemma run_marker (m : TraceMarker) :
    run ⟨[], .value false⟩ ('\x7b' :: field "rec" (.text "marker".toList) ++
      fieldsOf [("i", .integer m.index), ("tid", .integer m.threadId)] ++
      (nameChars "text" ++ ['"'])) = some (inText m) := by
  have hopen : step ⟨[], .value false⟩ '\x7b' = some ⟨[.object []], .key true⟩ := rfl
  have hrec : (Scalar.text "marker".toList).Readable := show Plain _ by decide
  have hfields : ∀ f ∈ [("i", Scalar.integer m.index), ("tid", Scalar.integer m.threadId)],
      Plain f.1.toList ∧ f.2.Readable := by
    simp only [List.forall_mem_cons, Scalar.Readable, and_true, List.not_mem_nil, false_imp_iff,
      implies_true]
    decide
  rw [List.cons_append, List.cons_append, run_cons, hopen, Option.bind_some, run_append, run_append,
    run_field (by decide) hrec, Option.bind_some, fieldsOf, run_fields hfields, Option.bind_some,
    nameChars, run_append, run_name (by decide)]
  rfl

/-- The characters of a marker around its text. -/
lemma Line.chars_marker_split {line : Line} {m : TraceMarker} (h : line.record = .marker m) :
    line.chars = ('\x7b' :: field "rec" (.text "marker".toList) ++
      fieldsOf [("i", .integer m.index), ("tid", .integer m.threadId)] ++
      (nameChars "text" ++ ['"'])) ++ (m.text.toList ++ ['"', '\x7d']) := by
  simp [Line.chars_marker h]

lemma parse_marker {line : Line} {m : TraceMarker} (h : line.record = .marker m)
    (htext : Plain m.text.toList) : parse line.chars = some (.object (markerMembers m)) := by
  have hrun : run ⟨[], .value false⟩ line.chars =
      some (complete [] (.object (markerMembers m))) := by
    rw [Line.chars_marker_split h, run_append, run_marker, Option.bind_some, run_append, inText,
      run_plain htext,
      Option.bind_some, run_cons, step_quote, closeString_member, codesOf_reverse_append]
    rfl
  rw [parse, hrun]
  rfl

/-- What is read of a marker whose text needs no escapes. -/
lemma readLine_marker {line : Line} {m : TraceMarker} (h : line.record = .marker m)
    (hexact : ExactMarker m) (htext : Plain m.text.toList) :
    readLine line.text = .ok (.marker m) := by
  obtain ⟨hi, htid⟩ := hexact
  have hrec : (property (markerMembers m) "rec").bind asString = some "marker" :=
    asString_toList "marker"
  have hindex : (property (markerMembers m) "i").bind asNatural = some m.index :=
    asNatural_integer hi
  have hthread : (property (markerMembers m) "tid").bind asInteger = some m.threadId :=
    asInteger_integer htid
  have htext' : (property (markerMembers m) "text").bind asString = some m.text :=
    asString_toList m.text
  have hmarker : toMarker (markerMembers m) = some m := by
    rw [toMarker, hindex, hthread, htext']
    rfl
  rw [readLine, Line.toList_text, parse_marker h htext]
  simp only [toRecord, hrec, hmarker]
  rfl

/-- The members of a header, the last one first. -/
def headerMembers (p : Process) : List (List ℕ × Value) :=
  [(keyOf "pid", (Scalar.integer p.pid).value),
    (keyOf "v", (Scalar.integer (traceVersion : ℕ)).value),
    (keyOf "rec", (Scalar.text "header".toList).value)]

lemma parse_header (p : Process) :
    parse (headerLine p).chars = some (.object (headerMembers p)) := by
  have hopen : step ⟨[], .value false⟩ '\x7b' = some ⟨[.object []], .key true⟩ := rfl
  have hrec : (Scalar.text "header".toList).Readable := show Plain _ by decide
  have hversion : (Scalar.integer (traceVersion : ℕ)).Readable := trivial
  have hsplit : (headerLine p).chars = '\x7b' :: (field "rec" (.text "header".toList) ++
      (field "v" (.integer (traceVersion : ℕ)) ++
        (nameChars "pid" ++ (integerChars p.pid ++ ['\x7d'])))) := by
    simp only [Line.chars, Line.pieces, headerLine, List.flatMap_cons, List.flatMap_nil, field,
      nameChars, Scalar.chars, toList_toString_nat, toList_toString_int, List.append_assoc,
      List.cons_append, List.append_nil, List.nil_append]
    rfl
  rw [parse, hsplit, run_cons, hopen, Option.bind_some, run_append, run_field (by decide) hrec,
    Option.bind_some, run_append, run_field (by decide) hversion, Option.bind_some, run_append,
    nameChars, run_name (by decide), Option.bind_some, run_integer _ _ (by decide)]
  rfl

/-- What is read of a header. -/
lemma readLine_header (p : Process) (hpid : p.pid.natAbs ≤ 2 ^ 53) :
    readLine (headerLine p).text = .ok (.header ⟨traceVersion, p.pid⟩) := by
  have hrec : (property (headerMembers p) "rec").bind asString = some "header" :=
    asString_toList "header"
  have hversion : (property (headerMembers p) "v").bind asNatural = some traceVersion :=
    asNatural_integer (by decide)
  have hpid' : (property (headerMembers p) "pid").bind asInteger = some p.pid :=
    asInteger_integer hpid
  have hheader : toHeader (headerMembers p) = some ⟨traceVersion, p.pid⟩ := by
    rw [toHeader, hversion, hpid']
    rfl
  rw [readLine, Line.toList_text, parse_header]
  simp only [toRecord, hrec, hheader]
  rfl

/-! ### Texts that are not plain -/

/-- A text of as many characters. -/
lemma length_of_asString {codes : List ℕ} {text : String}
    (h : asString (.string codes) = some text) : codes.length = text.toList.length := by
  have hlength : ∀ {codes : List ℕ} {cs : List Char}, codes.mapM charOfCode = some cs →
      codes.length = cs.length := by
    intro codes
    induction codes with
    | nil =>
        rintro cs ⟨⟩
        rfl
    | cons code codes ih =>
        intro cs hcs
        rw [List.mapM_cons] at hcs
        obtain ⟨c, -, hcs⟩ := Option.bind_eq_some_iff.mp hcs
        obtain ⟨cs', htail, hcs⟩ := Option.bind_eq_some_iff.mp hcs
        rw [← Option.some.inj hcs, List.length_cons, List.length_cons, ih htail]
  obtain ⟨cs, hcs, rfl⟩ := Option.map_eq_some_iff.mp h
  rw [hlength hcs, String.toList_ofList]

/-- A property that is read as a text comes from a member that is a string. -/
lemma exists_codes_of_property {members : List (List ℕ × Value)} {name text : String}
    (h : (property members name).bind asString = some text) :
    ∃ codes, (keyOf name, Value.string codes) ∈ members ∧
      codes.length = text.toList.length := by
  obtain ⟨v, hv, htext⟩ := Option.bind_eq_some_iff.mp h
  cases v with
  | string codes =>
      obtain ⟨l₁, l₂, rfl, -⟩ := List.lookup_eq_some_iff.mp hv
      exact ⟨codes, by simp, length_of_asString htext⟩
  | _ => cases htext

/-- The text properties of an event. -/
lemma paths_of_toEvent {members : List (List ℕ × Value)} {e : TraceEvent}
    (h : toEvent members = some e) :
    (property members "path").bind asString = some e.path ∧
      (property members "path2").bind asString = some e.path2 := by
  rw [toEvent] at h
  obtain ⟨_, -, h⟩ := Option.bind_eq_some_iff.mp h
  obtain ⟨_, -, h⟩ := Option.bind_eq_some_iff.mp h
  obtain ⟨_, -, h⟩ := Option.bind_eq_some_iff.mp h
  obtain ⟨_, -, h⟩ := Option.bind_eq_some_iff.mp h
  obtain ⟨_, -, h⟩ := Option.bind_eq_some_iff.mp h
  obtain ⟨path, hpath, h⟩ := Option.bind_eq_some_iff.mp h
  obtain ⟨path2, hpath2, h⟩ := Option.bind_eq_some_iff.mp h
  obtain ⟨_, -, h⟩ := Option.bind_eq_some_iff.mp h
  obtain ⟨_, -, h⟩ := Option.bind_eq_some_iff.mp h
  obtain ⟨_, -, h⟩ := Option.bind_eq_some_iff.mp h
  obtain ⟨_, -, h⟩ := Option.bind_eq_some_iff.mp h
  obtain ⟨_, -, h⟩ := Option.bind_eq_some_iff.mp h
  cases Option.some.inj h
  exact ⟨hpath, hpath2⟩

lemma length_pos_of_not_plain {cs : List Char} (h : ¬ Plain cs) : 0 < cs.length := by
  refine List.length_pos_iff.mpr ?_
  rintro rfl
  exact h nofun

/-- Before the paths, no member is one. -/
lemma confined_inPath (e : TraceEvent) {name : String} (hname : name = "path" ∨ name = "path2")
    (bound : ℕ) : Confined (keyOf name) bound 0 (inPath e) := by
  refine ⟨?_, le_rfl⟩
  intro f hf codes hmem
  rw [List.mem_singleton.mp hf] at hmem
  rcases hname with rfl | rfl <;>
    simp [Frame.members, membersOf, headOf, keyOf, codesOf] at hmem

/-- After them neither. -/
lemma mem_of_mem_tail {line : Line} {e : TraceEvent} {name : String}
    (hname : name = "path" ∨ name = "path2") {v w : Value} {members : List (List ℕ × Value)}
    (h : (keyOf name, v) ∈ (keyOf "dig", w) :: (membersOf (tailOf line e) ++ members)) :
    (keyOf name, v) ∈ members := by
  rcases hname with rfl | rfl <;>
    simpa [membersOf, tailOf, keyOf, codesOf] using h

/-- How an event is read whatever its paths are: both paths end where they
should, but what was read until then need not be them. -/
lemma exists_states_of_parse {line : Line} {e : TraceEvent} (h : line.record = .event e)
    (hdigest : Plain e.digest.toList) {ms : List (List ℕ × Value)}
    (hparse : parse line.chars = some (.object ms)) :
    ∃ m₁ k₁ r₁ c₁ m₂ k₂ c₂ w,
      run (inPath e) e.path.toList = some ⟨.member m₁ k₁ :: r₁, .string c₁⟩ ∧
      run ⟨.member ((k₁, .string c₁.reverse) :: m₁) (keyOf "path2") :: r₁, .string []⟩
        e.path2.toList = some ⟨[.member m₂ k₂], .string c₂⟩ ∧
      ms = (keyOf "dig", w) :: (membersOf (tailOf line e) ++ (k₂, .string c₂.reverse) :: m₂) := by
  obtain ⟨s, hrun, hfinish⟩ := Option.bind_eq_some_iff.mp hparse
  rw [Line.chars_event_split h, run_append, run_head, Option.bind_some, run_append] at hrun
  obtain ⟨s₁, hfirst, hrun⟩ := Option.bind_eq_some_iff.mp hrun
  obtain ⟨m₁, k₁, r₁, c₁, rfl⟩ :=
    of_run_next_name 'p' "ath2".toList (by decide) (by decide) hrun
  rw [run_append, nameChars, run_next_text (by decide), Option.bind_some, run_append] at hrun
  obtain ⟨s₂, hsecond, hrun⟩ := Option.bind_eq_some_iff.mp hrun
  have hoff : ∃ cs, ['"', ','] ++ fieldsOf (tailOf line e) ++
      (nameChars "dig" ++ ('"' :: e.digest.toList ++ ['"']) ++ ['\x7d']) =
        '"' :: ',' :: '"' :: 'o' :: "ff".toList ++ ['"', ':'] ++ cs := by
    simp [fieldsOf, tailOf, field]
  obtain ⟨cs, hcs⟩ := hoff
  obtain ⟨m₂, k₂, r₂, c₂, rfl⟩ :=
    of_run_next_name 'o' "ff".toList (by decide) (by decide) (hcs ▸ hrun)
  rw [run_tail line e hdigest] at hrun
  obtain ⟨rfl, hms⟩ := finish_complete (Option.some.inj hrun ▸ hfinish)
  exact ⟨m₁, k₁, r₁, c₁, m₂, k₂, c₂, _, hfirst, hsecond, Value.object.inj hms⟩

/-- **What is read as itself is plain**, for an event. -/
lemma plain_of_parse {line : Line} {e : TraceEvent} (h : line.record = .event e)
    (hdigest : Plain e.digest.toList) {ms : List (List ℕ × Value)}
    (hparse : parse line.chars = some (.object ms)) (hevent : toEvent ms = some e) :
    Plain e.path.toList ∧ Plain e.path2.toList := by
  obtain ⟨m₁, k₁, r₁, c₁, m₂, k₂, c₂, w, hfirst, hsecond, rfl⟩ :=
    exists_states_of_parse h hdigest hparse
  obtain ⟨hpath, hpath2⟩ := paths_of_toEvent hevent
  obtain ⟨codes, hmem, hlen⟩ := exists_codes_of_property hpath
  obtain ⟨codes2, hmem2, hlen2⟩ := exists_codes_of_property hpath2
  replace hmem := mem_of_mem_tail (.inl rfl) hmem
  replace hmem2 := mem_of_mem_tail (.inr rfl) hmem2
  have hne : keyOf "path" ≠ keyOf "path2" := by decide
  by_cases hp : Plain e.path.toList
  · -- the second path is shorter than it should be
    refine ⟨hp, by_contra fun hq => ?_⟩
    have hlen := length_pos_of_not_plain hq
    rw [inPath, run_plain hp] at hfirst
    cases hfirst
    have hbegin := (confined_inPath e (.inr rfl) e.path2.toList.length).skip
      (v := .string ((codesOf e.path.toList).reverse ++ []).reverse) (keyOf "path2") hne.symm
    have hend := (hbegin.run_of_not_plain hq (by omega) hsecond).next [] (by omega)
    have hshort := hend.members _ List.mem_cons_self _ hmem2
    omega
  · exfalso
    have hlen := length_pos_of_not_plain hp
    by_cases hq : Plain e.path2.toList
    · -- the first path is
      have hbegin := (confined_inPath e (.inl rfl) e.path.toList.length).run_of_not_plain hp
        (by omega) hfirst
      have hmiddle := hbegin.next (keyOf "path2") (by omega)
      rw [run_plain hq] at hsecond
      cases hsecond
      have hend :=
        hmiddle.skip (v := .string ((codesOf e.path2.toList).reverse ++ []).reverse) [] hne
      have hshort := hend.members _ List.mem_cons_self _ hmem
      omega
    · -- both are shorter than the longer one
      have hlen2 := length_pos_of_not_plain hq
      have hshort : ∀ {name : String} {codes : List ℕ}, name = "path" ∨ name = "path2" →
          (keyOf name, Value.string codes) ∈ (k₂, .string c₂.reverse) :: m₂ →
          codes.length < max e.path.toList.length e.path2.toList.length := by
        intro name codes hname hmem
        have hbegin := (confined_inPath e hname
          (max e.path.toList.length e.path2.toList.length)).run_of_not_plain hp (by omega) hfirst
        have hmiddle := hbegin.next (keyOf "path2") (by omega)
        have hend := (hmiddle.run_of_not_plain hq (by omega) hsecond).next [] (by omega)
        exact hend.members _ List.mem_cons_self _ hmem
      have hshort₁ := hshort (.inl rfl) hmem
      have hshort₂ := hshort (.inr rfl) hmem2
      omega

/-- **What is read as itself is plain**, for a marker. -/
lemma plain_of_parse_marker {line : Line} {m : TraceMarker} (h : line.record = .marker m)
    {ms : List (List ℕ × Value)} (hparse : parse line.chars = some (.object ms))
    (hmarker : toMarker ms = some m) : Plain m.text.toList := by
  obtain ⟨s, hrun, hfinish⟩ := Option.bind_eq_some_iff.mp hparse
  rw [Line.chars_marker_split h, run_append, run_marker, Option.bind_some, run_append] at hrun
  obtain ⟨s₁, htext, hrun⟩ := Option.bind_eq_some_iff.mp hrun
  obtain ⟨m₁, k₁, c₁, rfl⟩ := of_run_end hrun hfinish
  have hend : run ⟨[.member m₁ k₁], .string c₁⟩ ['"', '\x7d'] =
      some (complete [] (.object ((k₁, .string c₁.reverse) :: m₁))) := rfl
  have hms := (finish_complete (Option.some.inj (hrun.symm.trans hend) ▸ hfinish)).2
  have hread : (property ms "text").bind asString = some m.text := by
    rw [toMarker] at hmarker
    obtain ⟨_, -, hmarker⟩ := Option.bind_eq_some_iff.mp hmarker
    obtain ⟨_, -, hmarker⟩ := Option.bind_eq_some_iff.mp hmarker
    obtain ⟨text, hread, hmarker⟩ := Option.bind_eq_some_iff.mp hmarker
    cases Option.some.inj hmarker
    exact hread
  obtain ⟨codes, hmem, hlen⟩ := exists_codes_of_property hread
  by_contra hplain
  have hpos := length_pos_of_not_plain hplain
  have hbegin : Confined (keyOf "text") m.text.toList.length 0 (inText m) := by
    refine ⟨fun f hf codes hmem => ?_, le_rfl⟩
    rw [List.mem_singleton.mp hf] at hmem
    simp [Frame.members, membersOf, keyOf, codesOf] at hmem
  have hclose := (hbegin.run_of_not_plain hplain (by omega) htext).next [] (by omega)
  have hshort := hclose.members _ List.mem_cons_self _ (Value.object.inj hms ▸ hmem)
  omega

/-! ### The encoder and the decoder -/

lemma elim_ok {α : Type} {f : α → RawRecord} {r : Option α} {record : RawRecord}
    (h : (r.map f).elim (.error Thrown.typeError) Except.ok = .ok record) :
    ∃ a, r = some a ∧ record = f a := by
  cases r with
  | none => cases h
  | some a => exact ⟨a, rfl, (Except.ok.inj h).symm⟩

/-- What `readLine` made an event or a marker of. -/
lemma parse_of_readLine {text : String} {record : RawRecord} (h : readLine text = .ok record) :
    (∀ e, record = .event e → ∃ ms, parse text.toList = some (.object ms) ∧ toEvent ms = some e) ∧
      ∀ m, record = .marker m →
        ∃ ms, parse text.toList = some (.object ms) ∧ toMarker ms = some m := by
  rw [readLine] at h
  split at h
  · cases h
  · rename_i v hparse
    cases v with
    | object ms =>
        rw [toRecord] at h
        split at h
        · obtain ⟨a, -, rfl⟩ := elim_ok h
          simp
        · obtain ⟨e, he, rfl⟩ := elim_ok h
          refine ⟨?_, by simp⟩
          rintro _ ⟨⟩
          exact ⟨ms, hparse, he⟩
        · obtain ⟨m, hm, rfl⟩ := elim_ok h
          refine ⟨by simp, ?_⟩
          rintro _ ⟨⟩
          exact ⟨ms, hparse, hm⟩
        · simp [← Except.ok.inj h]
    | null => simp only [toRecord, reduceCtorEq] at h
    | bool | number | string | array =>
        simp only [toRecord, Except.ok.injEq] at h
        simp [← h]

/-- A text without the zero byte that ends C strings. -/
def NulFree (text : String) : Prop := '\x00' ∉ text.toList

/-- What `sha256_hex` prints, or nothing. -/
def IsDigest (text : String) : Prop :=
  ∀ c ∈ text.toList, ('0' ≤ c ∧ c ≤ '9') ∨ ('a' ≤ c ∧ c ≤ 'f')

/-- An event or a marker the interposer may print: it fits its buffer, its
numbers are exact in JavaScript and its texts are C strings. -/
def Line.Encodable (line : Line) : Prop :=
  line.size < recordMax ∧
    match line.record with
    | .event e => ExactEvent e ∧ NulFree e.path ∧ NulFree e.path2 ∧ IsDigest e.digest
    | .marker m => ExactMarker m ∧ NulFree m.text ∧ m.text.utf8ByteSize ≤ markerTextMax
    | _ => False

/-- One line of JSON. -/
def Line.IsJson (line : Line) : Prop := '\n' ∉ line.chars ∧ (parse line.chars).isSome

lemma IsDigest.plain {text : String} (h : IsDigest text) : Plain text.toList := by
  intro c hc
  have hrange : ∀ x : Char, ¬ (('0' ≤ x ∧ x ≤ '9') ∨ ('a' ≤ x ∧ x ≤ 'f')) → c ≠ x := by
    rintro x hx rfl
    exact hx (h c hc)
  refine ⟨?_, hrange _ (by decide), hrange _ (by decide)⟩
  have hle : ∀ x : Char, x ≤ c → x.toNat ≤ c.toNat := fun x hx => hx
  rcases h c hc with ⟨hlow, -⟩ | ⟨hlow, -⟩
  · exact le_trans (by decide) (hle _ hlow)
  · exact le_trans (by decide) (hle _ hlow)

variable {p : Process} {line : Line}

/-- **What is read as it was printed**: a record that needs no escapes, and no
other. -/
lemma readLine_text_iff (h : line.Encodable) :
    readLine line.text = .ok line.record ↔ line.PlainTexts := by
  obtain ⟨-, h⟩ := h
  cases hrec : line.record with
  | event e =>
      simp only [hrec] at h
      obtain ⟨hexact, -, -, hdigest⟩ := h
      rw [Line.PlainTexts, hrec]
      refine ⟨fun hread => ?_, fun hplain =>
        readLine_event hrec hexact hplain.1 hplain.2.1 hdigest.plain⟩
      obtain ⟨ms, hparse, hevent⟩ := (parse_of_readLine hread).1 e rfl
      rw [Line.toList_text] at hparse
      have hplain := plain_of_parse hrec hdigest.plain hparse hevent
      exact ⟨hplain.1, hplain.2, hdigest.plain⟩
  | marker m =>
      simp only [hrec] at h
      rw [Line.PlainTexts, hrec]
      refine ⟨fun hread => ?_, fun hplain => readLine_marker hrec h.1 hplain⟩
      obtain ⟨ms, hparse, hmarker⟩ := (parse_of_readLine hread).2 m rfl
      rw [Line.toList_text] at hparse
      exact plain_of_parse_marker hrec hparse hmarker
  | header => simp [hrec] at h
  | other => simp [hrec] at h

lemma Line.Encodable.ne_other (h : line.Encodable) : line.record ≠ .other := by
  intro hrec
  simpa [hrec] using h.2

/-- A header and one record are read as they were printed only if the record is. -/
lemma readLine_of_parseTrace (hpid : p.pid.natAbs ≤ 2 ^ 53) (h : line.Encodable)
    (hnewline : '\n' ∉ line.chars)
    (hparse : parseTrace readLine (textOf [headerLine p, line]) = .ok (traceOf p [line])) :
    readLine line.text = .ok line.record := by
  have hline : ∀ l ∈ [headerLine p, line], '\n' ∉ l.chars ∧ l.chars.all isTrimmed = false := by
    have hheader : (headerLine p).PlainTexts := trivial
    simp only [List.forall_mem_cons, hnewline, not_false_eq_true, hheader.newline_notMem,
      Line.not_blank h.ne_other, @Line.not_blank (headerLine p) nofun]
    simp
  rw [parseTrace, nonBlankLines_textOf hline, List.map_cons, List.map_cons, List.map_nil,
    List.mapM_cons, List.mapM_cons, readLine_header p hpid] at hparse
  cases hread : readLine line.text with
  | error thrown =>
      rw [hread] at hparse
      cases hparse
  | ok record =>
      have hrecords : parseRecords [.header ⟨traceVersion, p.pid⟩, record] =
          .ok (traceOf p [line]) := by
        rw [hread] at hparse
        exact hparse
      obtain ⟨hevents, hmarkers⟩ := parseRecords_ok hrecords
      have hne := h.ne_other
      obtain ⟨-, h⟩ := h
      cases hrec : line.record with
      | event e =>
          have hsame : [e] = record.event?.toList := by
            rw [traceOf, List.map_singleton, hrec] at hevents
            cases record <;> exact hevents
          cases record with
          | event e' => rw [List.head_eq_of_cons_eq hsame]
          | header | marker | other => cases hsame
      | marker m =>
          have hsame : [m] = record.marker?.toList := by
            rw [traceOf, List.map_singleton, hrec] at hmarkers
            cases record <;> exact hmarkers
          cases record with
          | marker m' => rw [List.head_eq_of_cons_eq hsame]
          | header | event | other => cases hsame
      | header => simp [hrec] at h
      | other => exact absurd hrec hne

/-- **When encoder and decoder agree**: a trace of records is read as they were
printed, whichever of them it has, exactly when none of their texts needs an
escape. -/
theorem agrees_iff (hpid : p.pid.natAbs < 2 ^ 31) {lines : List Line}
    (h : ∀ line ∈ lines, line.Encodable) :
    (∀ printed : List Line, printed ⊆ lines →
      (∀ line ∈ printed, line.IsJson) ∧
        parseTrace readLine (textOf (headerLine p :: printed)) = .ok (traceOf p printed)) ↔
    ∀ line ∈ lines, line.PlainTexts := by
  have hpid' : p.pid.natAbs ≤ 2 ^ 53 := by omega
  refine ⟨fun hagree line hline => ?_, fun hplain printed hsub => ⟨fun line hline => ?_, ?_⟩⟩
  · obtain ⟨hjson, hparse⟩ := hagree [line] (by simpa using hline)
    have hnewline := (hjson line List.mem_cons_self).1
    exact (readLine_text_iff (h line hline)).mp
      (readLine_of_parseTrace hpid' (h line hline) hnewline hparse)
  · have hread := (readLine_text_iff (h line (hsub hline))).mpr (hplain line (hsub hline))
    refine ⟨(hplain line (hsub hline)).newline_notMem, ?_⟩
    rw [readLine, Line.toList_text] at hread
    cases hparse : parse line.chars with
    | none =>
        rw [hparse] at hread
        cases hread
    | some v => rfl
  · have hheader : (headerLine p).PlainTexts := trivial
    refine parseTrace_textOf (List.forall_mem_cons.mpr ⟨?_, fun line hline => ?_⟩)
      (List.forall_mem_cons.mpr ⟨readLine_header p hpid', fun line hline => ?_⟩)
    · exact ⟨hheader.newline_notMem, Line.not_blank nofun⟩
    · exact ⟨(hplain line (hsub hline)).newline_notMem,
        Line.not_blank (h line (hsub hline)).ne_other⟩
    · exact (readLine_text_iff (h line (hsub hline))).mpr (hplain line (hsub hline))

/-- An open of a file at `path`. -/
def openedEvent (path : String) : TraceEvent where
  index := 0
  completionIndex := 1
  call := .open_
  fd := 3
  threadId := 7
  path := path
  path2 := ""
  offset := 0
  length := 0
  returnValue := 3
  errno := 0
  digest := ""

def openedLine (path : String) : Line where
  record := .event (openedEvent path)
  flags := 0
  time := 1700000000000000000

/-- A process that opens one file. -/
def opener : Process where
  pid := 7
  tid := 7
  cwd := "/"
  sha256 := fun _ => ""
  wallTime := fun _ => 0

lemma encodable_openedLine : (openedLine "/d/a").Encodable ∧ (openedLine "/d/a\"b").Encodable := by
  have hexact : ∀ path, ExactEvent (openedEvent path) := by simp [ExactEvent, openedEvent]
  have hdigest : IsDigest "" := by simp [IsDigest]
  have hempty : NulFree "" := by simp [NulFree]
  refine ⟨⟨by decide +kernel, hexact _, ?_, hempty, hdigest⟩,
    ⟨by decide +kernel, hexact _, ?_, hempty, hdigest⟩⟩
  · simp [NulFree, openedEvent]
  · simp [NulFree, openedEvent]

/-- Without one it is read. -/
theorem agrees_opened :
    parseTrace readLine (textOf [headerLine opener, openedLine "/d/a"]) =
      .ok (traceOf opener [openedLine "/d/a"]) := by
  have hencodable : ∀ line ∈ [openedLine "/d/a"], line.Encodable :=
    List.forall_mem_singleton.mpr encodable_openedLine.1
  have hpath : PlainText "/d/a" ∧ PlainText "" := by decide
  have hplain : ∀ line ∈ [openedLine "/d/a"], line.PlainTexts :=
    List.forall_mem_singleton.mpr ⟨hpath.1, hpath.2, hpath.2⟩
  exact ((agrees_iff (p := opener) (by decide) hencodable).mpr hplain _ (List.Subset.refl _)).2

/-- A quote in a path makes the whole trace unreadable. -/
theorem quoted_path_unread :
    (openedLine "/d/a\"b").Encodable ∧
      parseTrace readLine (textOf [headerLine opener, openedLine "/d/a\"b"]) =
        .error .syntaxError := by
  have hline : ∀ line ∈ [headerLine opener, openedLine "/d/a\"b"],
      '\n' ∉ line.chars ∧ line.chars.all isTrimmed = false := by decide +kernel
  have hread : readLine (openedLine "/d/a\"b").text = .error .syntaxError := by decide +kernel
  refine ⟨encodable_openedLine.2, ?_⟩
  rw [parseTrace, nonBlankLines_textOf hline, List.map_cons, List.map_cons, List.map_nil,
    List.mapM_cons, List.mapM_cons, readLine_header opener (by decide), hread]
  rfl

end CrashFuzz.Shim
