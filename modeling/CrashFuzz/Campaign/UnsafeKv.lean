import CrashFuzz.Enumerate.Space
import CrashFuzz.Oracle.AckLog
import CrashFuzz.Shim.Follows

/-!
The unsafe key-value store (`targets/unsafe-kv/main.c`), the positive control:
a temporary file is written, renamed over the real name, and announced durable,
without a call to `fsync`.

* `UnsafeKv`: a run of it, with what the trace depends on.
* `UnsafeKv.events`, `UnsafeKv.markers`, `UnsafeKv.trace`: what is recorded of
  `n` operations.
* `UnsafeKv.event_at`: the event at each position.
* `UnsafeKv.Remembered`, `UnsafeKv.mem_parseAckLog`: the operations in the
  acknowledgement log are those whose number none of the later ones shares.
-/

namespace CrashFuzz

open PosixPath Shim

/-- A run of the store, with the store's directory as `rootDir`. -/
structure UnsafeKv where
  options : ReplayOptions
  pid : ℤ
  tid : ℤ
  /-- The descriptor of each temporary file. -/
  fd : ℕ → ℕ
  /-- The stamps the run takes, one after the other. -/
  clock : ℕ → ℕ
  increasing : StrictMono clock
  /-- `sha256_hex`, which prints hex digits. -/
  sha256 : List UInt8 → String
  sha256_solid : ∀ bytes, Solid (sha256 bytes)

namespace UnsafeKv

variable (r : UnsafeKv) (i n : ℕ)

/-- `VALUE_BYTES`. -/
def valueBytes : ℕ := 4096

/-- `"k%ld"`. -/
def key : String := "k" ++ toString (i : ℤ)

/-- The name of the temporary file. -/
def tmpName : String := key i ++ ".tmp"

/-- The value of an operation: one letter, with the key written over its start. -/
def value : List UInt8 :=
  let start := (key i).toList.map fun c => UInt8.ofNat c.toNat
  start ++ (List.replicate valueBytes (UInt8.ofNat (97 + i % 26))).drop start.length

def digest : String := r.sha256 (value i)

/-- The path that is recorded of a file in the directory. -/
def path (name : String) : String := canonical (r.options.root ++ [name.toList])

/-- The stamps of operation `i`, ten for each from the first one on. -/
def stamp (s : ℕ) : ℕ := r.clock (10 * (i - 1) + s)

/-- `open(tmp, O_CREAT | O_WRONLY | O_TRUNC, 0644)`. -/
def openTmp : TraceEvent where
  index := r.stamp i 1
  completionIndex := r.stamp i 2
  call := .open_
  fd := r.fd i
  threadId := r.tid
  path := r.path (tmpName i)
  path2 := ""
  offset := 0
  length := 0
  returnValue := r.fd i
  errno := 0
  digest := ""

/-- `write(fd, value, sizeof value)`. -/
def writeValue : TraceEvent where
  index := r.stamp i 3
  completionIndex := r.stamp i 4
  call := .write
  fd := r.fd i
  threadId := r.tid
  path := r.path (tmpName i)
  path2 := ""
  offset := 0
  length := valueBytes
  returnValue := valueBytes
  errno := 0
  digest := r.digest i

/-- `close(fd)`. -/
def closeTmp : TraceEvent where
  index := r.stamp i 5
  completionIndex := r.stamp i 6
  call := .close
  fd := r.fd i
  threadId := r.tid
  path := r.path (tmpName i)
  path2 := ""
  offset := 0
  length := 0
  returnValue := 0
  errno := 0
  digest := ""

/-- `rename(tmp, final)`. -/
def renameTmp : TraceEvent where
  index := r.stamp i 7
  completionIndex := r.stamp i 8
  call := .rename
  fd := -1
  threadId := r.tid
  path := r.path (tmpName i)
  path2 := r.path (key i)
  offset := 0
  length := 0
  returnValue := 0
  errno := 0
  digest := ""

/-- `"op=%ld phase=begin kind=put key=%s"`. -/
def beginText : String :=
  pairsText [("op", toString (i : ℤ)), ("phase", "begin"), ("kind", "put"), ("key", key i)]

/-- `"op=%ld phase=ack kind=put key=%s digest=%s durable=1"`. -/
def ackText : String :=
  pairsText [("op", toString (i : ℤ)), ("phase", "ack"), ("kind", "put"), ("key", key i),
    ("digest", r.digest i), ("durable", "1")]

/-- The events of one operation. -/
def opEvents : List TraceEvent :=
  [r.openTmp i, r.writeValue i, r.closeTmp i, r.renameTmp i]

/-- The markers around it. -/
def opMarkers : List TraceMarker :=
  [⟨r.stamp i 0, r.tid, beginText i⟩, ⟨r.stamp i 9, r.tid, r.ackText i⟩]

/-- The events of operations `1` to `n`. -/
def events : List TraceEvent := (List.range' 1 n).flatMap r.opEvents

def markers : List TraceMarker := (List.range' 1 n).flatMap r.opMarkers

/-- What is recorded of a run of `n` operations. -/
def trace : Trace := ⟨⟨traceVersion, r.pid⟩, r.events n, r.markers n⟩

variable {r} {i n}

/-! ### Events by position -/

lemma events_succ : r.events (n + 1) = r.events n ++ r.opEvents (n + 1) := by
  rw [events, List.range'_1_concat, List.flatMap_append, List.flatMap_singleton, Nat.add_comm 1 n]
  rfl

lemma markers_succ : r.markers (n + 1) = r.markers n ++ r.opMarkers (n + 1) := by
  rw [markers, List.range'_1_concat, List.flatMap_append, List.flatMap_singleton, Nat.add_comm 1 n]
  rfl

@[simp] lemma length_events : (r.events n).length = 4 * n := by
  induction n with
  | zero => rfl
  | succ n ih =>
      rw [events_succ, List.length_append, ih, opEvents]
      simp only [List.length_cons, List.length_nil]
      omega

/-- The event at each position: operation `j + 1` has the positions from `4 * j` on. -/
lemma event_at {j s : ℕ} (hj : j < n) (hs : s < 4) :
    (r.events n)[4 * j + s]? = (r.opEvents (j + 1))[s]? := by
  induction n with
  | zero => omega
  | succ n ih =>
      rw [events_succ]
      by_cases hlast : j = n
      · subst hlast
        rw [List.getElem?_append_right (by simp), length_events, Nat.add_sub_cancel_left]
      · rw [List.getElem?_append_left (by rw [length_events]; omega)]
        exact ih (by omega)

/-- Every position belongs to an operation. -/
lemma exists_event_at {p : ℕ} {e : TraceEvent} (h : (r.events n)[p]? = some e) :
    ∃ j s, j < n ∧ s < 4 ∧ p = 4 * j + s ∧ (r.opEvents (j + 1))[s]? = some e := by
  have hp : p < 4 * n := by
    rw [← length_events (r := r)]
    exact (List.getElem?_eq_some_iff.mp h).1
  have hsplit : p = 4 * (p / 4) + p % 4 := (Nat.div_add_mod p 4).symm
  refine ⟨p / 4, p % 4, by omega, Nat.mod_lt _ (by omega), hsplit, ?_⟩
  rw [← event_at (n := n) (by omega) (Nat.mod_lt _ (by omega)), ← hsplit, h]

/-- The four events of an operation. -/
lemma opEvents_cases {s : ℕ} {e : TraceEvent} (h : (r.opEvents i)[s]? = some e) :
    (s = 0 ∧ e = r.openTmp i) ∨ (s = 1 ∧ e = r.writeValue i) ∨ (s = 2 ∧ e = r.closeTmp i) ∨
      (s = 3 ∧ e = r.renameTmp i) := by
  match s with
  | 0 => exact .inl ⟨rfl, (Option.some.inj h).symm⟩
  | 1 => exact .inr (.inl ⟨rfl, (Option.some.inj h).symm⟩)
  | 2 => exact .inr (.inr (.inl ⟨rfl, (Option.some.inj h).symm⟩))
  | 3 => exact .inr (.inr (.inr ⟨rfl, (Option.some.inj h).symm⟩))
  | s + 4 => cases h

lemma cases_of_mem_events {e : TraceEvent} (h : e ∈ r.events n) : ∃ j < n,
    e = r.openTmp (j + 1) ∨ e = r.writeValue (j + 1) ∨ e = r.closeTmp (j + 1) ∨
      e = r.renameTmp (j + 1) := by
  obtain ⟨p, hp⟩ := List.mem_iff_getElem?.mp h
  obtain ⟨j, s, hj, -, -, he⟩ := exists_event_at hp
  refine ⟨j, hj, ?_⟩
  rcases opEvents_cases he with h | h | h | h <;> simp [h.2]

/-- No call of the store is a persistence call. -/
lemma notMem_persistence {e : TraceEvent} (h : e ∈ r.events n) : e.call ∉ persistence := by
  obtain ⟨j, -, rfl | rfl | rfl | rfl⟩ := cases_of_mem_events h <;>
    simp [openTmp, writeValue, closeTmp, renameTmp, persistence]

lemma call_ne_link {e : TraceEvent} (h : e ∈ r.events n) : e.call ≠ .link := by
  obtain ⟨j, -, rfl | rfl | rfl | rfl⟩ := cases_of_mem_events h <;>
    simp [openTmp, writeValue, closeTmp, renameTmp]

lemma allSucceeded : AllSucceeded (r.events n) := by
  intro e h _
  obtain ⟨j, -, rfl | rfl | rfl | rfl⟩ := cases_of_mem_events h <;>
    simp [openTmp, writeValue, closeTmp, renameTmp]

lemma not_pinned {k p : ℕ} : ¬ Pinned (r.events n) k p := by
  rintro ⟨-, -, -, f, -, -, e, he, hcall, -⟩
  exact notMem_persistence (List.mem_of_getElem? he) hcall

/-- The writes and the renames are the mutations. -/
lemma applied_iff {p : ℕ} :
    Applied (r.events n) p ↔ p < 4 * n ∧ (p % 4 = 1 ∨ p % 4 = 3) := by
  rw [allSucceeded.applied_iff]
  constructor
  · rintro ⟨e, he, hcall⟩
    obtain ⟨j, s, hj, hs, rfl, hevent⟩ := exists_event_at he
    rcases opEvents_cases hevent with ⟨rfl, rfl⟩ | ⟨rfl, rfl⟩ | ⟨rfl, rfl⟩ | ⟨rfl, rfl⟩
    · simp [openTmp, mutating] at hcall
    · omega
    · simp [closeTmp, mutating] at hcall
    · omega
  · rintro ⟨hp, hs⟩
    have hevent := event_at (r := r) (show p / 4 < n by omega) (Nat.mod_lt p (by omega : 0 < 4))
    rw [Nat.div_add_mod] at hevent
    rw [hevent]
    rcases hs with hs | hs <;> rw [hs]
    · exact ⟨r.writeValue (p / 4 + 1), rfl, by simp [writeValue, mutating]⟩
    · exact ⟨r.renameTmp (p / 4 + 1), rfl, by simp [renameTmp, mutating]⟩

/-! ### Names -/

lemma toList_key : (key i).toList = 'k' :: Decimal.integerChars i := by
  rw [key, String.toList_append, Decimal.toList_toString_int]
  rfl

lemma toList_tmpName : (tmpName i).toList = (key i).toList ++ ".tmp".toList := by
  rw [tmpName, String.toList_append]

lemma integerChars_natCast : Decimal.integerChars (i : ℤ) = Nat.toDigits 10 i := by
  rw [Decimal.integerChars, if_neg (by omega), Int.natAbs_natCast]

/-- A key is a letter and digits. -/
lemma notMem_key {c : Char} (hletter : c ≠ 'k') (hdigit : c.isDigit = false) :
    c ∉ (key i).toList := by
  rw [toList_key, List.mem_cons, not_or, integerChars_natCast]
  refine ⟨hletter, fun hc => ?_⟩
  rw [Decimal.isDigit_toDigits hc] at hdigit
  cases hdigit

lemma dot_notMem_key : '.' ∉ (key i).toList := notMem_key (by decide) (by decide)

lemma slash_notMem_key : '/' ∉ (key i).toList := notMem_key (by decide) (by decide)

lemma key_injective : Function.Injective key := by
  intro i j h
  have hchars : Decimal.integerChars (i : ℤ) = Decimal.integerChars (j : ℤ) := by
    have hlist := congrArg String.toList h
    rw [toList_key, toList_key] at hlist
    exact List.tail_eq_of_cons_eq hlist
  rw [integerChars_natCast, integerChars_natCast] at hchars
  have hvalue := congrArg (Nat.ofDigitChars 10 · 0) hchars
  simpa using hvalue

lemma proper_key : Proper (key i).toList := by
  refine ⟨?_, ?_, ?_, slash_notMem_key⟩ <;> rw [toList_key] <;> simp [dotdot]

lemma proper_tmpName : Proper (tmpName i).toList := by
  refine ⟨?_, ?_, ?_, ?_⟩
  · rw [toList_tmpName, toList_key]
    simp
  · rw [toList_tmpName, toList_key]
    simp
  · rw [toList_tmpName, toList_key]
    simp [dotdot]
  · rw [toList_tmpName, List.mem_append, not_or]
    exact ⟨slash_notMem_key, by decide⟩

/-- No key is the name of a temporary file. -/
lemma key_ne_tmpName {j : ℕ} : (key i).toList ≠ (tmpName j).toList := by
  intro h
  refine dot_notMem_key (i := i) ?_
  rw [h, toList_tmpName]
  simp

lemma proper_root : ∀ c ∈ r.options.root, Proper c := fun _ => resolve_proper

lemma proper_append {name : String} (h : Proper name.toList) :
    ∀ c ∈ r.options.root ++ [name.toList], Proper c := by
  intro c hc
  rcases List.mem_append.mp hc with hc | hc
  · exact proper_root c hc
  · rw [List.mem_singleton.mp hc]
    exact h

/-- A file of the directory is found below it by its name. -/
lemma below_path {name : String} (h : Proper name.toList) :
    below r.options (r.path name) = [name.toList] := by
  rw [below, path, resolve_canonical _ (proper_append h), List.drop_left]

lemma belowRoot_path {name : String} (h : Proper name.toList) :
    BelowRoot r.options (r.path name) := by
  refine belowRoot_canonical (proper_append h) ⟨List.prefix_append _ _, fun heq => ?_⟩
  simp at heq

/-- What the run promises of its operands. -/
lemma operandsBelow {e : TraceEvent} (h : e ∈ r.events n) : OperandsBelow r.options e := by
  obtain ⟨j, -, rfl | rfl | rfl | rfl⟩ := cases_of_mem_events h
  · exact ⟨belowRoot_path proper_tmpName, by simp [openTmp]⟩
  · exact ⟨belowRoot_path proper_tmpName, by simp [writeValue]⟩
  · exact ⟨belowRoot_path proper_tmpName, by simp [closeTmp]⟩
  · exact ⟨belowRoot_path proper_tmpName, fun _ => belowRoot_path proper_key⟩

/-! ### The acknowledgement log -/

/-- The JavaScript number an operation number is read as. -/
def number (i : ℕ) : Option ℚ := toNumber (toString (i : ℤ))

/-- The number of operation `i` is read, and none of the later operations up to
`n` is read as the same number. -/
def Remembered (n i : ℕ) : Prop :=
  ∃ x, number i = some x ∧ ∀ j, i < j → j ≤ n → number j ≠ some x

/-- Numbers up to `2 ^ 53` are read as themselves. -/
lemma number_eq (h : i ≤ 2 ^ 53) : number i = some (i : ℚ) := by
  rw [number, toNumber_toString_of_natAbs_le (by omega)]
  rfl

/-- Every operation of a run of up to `2 ^ 53` is remembered. -/
lemma remembered_of_le (hn : n ≤ 2 ^ 53) (hi : i ≤ n) : Remembered n i := by
  refine ⟨i, number_eq (by omega), fun j hij hj heq => ?_⟩
  rw [number_eq (by omega), Option.some.injEq, Nat.cast_inj] at heq
  omega

variable (r i) in
/-- The record of an operation, under the number it is read as. -/
def acked (x : ℚ) : AckedOperation where
  op := x
  kind := "put"
  key := key i
  digest := r.digest i
  beganAt := r.stamp i 0
  acknowledgedAt := some (r.stamp i 9)
  durable := true

lemma solid_key : Solid (key i) := by
  intro c hc
  rw [toList_key] at hc
  rcases List.mem_cons.mp hc with rfl | hc
  · decide
  · exact isTrimmed_integerChars hc

lemma solid_put : Solid "put" := by decide

variable (r i) in
/-- The ack of an operation. -/
def ack : Ack := ⟨r.stamp i 9, r.digest i, true, r.sha256_solid _⟩

/-- The operation with its markers, when its number is finite. -/
def logged {x : ℚ} (r : UnsafeKv) (h : number i = some x) : Logged where
  id := i
  kind := "put"
  key := key i
  beganAt := r.stamp i 0
  ack := some (r.ack i)
  kind_solid := solid_put
  key_solid := solid_key
  number := x
  number_eq := h

variable {operations : OrderedMap ℚ AckedOperation} {x : ℚ}

/-- Without a number an operation is skipped. -/
lemma readMarker_of_none (h : number i = none) {index : ℕ} {threadId : ℤ} {text : String}
    (hop : (fields text).get? "op" = some (toString (i : ℤ))) :
    readMarker operations ⟨index, threadId, text⟩ = operations := by
  rw [number] at h
  rw [readMarker]
  simp only [hop, Option.bind_some, h]

lemma op_beginText : (fields (beginText i)).get? "op" = some (toString (i : ℤ)) := by
  have hname := Logged.isName_names
  have hbegin : Solid "begin" := by decide
  simp only [List.forall_mem_cons] at hname
  refine get?_fields_pairsText ?_ (by simp)
  simp only [List.forall_mem_cons]
  exact ⟨⟨hname.1, solid_toString i⟩, ⟨hname.2.1, hbegin⟩, ⟨hname.2.2.1, solid_put⟩,
    ⟨hname.2.2.2.1, solid_key⟩, List.forall_mem_nil _⟩

lemma op_ackText : (fields (r.ackText i)).get? "op" = some (toString (i : ℤ)) := by
  have hname := Logged.isName_names
  have hwords : Solid "ack" ∧ Solid "1" := by decide
  simp only [List.forall_mem_cons] at hname
  refine get?_fields_pairsText ?_ (by simp)
  simp only [List.forall_mem_cons]
  exact ⟨⟨hname.1, solid_toString i⟩, ⟨hname.2.1, hwords.1⟩, ⟨hname.2.2.1, solid_put⟩,
    ⟨hname.2.2.2.1, solid_key⟩, ⟨hname.2.2.2.2.1, r.sha256_solid _⟩,
    ⟨hname.2.2.2.2.2.1, hwords.2⟩, List.forall_mem_nil _⟩

lemma beginText_logged (h : number i = some x) : beginText i = (r.logged h).beginText := rfl

lemma ackText_logged (h : number i = some x) :
    r.ackText i = (r.logged h).ackText (r.ack i) := rfl

/-- What the two markers of an operation leave. -/
lemma get?_opMarkers : ((r.opMarkers i).foldl readMarker operations).get? x =
    if number i = some x then some (r.acked i x) else operations.get? x := by
  rw [opMarkers, List.foldl_cons, List.foldl_cons, List.foldl_nil]
  cases hnumber : number i with
  | none =>
      rw [readMarker_of_none hnumber op_beginText, readMarker_of_none hnumber op_ackText,
        if_neg (by simp)]
  | some y =>
      have hbegin : readMarker operations ⟨r.stamp i 0, r.tid, beginText i⟩ =
          operations.set y (r.logged hnumber).begun :=
        Logged.readMarker_begin (o := r.logged hnumber) (beginText_logged hnumber) rfl
      have hack : readMarker (operations.set y (r.logged hnumber).begun)
          ⟨r.stamp i 9, r.tid, r.ackText i⟩ =
          (operations.set y (r.logged hnumber).begun).set y (r.acked i y) :=
        Logged.readMarker_ack (o := r.logged hnumber) (a := r.ack i) (ackText_logged hnumber) rfl
          OrderedMap.get?_set_self
      rw [hbegin, hack, OrderedMap.get?_set, OrderedMap.get?_set]
      by_cases hx : x = y
      · rw [if_pos hx, hx, if_pos rfl]
      · have hne : some y ≠ some x := fun heq => hx (Option.some.inj heq).symm
        rw [if_neg hx, if_neg hx, if_neg hne]

/-- The record of a number is that of the last operation that is read as it. -/
lemma get?_markers {record : AckedOperation} :
    ((r.markers n).foldl readMarker .empty).get? x = some record ↔
      ∃ i, 1 ≤ i ∧ i ≤ n ∧ number i = some x ∧ (∀ j, i < j → j ≤ n → number j ≠ some x) ∧
        record = r.acked i x := by
  induction n with
  | zero =>
      refine iff_of_false (fun h => ?_) ?_
      · cases h
      · rintro ⟨i, hi, hi', -⟩
        omega
  | succ n ih =>
      rw [markers_succ, List.foldl_append, get?_opMarkers]
      by_cases hlast : number (n + 1) = some x
      · rw [if_pos hlast, Option.some.injEq]
        constructor
        · intro heq
          exact ⟨n + 1, by omega, le_rfl, hlast, fun j hj hj' => by omega, heq.symm⟩
        · rintro ⟨i, -, hi, -, hlater, rfl⟩
          obtain rfl : i = n + 1 := by
            by_contra hne
            exact hlater (n + 1) (by omega) le_rfl hlast
          rfl
      · rw [if_neg hlast, ih]
        refine exists_congr fun i => and_congr_right fun _ => ?_
        constructor
        · rintro ⟨hi, hnumber, hlater, hrecord⟩
          refine ⟨by omega, hnumber, fun j hij hj => ?_, hrecord⟩
          by_cases hjn : j = n + 1
          · rwa [hjn]
          · exact hlater j hij (by omega)
        · rintro ⟨hi, hnumber, hlater, hrecord⟩
          have hne : i ≠ n + 1 := fun h => hlast (h ▸ hnumber)
          exact ⟨by omega, hnumber, fun j hij hj => hlater j hij (by omega), hrecord⟩

/-- **The acknowledgement log** of a run. -/
lemma mem_parseAckLog {record : AckedOperation} : record ∈ parseAckLog (r.trace n) ↔
    ∃ i x, 1 ≤ i ∧ i ≤ n ∧ number i = some x ∧ (∀ j, i < j → j ≤ n → number j ≠ some x) ∧
      record = r.acked i x := by
  rw [parseAckLog, List.mem_insertionSort, OrderedMap.mem_values_iff, exists_comm]
  exact exists_congr fun x => get?_markers

end UnsafeKv

end CrashFuzz
