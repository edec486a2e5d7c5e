import CrashFuzz.Lib.Runs
import CrashFuzz.Lib.Sha256
import CrashFuzz.Oracle.AckLog

/-!
The workloads that bracket each operation with markers
(`targets/redb-workload/src/workload.rs`, `targets/sqlite-workload/main.c`).

* `redbWorkload`, `sqliteWorkload`: what tells one from another.
* `World`, `World.step`: the writer threads, the number that is taken next, and
  the marker file behind its mutex. Any thread may move next, any commit may
  fail, and a marker may be written short.
* `Moves`: what one step can do.
* `stamped_inj`: no two operations write the same value.
-/

namespace CrashFuzz

/-! ### What is written -/

/-- The key of an operation, printed from its number. -/
def opKey (op : ℕ) : String := "k" ++ toString (op : ℤ)

/-- The bytes of a name in ASCII. -/
def asciiBytes (name : String) : List UInt8 := name.toList.map fun c => UInt8.ofNat c.toNat

/-- Bytes of one letter, with a name copied over their start. -/
def stamped (name : List UInt8) (letter bytes : ℕ) : List UInt8 :=
  name.take bytes ++ (List.replicate bytes (UInt8.ofNat letter)).drop name.length

/-- `digest_of`, and `sha256_hex`. -/
def digestOf (value : List UInt8) : String := String.ofList (Sha256.digest value)

/-- What tells one workload from another. -/
structure Workload where
  operations : ℕ
  /-- The writers. A single one is the main thread, which loops over the numbers. -/
  threads : ℕ
  threads_pos : 0 < threads
  value : ℕ → List UInt8
  durable : ℕ → Bool
  /-- A marker that was written short is written on (`write_all`). -/
  writeAll : Bool
  /-- `gettid` of a writer. -/
  tid : ℕ → ℤ

/-- `Shape`. -/
structure Shape where
  valueBytes : ℕ
  threads : ℕ
  /-- Every nth operation commits at `Durability::None`. Zero means never. -/
  nonDurableEvery : ℕ

/-- `shape_for`. -/
def shapeFor (name : String) : Shape :=
  match name with
  | "large" => ⟨256 * 1024, 1, 0⟩
  | "many" => ⟨64, 1, 0⟩
  | "mixed" => ⟨4096, 1, 2⟩
  | "concurrent" => ⟨4096, 4, 0⟩
  | _ => ⟨4096, 1, 0⟩

/-- `value_for`. -/
def valueFor (key : String) (bytes : ℕ) : List UInt8 :=
  stamped (asciiBytes key) (97 + (asciiBytes key).length % 26) bytes

/-- `redb-workload`. -/
def redbWorkload (shape : Shape) (operations : ℕ) (tid : ℕ → ℤ) : Workload where
  operations := operations
  threads := max 1 shape.threads
  threads_pos := Nat.lt_of_lt_of_le Nat.one_pos (Nat.le_max_left _ _)
  value := fun op => valueFor (opKey op) shape.valueBytes
  durable := fun op => shape.nonDurableEvery == 0 || op % shape.nonDurableEvery != 0
  writeAll := true
  tid := tid

/-- `sqlite-workload`. -/
def sqliteWorkload (operations : ℕ) (tid : ℕ → ℤ) : Workload where
  operations := operations
  threads := 1
  threads_pos := Nat.one_pos
  value := fun op => stamped (asciiBytes (opKey op)) (97 + op % 26) 4096
  durable := fun _ => true
  writeAll := false
  tid := tid

/-- How far a writer is in its loop. -/
inductive Phase where
  | ready
  | taken (op : ℕ)
  | begun (op : ℕ)
  /-- It has the write transaction. -/
  | writing (op : ℕ)
  | committed (op : ℕ)
  /-- No number was left. -/
  | done
  /-- A call returned an error, which ends the writer. -/
  | failed (op : ℕ)
  deriving DecidableEq, Repr

/-- The operation a writer is at. -/
def Phase.op : Phase → Option ℕ
  | .ready | .done => none
  | .taken op | .begun op | .writing op | .committed op | .failed op => some op

/-- One atomic step of a run. -/
inductive WorkloadStep (n : ℕ) where
  /-- A call that is traced, of any thread. -/
  | call
  | take (t : Fin n)
  /-- The first `write` of a marker. -/
  | mark (t : Fin n)
  /-- The next one, after `written` bytes of the last. -/
  | markRest (t : Fin n) (written : ℕ)
  | release (t : Fin n)
  | beginWrite (t : Fin n)
  | commit (t : Fin n)
  | fail (t : Fin n)
  deriving DecidableEq, Repr

namespace Workload

variable (w : Workload)

/-- The marker before an operation. -/
def beginText (op : ℕ) : String :=
  pairsText [("op", toString (op : ℤ)), ("phase", "begin"), ("kind", "put"), ("key", opKey op)]

/-- The marker after its commit returned. -/
def ackText (op : ℕ) : String :=
  pairsText [("op", toString (op : ℤ)), ("phase", "ack"), ("kind", "put"), ("key", opKey op),
    ("digest", digestOf (w.value op)), ("durable", if w.durable op then "1" else "0")]

end Workload

/-- The writers of a workload and what they share. -/
structure World (w : Workload) where
  /-- The number that is taken next. -/
  next : ℕ
  /-- The stamp that is taken next. -/
  clock : ℕ
  threads : Fin w.threads → Phase
  /-- Who holds the mutex of the marker file, and the text of its last `write`. -/
  file : Option (Fin w.threads × List Char)
  /-- The markers that were recorded. -/
  markers : List TraceMarker
  /-- The stamp of the begin marker of each operation. -/
  begunAt : ℕ → Option ℕ
  /-- The stamp that was next when its commit returned. -/
  committedAt : ℕ → Option ℕ
  /-- The stamp of its ack marker. -/
  ackedAt : ℕ → Option ℕ

namespace World

variable {w : Workload} (s : World w)

/-- Before the first step. -/
def start (w : Workload) : World w where
  next := 1
  clock := 0
  threads := fun _ => .ready
  file := none
  markers := []
  begunAt := fun _ => none
  committedAt := fun _ => none
  ackedAt := fun _ => none

def setThread (t : Fin w.threads) (phase : Phase) : World w :=
  { s with threads := Function.update s.threads t phase }

/-- The number after `next`: `fetch_add` wraps around. -/
def successor : ℕ := if w.threads ≤ 1 then s.next + 1 else (s.next + 1) % 2 ^ 64

/-- The next number is taken. -/
def take (t : Fin w.threads) : World w :=
  { s.setThread t (if s.next ≤ w.operations then .taken s.next else .done) with
    next := s.successor }

/-- The mutex is held, and the shim records a marker. -/
def record (t : Fin w.threads) (text : List Char) : World w :=
  { s with
    clock := s.clock + 1
    file := some (t, text)
    markers := s.markers ++ [⟨s.clock, w.tid t, String.ofList text⟩] }

/-- `marker` of the text before an operation. -/
def markBegin (t : Fin w.threads) (op : ℕ) : World w :=
  { s.record t (Workload.beginText op).toList with
    begunAt := Function.update s.begunAt op (some s.clock) }

/-- `marker` of the text after it. -/
def markAck (t : Fin w.threads) (op : ℕ) : World w :=
  { s.record t (w.ackText op).toList with
    ackedAt := Function.update s.ackedAt op (some s.clock) }

/-- The mutex is released. -/
def release (t : Fin w.threads) (phase : Phase) : World w :=
  { s.setThread t phase with file := none }

/-- `commit` returned. -/
def commit (t : Fin w.threads) (op : ℕ) : World w :=
  { s.setThread t (.committed op) with
    committedAt := Function.update s.committedAt op (some s.clock) }

/-- A writer has the write transaction. -/
def isWriting : Bool := (List.finRange w.threads).any fun t =>
  match s.threads t with
  | .writing _ => true
  | _ => false

/-- One step. A transaction waits for the one before it, and an error can come
from any call between the markers. -/
def step : WorkloadStep w.threads → Option (World w)
  | .call => some { s with clock := s.clock + 1 }
  | .take t => if s.threads t = .ready then some (s.take t) else none
  | .mark t =>
      match s.file, s.threads t with
      | none, .taken op => some (s.markBegin t op)
      | none, .committed op => some (s.markAck t op)
      | _, _ => none
  | .markRest t written =>
      match s.file with
      | some (holder, text) =>
          if holder = t ∧ w.writeAll ∧ 0 < written ∧ written < text.length then
            some (s.record t (text.drop written))
          else none
      | none => none
  | .release t =>
      if s.file.map (·.1) = some t then
        match s.threads t with
        | .taken op => some (s.release t (.begun op))
        | .committed _ => some (s.release t .ready)
        | _ => none
      else none
  | .beginWrite t =>
      match s.threads t with
      | .begun op => if s.isWriting then none else some (s.setThread t (.writing op))
      | _ => none
  | .commit t =>
      match s.threads t with
      | .writing op => some (s.commit t op)
      | _ => none
  | .fail t =>
      match s.threads t with
      | .begun op | .writing op => some (s.setThread t (.failed op))
      | _ => none

/-- The steps of a run. -/
def run (w : Workload) (steps : List (WorkloadStep w.threads)) : Option (World w) :=
  steps.foldlM step (start w)

variable {s} {s' : World w} {t t' : Fin w.threads} {phase : Phase} {a : WorkloadStep w.threads}

@[simp] lemma threads_setThread_self : (s.setThread t phase).threads t = phase :=
  Function.update_self _ _ _

lemma threads_setThread_of_ne (h : t' ≠ t) : (s.setThread t phase).threads t' = s.threads t' :=
  Function.update_of_ne h _ _

lemma threads_take_self : (s.take t).threads t =
    if s.next ≤ w.operations then .taken s.next else .done := Function.update_self _ _ _

lemma threads_take_of_ne (h : t' ≠ t) : (s.take t).threads t' = s.threads t' :=
  Function.update_of_ne h _ _

/-! ### What one step can do -/

/-- What a step makes of a world, with what it takes. -/
inductive Moves (s : World w) : World w → Prop where
  | call : Moves s { s with clock := s.clock + 1 }
  | take (t : Fin w.threads) (ht : s.threads t = .ready) : Moves s (s.take t)
  | markBegin (t : Fin w.threads) (op : ℕ) (hfile : s.file = none) (ht : s.threads t = .taken op) :
      Moves s (s.markBegin t op)
  | markAck (t : Fin w.threads) (op : ℕ) (hfile : s.file = none)
      (ht : s.threads t = .committed op) : Moves s (s.markAck t op)
  | markRest (t : Fin w.threads) (text : List Char) (written : ℕ) (hfile : s.file = some (t, text))
      (hwritten : 0 < written) (hlt : written < text.length) :
      Moves s (s.record t (text.drop written))
  | releaseBegin (t : Fin w.threads) (op : ℕ) (hfile : s.file.map (·.1) = some t)
      (ht : s.threads t = .taken op) : Moves s (s.release t (.begun op))
  | releaseAck (t : Fin w.threads) (op : ℕ) (hfile : s.file.map (·.1) = some t)
      (ht : s.threads t = .committed op) : Moves s (s.release t .ready)
  | beginWrite (t : Fin w.threads) (op : ℕ) (ht : s.threads t = .begun op) :
      Moves s (s.setThread t (.writing op))
  | commit (t : Fin w.threads) (op : ℕ) (ht : s.threads t = .writing op) : Moves s (s.commit t op)
  | fail (t : Fin w.threads) (op : ℕ) (ht : s.threads t = .begun op ∨ s.threads t = .writing op) :
      Moves s (s.setThread t (.failed op))

lemma moves_of_step (h : s.step a = some s') : s.Moves s' := by
  cases a with
  | call =>
      obtain rfl := Option.some.inj h
      exact .call
  | take t =>
      rw [step] at h
      split at h
      · next ht =>
          obtain rfl := Option.some.inj h
          exact .take t ht
      · cases h
  | mark t =>
      rw [step] at h
      split at h
      · next op hfile ht =>
          obtain rfl := Option.some.inj h
          exact .markBegin t op hfile ht
      · next op hfile ht =>
          obtain rfl := Option.some.inj h
          exact .markAck t op hfile ht
      · cases h
  | markRest t written =>
      rw [step] at h
      split at h
      · next holder text hfile =>
          split at h
          · next hguard =>
              obtain ⟨rfl, -, hwritten, hlt⟩ := hguard
              obtain rfl := Option.some.inj h
              exact .markRest _ text written hfile hwritten hlt
          · cases h
      · cases h
  | release t =>
      rw [step] at h
      split at h
      · next hfile =>
          split at h
          · next op ht =>
              obtain rfl := Option.some.inj h
              exact .releaseBegin t op hfile ht
          · next op ht =>
              obtain rfl := Option.some.inj h
              exact .releaseAck t op hfile ht
          · cases h
      · cases h
  | beginWrite t =>
      rw [step] at h
      split at h
      · next op ht =>
          split at h
          · cases h
          · obtain rfl := Option.some.inj h
            exact .beginWrite t op ht
      · cases h
  | commit t =>
      rw [step] at h
      split at h
      · next op ht =>
          obtain rfl := Option.some.inj h
          exact .commit t op ht
      · cases h
  | fail t =>
      rw [step] at h
      split at h
      · next op ht =>
          obtain rfl := Option.some.inj h
          exact .fail t op (.inl ht)
      · next op ht =>
          obtain rfl := Option.some.inj h
          exact .fail t op (.inr ht)
      · cases h

/-- What every step keeps holds after a run. -/
lemma run_induct {P : World w → Prop} {steps : List (WorkloadStep w.threads)}
    (hstart : P (start w)) (hstep : ∀ s s', P s → s.Moves s' → P s') (h : run w steps = some s) :
    P s :=
  Runs.invariant (fun _ _ _ hs hm => hstep _ _ hs (moves_of_step hm)) hstart h

end World

/-! ### Values -/

/-- The digits of a number, as bytes. -/
def digitBytes (op : ℕ) : List UInt8 := (Nat.toDigits 10 op).map fun c => UInt8.ofNat c.toNat

lemma toList_opKey (op : ℕ) : (opKey op).toList = 'k' :: Nat.toDigits 10 op := by
  have hnumber : (toString (op : ℤ)).toList = Nat.toDigits 10 op := by
    rw [Decimal.toList_toString_int, Decimal.integerChars, if_neg (by simp)]
    rfl
  rw [opKey, String.toList_append, hnumber]
  rfl

lemma asciiBytes_opKey (op : ℕ) : asciiBytes (opKey op) = 107 :: digitBytes op := by
  rw [asciiBytes, toList_opKey, List.map_cons]
  rfl

/-- A byte that is a digit. -/
def isDigitByte (b : UInt8) : Bool := 48 ≤ b.toNat && b.toNat ≤ 57

lemma toNat_of_isDigit {c : Char} (h : c.isDigit = true) : 48 ≤ c.toNat ∧ c.toNat ≤ 57 :=
  Char.isDigit_iff_toNat.mp h

lemma isDigitByte_digitBytes {op : ℕ} {b : UInt8} (h : b ∈ digitBytes op) :
    isDigitByte b = true := by
  obtain ⟨c, hc, rfl⟩ := List.mem_map.mp h
  have hrange := toNat_of_isDigit (Decimal.isDigit_toDigits hc)
  simp only [isDigitByte, UInt8.toNat_ofNat', Bool.and_eq_true, decide_eq_true_eq]
  omega

/-- The number that a value starts with, after its letter. -/
def startNumber (value : List UInt8) : ℕ :=
  Nat.ofDigitChars 10 ((value.tail.takeWhile isDigitByte).map fun b => Char.ofNat b.toNat) 0

/-- The number of an operation is read off its value. -/
lemma startNumber_stamped {op letter bytes : ℕ} (hletter : 97 ≤ letter ∧ letter ≤ 122)
    (hbytes : (digitBytes op).length < bytes) :
    startNumber (stamped (asciiBytes (opKey op)) letter bytes) = op := by
  have hfull : (107 :: digitBytes op).take bytes = 107 :: digitBytes op :=
    List.take_of_length_le (by rw [List.length_cons]; omega)
  have hrest : ∀ b ∈ (List.replicate bytes (UInt8.ofNat letter)).drop
      (107 :: digitBytes op).length, isDigitByte b = false := by
    intro b hb
    rw [List.drop_replicate] at hb
    obtain rfl := List.eq_of_mem_replicate hb
    simp only [isDigitByte, UInt8.toNat_ofNat', Bool.and_eq_false_iff, decide_eq_false_iff_not]
    omega
  have hdigits : (stamped (asciiBytes (opKey op)) letter bytes).tail.takeWhile isDigitByte =
      digitBytes op := by
    rw [stamped, asciiBytes_opKey, hfull, List.cons_append, List.tail_cons,
      List.takeWhile_append_of_pos fun b hb => isDigitByte_digitBytes hb]
    rw [List.append_right_eq_self, List.takeWhile_eq_nil_iff]
    intro hlength
    exact Bool.eq_false_iff.mp (hrest _ (List.getElem_mem hlength))
  have hchars : (digitBytes op).map (fun b => Char.ofNat b.toNat) = Nat.toDigits 10 op := by
    rw [digitBytes, List.map_map]
    refine (List.map_congr_left fun c hc => ?_).trans (List.map_id _)
    have hrange := toNat_of_isDigit (Decimal.isDigit_toDigits hc)
    rw [Function.comp_apply, UInt8.toNat_ofNat', Nat.mod_eq_of_lt (by omega), Char.ofNat_toNat, id]
  rw [startNumber, hdigits, hchars, Nat.ofDigitChars_ten_toDigits]

/-- No two operations write the same value. -/
lemma stamped_inj {op op' letter letter' bytes : ℕ} (hletter : 97 ≤ letter ∧ letter ≤ 122)
    (hletter' : 97 ≤ letter' ∧ letter' ≤ 122) (hop : (digitBytes op).length < bytes)
    (hop' : (digitBytes op').length < bytes)
    (h : stamped (asciiBytes (opKey op)) letter bytes =
      stamped (asciiBytes (opKey op')) letter' bytes) : op = op' := by
  rw [← startNumber_stamped hletter hop, h, startNumber_stamped hletter' hop']

/-- What is true of the hexadecimal digits is true of a digest. -/
lemma forall_mem_digestOf {P : Char → Prop} (h : ∀ n < 16, P (Nat.digitChar n))
    (value : List UInt8) : ∀ c ∈ (digestOf value).toList, P c := by
  intro c hc
  rw [digestOf, String.toList_ofList, Sha256.digest, List.mem_flatMap] at hc
  obtain ⟨word, -, hc⟩ := hc
  obtain ⟨i, -, rfl⟩ := List.mem_map.mp hc
  exact h _ (Nat.mod_lt _ (by decide))

lemma length_digestOf (value : List UInt8) : (digestOf value).length = 64 := by
  rw [← String.length_toList, digestOf, String.toList_ofList, Sha256.length_digest]

lemma solid_digestOf (value : List UInt8) : Solid (digestOf value) :=
  forall_mem_digestOf (by decide) value

lemma solid_opKey (op : ℕ) : Solid (opKey op) := by
  intro c hc
  rw [toList_opKey] at hc
  rcases List.mem_cons.mp hc with rfl | hc
  · decide
  · exact isTrimmed_of_isDigit (Decimal.isDigit_toDigits hc)

/-- Up to `2 ^ 63` a number has at most nineteen digits. -/
lemma length_digitBytes_le {op : ℕ} (h : op < 2 ^ 63) : (digitBytes op).length ≤ 19 := by
  rw [digitBytes, List.length_map, Nat.length_toDigits_le_iff (by decide) (by decide)]
  omega

end CrashFuzz
