import Mathlib.Data.List.DropRight
import CrashFuzz.Lib.Decimal
import CrashFuzz.Lib.OrderedMap
import CrashFuzz.Oracle.Oracle
import CrashFuzz.Trace.Reader

/-!
The acknowledgement log (`core/src/oracle/acklog.ts`).

* `fields`: the `key=value` pairs of a marker. `fields_pairsText` recovers the
  pairs a marker was written from.
* `toNumber`: a string as a JavaScript number; `toNumber_toString` on integers.
* `parseAckLog`: one record for each operation number that was seen.
* `Logged`, `Interleaved`: operations with their markers in any order. The
  invariant of the reading is `Reads`, kept by each marker (`Reads.step`).
* `parseAckLog_interleaved`: the log is exact when no two operation numbers are
  read as one.
-/

namespace CrashFuzz

/-! ### Strings as numbers -/

/-- The digit `c` stands for in base `base`. -/
def radixDigit (base : ℕ) (c : Char) : Option ℕ :=
  let value :=
    if c.isDigit then some (c.toNat - 48)
    else if 'a' ≤ c && c ≤ 'z' then some (c.toNat - 87)
    else if 'A' ≤ c && c ≤ 'Z' then some (c.toNat - 55)
    else none
  value.filter (· < base)

/-- A literal in base `base`. -/
def radixNumber (base : ℕ) (digits : List Char) : Option ℚ :=
  if digits = [] then none
  else (digits.foldlM (fun n c => (radixDigit base c).map (base * n + ·)) 0).bind fun n : ℕ =>
    Binary64.round n

/-- `Number(text)`, none when the number is not finite. -/
def toNumber (text : String) : Option ℚ :=
  match (text.toList.dropWhile isTrimmed).rdropWhile isTrimmed with
  | [] => some 0
  | '0' :: x :: digits =>
      if x = 'x' ∨ x = 'X' then radixNumber 16 digits
      else if x = 'o' ∨ x = 'O' then radixNumber 8 digits
      else if x = 'b' ∨ x = 'B' then radixNumber 2 digits
      else (Decimal.ofChars ('0' :: x :: digits)).bind Decimal.number
  | cs => (Decimal.ofChars cs).bind Decimal.number

/-! ### Markers -/

/-- The tokens of a text, between white space. -/
def tokens (text : String) : List (List Char) := text.toList.splitOnP isTrimmed

/-- Sets the pair of a token, if it has a name. -/
def setToken (pairs : OrderedMap String String) (token : List Char) : OrderedMap String String :=
  match token.takeWhile (· ≠ '='), token.dropWhile (· ≠ '=') with
  | c :: name, _ :: value => pairs.set (String.ofList (c :: name)) (String.ofList value)
  | _, _ => pairs

/-- `fields`: of two pairs of one name the last one. -/
def fields (text : String) : OrderedMap String String := (tokens text).foldl setToken .empty

/-- The record of an operation that began. -/
def begunRecord (op : ℚ) (pairs : OrderedMap String String) (index : ℕ) : AckedOperation where
  op := op
  kind := (pairs.get? "kind").getD ""
  key := (pairs.get? "key").getD ""
  digest := ""
  beganAt := index
  acknowledgedAt := none
  durable := false

/-- The loop of `parseAckLog`. An ack without a begin makes a record of its own. -/
def readMarker (operations : OrderedMap ℚ AckedOperation) (marker : TraceMarker) :
    OrderedMap ℚ AckedOperation :=
  let pairs := fields marker.text
  match (pairs.get? "op").bind toNumber with
  | none => operations
  | some op =>
      if pairs.get? "phase" = some "begin" then
        operations.set op (begunRecord op pairs marker.index)
      else if pairs.get? "phase" = some "ack" then
        let record := (operations.get? op).getD (begunRecord op pairs marker.index)
        operations.set op
          { record with
            digest := (pairs.get? "digest").getD ""
            acknowledgedAt := some marker.index
            durable := pairs.get? "durable" = some "1" }
      else operations

/-- `parseAckLog`: one record per operation, in the order they began. -/
def parseAckLog (trace : Trace) : List AckedOperation :=
  (trace.markers.foldl readMarker .empty).values.insertionSort (·.beganAt ≤ ·.beganAt)

/-! ### One record for each number -/

/-- A record stands under its own number. -/
def Keyed (operations : OrderedMap ℚ AckedOperation) : Prop :=
  ∀ x r, operations.get? x = some r → r.op = x

lemma Keyed.set {operations : OrderedMap ℚ AckedOperation} (h : Keyed operations) {op : ℚ}
    {r : AckedOperation} (hop : r.op = op) : Keyed (operations.set op r) := by
  intro x r' hr'
  rw [OrderedMap.get?_set] at hr'
  split at hr'
  · rename_i hx
    cases hr'
    rw [hop, hx]
  · exact h x r' hr'

/-- A marker sets a record under its own number, if any. -/
lemma Keyed.readMarker {operations : OrderedMap ℚ AckedOperation} (h : Keyed operations)
    (marker : TraceMarker) : Keyed (readMarker operations marker) := by
  rw [CrashFuzz.readMarker]
  split
  · exact h
  · rename_i op hop
    split_ifs
    · exact h.set rfl
    · refine h.set ?_
      cases hrecord : operations.get? op with
      | none => rfl
      | some r => exact h op r hrecord
    · exact h

/-- No number has two records. -/
lemma nodup_op_parseAckLog (trace : Trace) : ((parseAckLog trace).map (·.op)).Nodup := by
  have hkeyed : ∀ (markers : List TraceMarker) (operations : OrderedMap ℚ AckedOperation),
      Keyed operations → Keyed (markers.foldl readMarker operations) := by
    intro markers
    induction markers with
    | nil => exact fun _ h => h
    | cons m markers ih => exact fun operations h => ih _ (h.readMarker m)
  have hall := hkeyed trace.markers .empty (fun _ _ hr => by cases hr)
  rw [parseAckLog, ((List.perm_insertionSort _ _).map _).nodup_iff, OrderedMap.map_values _ hall]
  exact OrderedMap.nodup _

/-! ### What the reader recovers -/

/-- A text without white space. -/
def Solid (text : String) : Prop := ∀ c ∈ text.toList, isTrimmed c = false

instance (text : String) : Decidable (Solid text) := List.decidableBAll _ text.toList

lemma isTrimmed_of_isDigit {c : Char} (h : c.isDigit = true) : isTrimmed c = false := by
  have hrange : 48 ≤ c.toNat ∧ c.toNat ≤ 57 := by
    rw [Char.isDigit, Bool.and_eq_true, decide_eq_true_eq, decide_eq_true_eq] at h
    exact ⟨UInt32.le_iff_toNat_le.mp h.1, UInt32.le_iff_toNat_le.mp h.2⟩
  simp only [isTrimmed, List.mem_cons, List.not_mem_nil, or_false, Bool.or_eq_false_iff,
    decide_eq_false_iff_not, Bool.and_eq_false_iff, not_or, not_le]
  omega

lemma isTrimmed_integerChars {n : ℤ} {c : Char} (h : c ∈ Decimal.integerChars n) :
    isTrimmed c = false := by
  have hdigits : ∀ d ∈ Nat.toDigits 10 n.natAbs, isTrimmed d = false := fun d hd =>
    isTrimmed_of_isDigit (Decimal.isDigit_toDigits hd)
  rw [Decimal.integerChars] at h
  split at h
  · rcases List.mem_cons.mp h with rfl | h
    · decide
    · exact hdigits c h
  · exact hdigits c h

/-- An integer that was printed is read as the number next to it. -/
lemma toNumber_toString (n : ℤ) : toNumber (toString n) = Binary64.round n := by
  have hleft : (Decimal.integerChars n).dropWhile isTrimmed = Decimal.integerChars n :=
    List.dropWhile_eq_self_iff.mpr fun hl => by
      rw [isTrimmed_integerChars (List.getElem_mem hl)]
      decide
  have hright : (Decimal.integerChars n).rdropWhile isTrimmed = Decimal.integerChars n :=
    List.rdropWhile_eq_self_iff.mpr fun hl => by
      rw [isTrimmed_integerChars (List.getLast_mem hl)]
      decide
  have hliteral : (Decimal.ofChars (Decimal.integerChars n)).bind Decimal.number =
      Binary64.round n := by
    rw [Decimal.ofChars_integerChars, Option.bind_some, Decimal.number_natAbs]
  rw [toNumber, Decimal.toList_toString_int, hleft, hright]
  split
  · rename_i hnil
    exact absurd hnil (Decimal.integerChars_ne_nil n)
  · rename_i x digits hzero
    -- a second character is a digit, so no base is meant
    have hdigit : x.isDigit = true := by
      have hx : x ∈ Decimal.integerChars n := by simp [hzero]
      rw [Decimal.integerChars] at hx hzero
      split at hzero
      · cases hzero
      · rename_i hneg
        rw [if_neg hneg] at hx
        exact Decimal.isDigit_toDigits hx
    have hne : ∀ y : Char, y.isDigit = false → x ≠ y := by
      rintro y hy rfl
      exact absurd hdigit (by simp [hy])
    rw [if_neg (not_or.mpr ⟨hne _ rfl, hne _ rfl⟩), if_neg (not_or.mpr ⟨hne _ rfl, hne _ rfl⟩),
      if_neg (not_or.mpr ⟨hne _ rfl, hne _ rfl⟩), ← hzero]
    exact hliteral
  · exact hliteral

/-- Up to `2 ^ 53` that number is the integer itself. -/
lemma toNumber_toString_of_natAbs_le {n : ℤ} (h : n.natAbs ≤ 2 ^ 53) :
    toNumber (toString n) = some (n : ℚ) := by
  rw [toNumber_toString, Binary64.round_intCast h]

/-- The text of some pairs, as a driver writes it. -/
def pairsText (pairs : List (String × String)) : String :=
  String.ofList ([' '].intercalate (pairs.map fun p => p.1.toList ++ '=' :: p.2.toList))

/-- A name of a pair. -/
def IsName (name : String) : Prop := name ≠ "" ∧ '=' ∉ name.toList ∧ Solid name

lemma tokens_pairsText {p : String × String} {pairs : List (String × String)}
    (h : ∀ q ∈ p :: pairs, Solid q.1 ∧ Solid q.2) :
    tokens (pairsText (p :: pairs)) =
      (p :: pairs).map fun p => p.1.toList ++ '=' :: p.2.toList := by
  have hsolid : ∀ q ∈ p :: pairs, ∀ c ∈ q.1.toList ++ '=' :: q.2.toList, isTrimmed c = false := by
    intro q hq c hc
    rcases List.mem_append.mp hc with hc | hc
    · exact (h q hq).1 c hc
    · rcases List.mem_cons.mp hc with rfl | hc
      · decide
      · exact (h q hq).2 c hc
  rw [tokens, pairsText, String.toList_ofList]
  induction pairs generalizing p with
  | nil => simpa using List.splitOnP_eq_singleton (hsolid p List.mem_cons_self)
  | cons q pairs ih =>
      have hrest := ih (fun r hr => h r (List.mem_cons_of_mem p hr))
        fun r hr => hsolid r (List.mem_cons_of_mem p hr)
      rw [List.map_cons, List.intercalate_cons_of_ne_nil (by simp), List.append_assoc,
        List.singleton_append,
        List.splitOnP_append_cons_of_forall_mem (hsolid p List.mem_cons_self) ' ' (by decide),
        hrest]

lemma setToken_pair {m : OrderedMap String String} {p : String × String} (h : IsName p.1) :
    setToken m (p.1.toList ++ '=' :: p.2.toList) = m.set p.1 p.2 := by
  obtain ⟨hne, heq, -⟩ := h
  have hname : ∀ c ∈ p.1.toList, decide (c ≠ '=') = true := by
    intro c hc
    rw [decide_eq_true_eq]
    rintro rfl
    exact heq hc
  have htake : (p.1.toList ++ '=' :: p.2.toList).takeWhile (· ≠ '=') = p.1.toList := by
    rw [List.takeWhile_append_of_pos hname]
    simp
  have hdrop : (p.1.toList ++ '=' :: p.2.toList).dropWhile (· ≠ '=') = '=' :: p.2.toList := by
    rw [List.dropWhile_append_of_pos hname]
    simp
  rw [setToken, htake, hdrop]
  cases hchars : p.1.toList with
  | nil => exact absurd (String.toList_eq_nil_iff.mp hchars) hne
  | cons c cs =>
      simp only
      rw [← hchars, String.ofList_toList, String.ofList_toList]

/-- The pairs of a marker are recovered from its text. -/
lemma fields_pairsText {p : String × String} {pairs : List (String × String)}
    (h : ∀ q ∈ p :: pairs, IsName q.1 ∧ Solid q.2) :
    fields (pairsText (p :: pairs)) = (p :: pairs).foldl (fun m q => m.set q.1 q.2) .empty := by
  rw [fields, tokens_pairsText fun q hq => ⟨(h q hq).1.2.2, (h q hq).2⟩, List.foldl_map]
  refine List.foldl_ext _ _ _ fun m q hq => setToken_pair (h q hq).1

/-- The first pair is found when no later one has its name. -/
lemma get?_fields_pairsText {p : String × String} {pairs : List (String × String)}
    (h : ∀ q ∈ p :: pairs, IsName q.1 ∧ Solid q.2) (hne : ∀ q ∈ pairs, q.1 ≠ p.1) :
    (fields (pairsText (p :: pairs))).get? p.1 = some p.2 := by
  rw [fields_pairsText h, List.foldl_cons]
  have hkept : ∀ (rest : List (String × String)) (m : OrderedMap String String),
      (∀ q ∈ rest, q.1 ≠ p.1) →
        (rest.foldl (fun m q => m.set q.1 q.2) m).get? p.1 = m.get? p.1 := by
    intro rest
    induction rest with
    | nil => exact fun _ _ => rfl
    | cons q rest ih =>
        intro m hrest
        rw [List.foldl_cons, ih _ fun q' hq' => hrest q' (List.mem_cons_of_mem q hq'),
          OrderedMap.get?_set_of_ne (hrest q List.mem_cons_self).symm]
  rw [hkept pairs _ hne, OrderedMap.get?_set_self]

lemma solid_toString (n : ℤ) : Solid (toString n) := by
  intro c hc
  rw [Decimal.toList_toString_int] at hc
  exact isTrimmed_integerChars hc

/-! ### Operations and their markers -/

/-- The ack marker of an operation. -/
structure Ack where
  stamp : ℕ
  digest : String
  durable : Bool
  digest_solid : Solid digest

/-- A logical operation with the stamps of its markers, and the JavaScript
number its id is read as. -/
structure Logged where
  id : ℤ
  kind : String
  key : String
  beganAt : ℕ
  ack : Option Ack
  kind_solid : Solid kind
  key_solid : Solid key
  number : ℚ
  number_eq : toNumber (toString id) = some number

namespace Logged

variable (o : Logged)

/-- The text of the begin marker. -/
def beginText : String :=
  pairsText [("op", toString o.id), ("phase", "begin"), ("kind", o.kind), ("key", o.key)]

/-- The text of the ack marker. -/
def ackText (a : Ack) : String :=
  pairsText [("op", toString o.id), ("phase", "ack"), ("kind", o.kind), ("key", o.key),
    ("digest", a.digest), ("durable", if a.durable then "1" else "0")]

/-- The record of the operation before its ack. -/
def begun : AckedOperation := ⟨o.number, o.kind, o.key, "", o.beganAt, none, false⟩

/-- The record of the operation with its ack. -/
def acked (a : Ack) : AckedOperation :=
  ⟨o.number, o.kind, o.key, a.digest, o.beganAt, some a.stamp, a.durable⟩

/-- The record of the operation. -/
def record : AckedOperation := o.ack.elim o.begun o.acked

/-- What was read of the operation before stamp `t`. -/
def before (t : ℕ) : Option AckedOperation :=
  if o.beganAt < t then some ((o.ack.filter (·.stamp < t)).elim o.begun o.acked) else none

/-- An id of magnitude up to `2 ^ 53` is read as itself. -/
lemma number_eq_id (h : o.id.natAbs ≤ 2 ^ 53) : o.number = o.id :=
  Option.some.inj (o.number_eq.symm.trans (toNumber_toString_of_natAbs_le h))

lemma solid_id : Solid (toString o.id) := solid_toString o.id

lemma isName_names : ∀ name ∈ ["op", "phase", "kind", "key", "digest", "durable"], IsName name := by
  simp only [IsName]
  decide

/-- What is read of a begin marker. -/
lemma fields_beginText : fields o.beginText =
    ((((OrderedMap.empty.set "op" (toString o.id)).set "phase" "begin").set "kind" o.kind).set
      "key" o.key) := by
  have hphase : Solid "begin" := by decide
  rw [beginText, fields_pairsText]
  · simp only [List.foldl_cons, List.foldl_nil]
  · have hname := isName_names
    simp only [List.forall_mem_cons] at hname ⊢
    exact ⟨⟨hname.1, o.solid_id⟩, ⟨hname.2.1, hphase⟩, ⟨hname.2.2.1, o.kind_solid⟩,
      ⟨hname.2.2.2.1, o.key_solid⟩, List.forall_mem_nil _⟩

/-- What is read of an ack marker. -/
lemma fields_ackText (a : Ack) : fields (o.ackText a) =
    ((((((OrderedMap.empty.set "op" (toString o.id)).set "phase" "ack").set "kind" o.kind).set
      "key" o.key).set "digest" a.digest).set "durable" (if a.durable then "1" else "0")) := by
  have hphase : Solid "ack" := by decide
  have hdurable : Solid (if a.durable then "1" else "0") := by cases a.durable <;> decide
  rw [ackText, fields_pairsText]
  · simp only [List.foldl_cons, List.foldl_nil]
  · have hname := isName_names
    simp only [List.forall_mem_cons] at hname ⊢
    exact ⟨⟨hname.1, o.solid_id⟩, ⟨hname.2.1, hphase⟩, ⟨hname.2.2.1, o.kind_solid⟩,
      ⟨hname.2.2.2.1, o.key_solid⟩, ⟨hname.2.2.2.2.1, a.digest_solid⟩,
      ⟨hname.2.2.2.2.2.1, hdurable⟩, List.forall_mem_nil _⟩

variable {o} {operations : OrderedMap ℚ AckedOperation} {m : TraceMarker}

lemma op_beginText (o : Logged) : (fields o.beginText).get? "op" = some (toString o.id) := by
  simp [fields_beginText, OrderedMap.get?_set]

lemma op_ackText (o : Logged) (a : Ack) :
    (fields (o.ackText a)).get? "op" = some (toString o.id) := by
  simp [fields_ackText, OrderedMap.get?_set]

/-- A begin marker is read. -/
lemma readMarker_begin (htext : m.text = o.beginText) (hindex : m.index = o.beganAt) :
    readMarker operations m = operations.set o.number o.begun := by
  have hop : (fields m.text).get? "op" = some (toString o.id) := htext ▸ o.op_beginText
  have hphase : (fields m.text).get? "phase" = some "begin" := by
    simp [htext, fields_beginText, OrderedMap.get?_set]
  have hrecord : begunRecord o.number (fields m.text) m.index = o.begun := by
    simp [begunRecord, begun, htext, fields_beginText, OrderedMap.get?_set, hindex]
  rw [readMarker]
  simp only [hop, hphase, Option.bind_some, o.number_eq, if_true, hrecord]

/-- An ack marker is read after its begin marker. -/
lemma readMarker_ack {a : Ack} (htext : m.text = o.ackText a) (hindex : m.index = a.stamp)
    (hknown : operations.get? o.number = some o.begun) :
    readMarker operations m = operations.set o.number (o.acked a) := by
  have hop : (fields m.text).get? "op" = some (toString o.id) := htext ▸ o.op_ackText a
  have hphase : (fields m.text).get? "phase" = some "ack" := by
    simp [htext, fields_ackText, OrderedMap.get?_set]
  have hdigest : (fields m.text).get? "digest" = some a.digest := by
    simp [htext, fields_ackText, OrderedMap.get?_set]
  have hdurable : (fields m.text).get? "durable" = some (if a.durable then "1" else "0") := by
    simp [htext, fields_ackText]
  have hflag : decide ((if a.durable then "1" else "0") = "1") = a.durable := by
    cases a.durable <;> decide
  rw [readMarker]
  simp only [hop, hphase, Option.bind_some, o.number_eq]
  rw [if_neg (by decide), if_pos trivial, hknown, hdigest, hdurable]
  simp only [Option.getD_some, Option.some.injEq, hflag]
  rw [begun, acked, hindex]

/-- A marker without an `op` field is not. -/
lemma readMarker_other (h : (fields m.text).get? "op" = none) :
    readMarker operations m = operations := by
  rw [readMarker]
  simp only [h, Option.bind_none]

end Logged

/-! ### Interleaved markers -/

/-- The markers of operations from a stamp on, in any order that has an ack
after its begin, among markers that carry no `op` field. -/
structure Interleaved (ops : List Logged) (t : ℕ) (markers : List TraceMarker) : Prop where
  increasing : markers.Pairwise (·.index < ·.index)
  from_stamp : ∀ m ∈ markers, t ≤ m.index
  begun : ∀ o ∈ ops, t ≤ o.beganAt → ∃ m ∈ markers, m.index = o.beganAt ∧ m.text = o.beginText
  acked : ∀ o ∈ ops, ∀ a, o.ack = some a → o.beganAt < a.stamp ∧
    (t ≤ a.stamp → ∃ m ∈ markers, m.index = a.stamp ∧ m.text = o.ackText a)
  others : ∀ m ∈ markers,
    (∃ o ∈ ops, m.index = o.beganAt ∧ m.text = o.beginText) ∨
      (∃ o ∈ ops, ∃ a, o.ack = some a ∧ m.index = a.stamp ∧ m.text = o.ackText a) ∨
      (fields m.text).get? "op" = none

/-- The records are those of the operations, as far as their markers were read. -/
structure Reads (ops : List Logged) (t : ℕ) (operations : OrderedMap ℚ AckedOperation) : Prop where
  known : ∀ o ∈ ops, operations.get? o.number = o.before t
  only : ∀ x, (∀ o ∈ ops, o.number ≠ x) → operations.get? x = none

variable {ops : List Logged} {t : ℕ} {m : TraceMarker} {markers : List TraceMarker}
  {operations : OrderedMap ℚ AckedOperation}

namespace Interleaved

/-- Two markers with one stamp are one. -/
lemma eq_of_index_eq (h : Interleaved ops t markers) {m m' : TraceMarker} (hm : m ∈ markers)
    (hm' : m' ∈ markers) (hindex : m.index = m'.index) : m = m' :=
  eq_of_key_eq (·.index) h.increasing hm hm' hindex

/-- The text of the marker at the stamp where an operation began. -/
lemma text_of_beganAt (h : Interleaved ops t (m :: markers)) {o : Logged} (ho : o ∈ ops)
    (hindex : m.index = o.beganAt) : m.text = o.beginText := by
  obtain ⟨m', hm', hindex', htext⟩ :=
    h.begun o ho (hindex ▸ h.from_stamp m List.mem_cons_self)
  rwa [h.eq_of_index_eq List.mem_cons_self hm' (hindex.trans hindex'.symm)]

/-- The text of the marker at the stamp where it was acknowledged. -/
lemma text_of_stamp (h : Interleaved ops t (m :: markers)) {o : Logged} (ho : o ∈ ops) {a : Ack}
    (ha : o.ack = some a) (hindex : m.index = a.stamp) : m.text = o.ackText a := by
  obtain ⟨m', hm', hindex', htext⟩ :=
    (h.acked o ho a ha).2 (hindex ▸ h.from_stamp m List.mem_cons_self)
  rwa [h.eq_of_index_eq List.mem_cons_self hm' (hindex.trans hindex'.symm)]

/-- Markers that come later. -/
lemma lt_of_mem (h : Interleaved ops t (m :: markers)) {m' : TraceMarker} (hm' : m' ∈ markers) :
    m.index < m'.index := (List.pairwise_cons.mp h.increasing).1 m' hm'

/-- No operation began between the markers. -/
lemma beganAt_lt (h : Interleaved ops t (m :: markers)) {o : Logged} (ho : o ∈ ops)
    (hlt : o.beganAt < m.index) : o.beganAt < t := by
  by_contra hge
  obtain ⟨m', hm', hindex, -⟩ := h.begun o ho (by omega)
  rcases List.mem_cons.mp hm' with rfl | hm'
  · omega
  · have := h.lt_of_mem hm'
    omega

/-- None was acknowledged between them. -/
lemma stamp_lt (h : Interleaved ops t (m :: markers)) {o : Logged} (ho : o ∈ ops) {a : Ack}
    (ha : o.ack = some a) (hlt : a.stamp < m.index) : a.stamp < t := by
  by_contra hge
  obtain ⟨m', hm', hindex, -⟩ := (h.acked o ho a ha).2 (by omega)
  rcases List.mem_cons.mp hm' with rfl | hm'
  · omega
  · have := h.lt_of_mem hm'
    omega

/-- After a marker, the others are left. -/
lemma tail (h : Interleaved ops t (m :: markers)) : Interleaved ops (m.index + 1) markers where
  increasing := h.increasing.of_cons
  from_stamp := fun m' hm' => h.lt_of_mem hm'
  begun := fun o ho hle => by
    obtain ⟨m', hm', hindex, htext⟩ := h.begun o ho (by
      have := h.from_stamp m List.mem_cons_self
      omega)
    rcases List.mem_cons.mp hm' with rfl | hm'
    · omega
    · exact ⟨m', hm', hindex, htext⟩
  acked := fun o ho a ha => by
    refine ⟨(h.acked o ho a ha).1, fun hle => ?_⟩
    obtain ⟨m', hm', hindex, htext⟩ := (h.acked o ho a ha).2 (by
      have := h.from_stamp m List.mem_cons_self
      omega)
    rcases List.mem_cons.mp hm' with rfl | hm'
    · omega
    · exact ⟨m', hm', hindex, htext⟩
  others := fun m' hm' => h.others m' (List.mem_cons_of_mem m hm')

end Interleaved

namespace Logged

variable {o o' : Logged}

/-- Operations with one id have one number. -/
lemma number_eq_of_op (h : toString o.id = toString o'.id) : o.number = o'.number := by
  have hnumber := o.number_eq
  rw [h, o'.number_eq] at hnumber
  exact (Option.some.inj hnumber).symm

/-- An operation whose marker is not read stays as it is. -/
lemma before_succ (h : Interleaved ops t (m :: markers)) (ho : o ∈ ops)
    (hop : (fields m.text).get? "op" ≠ some (toString o.id)) :
    o.before (m.index + 1) = o.before t := by
  have hle := h.from_stamp m List.mem_cons_self
  have hbegan : m.index ≠ o.beganAt := fun hindex =>
    hop (h.text_of_beganAt ho hindex ▸ o.op_beginText)
  have hbegun : o.beganAt < m.index + 1 ↔ o.beganAt < t :=
    ⟨fun hlt => h.beganAt_lt ho (by omega), fun hlt => by omega⟩
  have hacked : o.ack.filter (·.stamp < m.index + 1) = o.ack.filter (·.stamp < t) := by
    cases ha : o.ack with
    | none => rfl
    | some a =>
        have hack : m.index ≠ a.stamp := fun hindex =>
          hop (h.text_of_stamp ho ha hindex ▸ o.op_ackText a)
        have hstamp : a.stamp < m.index + 1 ↔ a.stamp < t :=
          ⟨fun hlt => h.stamp_lt ho ha (by omega), fun hlt => by omega⟩
        simp only [Option.filter_some, hstamp]
  simp only [before, hbegun, hacked]

/-- Right after its begin marker. -/
lemma before_begin (h : Interleaved ops t (m :: markers)) (ho : o ∈ ops)
    (hindex : m.index = o.beganAt) : o.before (m.index + 1) = some o.begun := by
  have hnone : o.ack.filter (·.stamp < m.index + 1) = none := by
    cases ha : o.ack with
    | none => rfl
    | some a =>
        have hlt := (h.acked o ho a ha).1
        have hstamp : ¬ a.stamp < m.index + 1 := by omega
        simp only [Option.filter_some, hstamp, decide_false, Bool.false_eq_true, if_false]
  rw [before, if_pos (by omega), hnone]
  rfl

/-- Right before its ack marker. -/
lemma before_ack (h : Interleaved ops t (m :: markers)) (ho : o ∈ ops) {a : Ack}
    (ha : o.ack = some a) (hindex : m.index = a.stamp) : o.before t = some o.begun := by
  have hle := h.from_stamp m List.mem_cons_self
  have hlt := (h.acked o ho a ha).1
  have hstamp : ¬ a.stamp < t := by omega
  rw [before, if_pos (h.beganAt_lt ho (by omega)), ha]
  simp only [Option.filter_some, hstamp, decide_false, Bool.false_eq_true, if_false]
  rfl

/-- Right after it. -/
lemma before_ack_succ (h : Interleaved ops t (m :: markers)) (ho : o ∈ ops) {a : Ack}
    (ha : o.ack = some a) (hindex : m.index = a.stamp) :
    o.before (m.index + 1) = some (o.acked a) := by
  have hlt := (h.acked o ho a ha).1
  have hstamp : a.stamp < m.index + 1 := by omega
  rw [before, if_pos (by omega), ha]
  simp only [Option.filter_some, hstamp, decide_true, if_true]
  rfl

end Logged

namespace Reads

/-- The record of one operation is set, the others stay. -/
lemma set (h : Reads ops t operations) (hmarkers : Interleaved ops t (m :: markers))
    (hdistinct : (ops.map (·.number)).Nodup) {o : Logged} (ho : o ∈ ops)
    (hop : (fields m.text).get? "op" = some (toString o.id)) {r : AckedOperation}
    (hr : o.before (m.index + 1) = some r) :
    Reads ops (m.index + 1) (operations.set o.number r) where
  known := fun o' ho' => by
    by_cases hsame : o'.number = o.number
    · obtain rfl : o' = o := List.inj_on_of_nodup_map hdistinct ho' ho hsame
      rw [OrderedMap.get?_set_self, hr]
    · rw [OrderedMap.get?_set_of_ne hsame, h.known o' ho', Logged.before_succ hmarkers ho']
      rw [hop]
      exact fun heq => hsame (Logged.number_eq_of_op (Option.some.inj heq)).symm
  only := fun x hx => by
    rw [OrderedMap.get?_set_of_ne (hx o ho).symm, h.only x hx]

/-- **Reading a marker.** -/
lemma step (h : Reads ops t operations) (hmarkers : Interleaved ops t (m :: markers))
    (hdistinct : (ops.map (·.number)).Nodup) :
    Reads ops (m.index + 1) (readMarker operations m) := by
  rcases hmarkers.others m List.mem_cons_self with
    ⟨o, ho, hindex, htext⟩ | ⟨o, ho, a, ha, hindex, htext⟩ | hnone
  · rw [Logged.readMarker_begin htext hindex]
    exact h.set hmarkers hdistinct ho (htext ▸ o.op_beginText)
      (Logged.before_begin hmarkers ho hindex)
  · have hknown := (h.known o ho).trans (Logged.before_ack hmarkers ho ha hindex)
    rw [Logged.readMarker_ack htext hindex hknown]
    exact h.set hmarkers hdistinct ho (htext ▸ o.op_ackText a)
      (Logged.before_ack_succ hmarkers ho ha hindex)
  · rw [Logged.readMarker_other hnone]
    refine ⟨fun o ho => ?_, h.only⟩
    rw [h.known o ho, Logged.before_succ hmarkers ho]
    simp [hnone]

/-- **Reading all markers**: every operation is known with its whole record. -/
lemma run (h : Reads ops t operations) (hmarkers : Interleaved ops t markers)
    (hdistinct : (ops.map (·.number)).Nodup) :
    (∀ o ∈ ops, (markers.foldl readMarker operations).get? o.number = some o.record) ∧
      ∀ x, (∀ o ∈ ops, o.number ≠ x) → (markers.foldl readMarker operations).get? x = none := by
  induction markers generalizing t operations with
  | nil =>
      refine ⟨fun o ho => ?_, h.only⟩
      have hbegan : o.beganAt < t := by
        by_contra hge
        obtain ⟨m, hm, -⟩ := hmarkers.begun o ho (by omega)
        cases hm
      rw [List.foldl_nil, h.known o ho, Logged.before, if_pos hbegan, Logged.record]
      cases ha : o.ack with
      | none => rfl
      | some a =>
          have hstamp : a.stamp < t := by
            by_contra hge
            obtain ⟨m, hm, -⟩ := (hmarkers.acked o ho a ha).2 (by omega)
            cases hm
          simp only [Option.filter_some, hstamp, decide_true, if_true]
  | cons m markers ih => exact ih (h.step hmarkers hdistinct) hmarkers.tail

end Reads

/-- The numbers of records are those of their operations. -/
lemma Logged.op_record (o : Logged) : o.record.op = o.number := by
  rw [Logged.record]
  cases o.ack <;> rfl

lemma Logged.beganAt_record (o : Logged) : o.record.beganAt = o.beganAt := by
  rw [Logged.record]
  cases o.ack <;> rfl

/-- Different ids of magnitude up to `2 ^ 53` are read as different numbers. -/
lemma Logged.nodup_number (hids : (ops.map (·.id)).Nodup)
    (hsmall : ∀ o ∈ ops, o.id.natAbs ≤ 2 ^ 53) : (ops.map (·.number)).Nodup := by
  have hnumbers : ops.map (·.number) = (ops.map (·.id)).map fun id : ℤ => (id : ℚ) := by
    rw [List.map_map]
    exact List.map_congr_left fun o ho => o.number_eq_id (hsmall o ho)
  rw [hnumbers]
  exact hids.map Int.cast_injective

/-- The values of a map are the records of the operations it knows. -/
lemma values_perm (hdistinct : (ops.map (·.number)).Nodup)
    (hknown : ∀ o ∈ ops, operations.get? o.number = some o.record)
    (honly : ∀ x, (∀ o ∈ ops, o.number ≠ x) → operations.get? x = none) :
    operations.values.Perm (ops.map Logged.record) := by
  have hrecord : ∀ {x r}, operations.get? x = some r → ∃ o ∈ ops, o.number = x ∧ o.record = r := by
    intro x r hr
    by_contra hnone
    have habsent := honly x fun o ho hx => hnone ⟨o, ho, hx, by
      rw [← hx, hknown o ho] at hr
      exact Option.some.inj hr⟩
    rw [habsent] at hr
    cases hr
  have hvalues : operations.values.Nodup := by
    have hkeyed : Keyed operations := fun x r hr => by
      obtain ⟨o, -, hx, hrec⟩ := hrecord hr
      rw [← hrec, o.op_record, hx]
    exact List.Nodup.of_map (·.op) (OrderedMap.map_values _ hkeyed ▸ operations.nodup)
  have hrecords : (ops.map Logged.record).Nodup := by
    have hops : (ops.map Logged.record).map (·.op) = ops.map (·.number) := by
      rw [List.map_map]
      exact List.map_congr_left fun o _ => o.op_record
    exact List.Nodup.of_map (·.op) (hops ▸ hdistinct)
  refine (List.perm_ext_iff_of_nodup hvalues hrecords).mpr fun r => ?_
  rw [OrderedMap.mem_values_iff, List.mem_map]
  constructor
  · rintro ⟨x, hx⟩
    obtain ⟨o, ho, -, hr⟩ := hrecord hx
    exact ⟨o, ho, hr⟩
  · rintro ⟨o, ho, rfl⟩
    exact ⟨o.number, hknown o ho⟩

/-- Operations begin at different stamps. -/
lemma Interleaved.nodup_beganAt (h : Interleaved ops 0 markers)
    (hdistinct : (ops.map (·.number)).Nodup) : (ops.map (·.beganAt)).Nodup := by
  refine (List.nodup_map_iff_inj_on (List.Nodup.of_map (·.number) hdistinct)).mpr ?_
  intro o ho o' ho' hsame
  obtain ⟨m, hm, hindex, htext⟩ := h.begun o ho (Nat.zero_le _)
  obtain ⟨m', hm', hindex', htext'⟩ := h.begun o' ho' (Nat.zero_le _)
  obtain rfl : m = m' := h.eq_of_index_eq hm hm' (by omega)
  have hop : toString o.id = toString o'.id := by
    have hread := o.op_beginText
    rw [← htext, htext', o'.op_beginText] at hread
    exact (Option.some.inj hread).symm
  exact List.inj_on_of_nodup_map hdistinct ho ho' (Logged.number_eq_of_op hop)

/-- The log has one record for each operation. -/
lemma Interleaved.parseAckLog_perm {trace : Trace} (h : Interleaved ops 0 trace.markers)
    (hdistinct : (ops.map (·.number)).Nodup) :
    (parseAckLog trace).Perm (ops.map Logged.record) := by
  have hbegin : Reads ops 0 .empty := ⟨fun o _ => rfl, fun _ _ => rfl⟩
  obtain ⟨hknown, honly⟩ := hbegin.run h hdistinct
  exact (List.perm_insertionSort _ _).trans (values_perm hdistinct hknown honly)

/-- It has them in the order in which they began. -/
lemma Interleaved.pairwise_parseAckLog {trace : Trace} (h : Interleaved ops 0 trace.markers)
    (hdistinct : (ops.map (·.number)).Nodup) :
    (parseAckLog trace).Pairwise (·.beganAt < ·.beganAt) := by
  have hT : Std.Total (fun a b : AckedOperation => a.beganAt ≤ b.beganAt) :=
    ⟨fun a b => le_total _ _⟩
  have hT' : IsTrans AckedOperation (fun a b => a.beganAt ≤ b.beganAt) := ⟨fun _ _ _ => le_trans⟩
  have hne : (parseAckLog trace).Pairwise (fun a b => a.beganAt ≠ b.beganAt) := by
    have hstamps : ((ops.map Logged.record).map (·.beganAt)).Nodup := by
      rw [List.map_map]
      have hmap : ops.map ((·.beganAt) ∘ Logged.record) = ops.map (·.beganAt) :=
        List.map_congr_left fun o _ => o.beganAt_record
      rw [hmap]
      exact h.nodup_beganAt hdistinct
    have hnodup : ((parseAckLog trace).map (·.beganAt)).Nodup :=
      ((h.parseAckLog_perm hdistinct).map (·.beganAt)).nodup_iff.mpr hstamps
    exact List.pairwise_map.mp hnodup
  exact ((List.pairwise_insertionSort _ _).and hne).imp fun hab => lt_of_le_of_ne hab.1 hab.2

/-- **The log is exact** under every interleaving of operations whose ids are
read as different numbers: one record for each of them, in the order they began. -/
theorem parseAckLog_interleaved {trace : Trace} (h : Interleaved ops 0 trace.markers)
    (hdistinct : (ops.map (·.number)).Nodup) :
    (parseAckLog trace).Perm (ops.map Logged.record) ∧
      (parseAckLog trace).Pairwise (·.beganAt < ·.beganAt) :=
  ⟨h.parseAckLog_perm hdistinct, h.pairwise_parseAckLog hdistinct⟩

/-- A put that has not been acknowledged. -/
def pendingPut (id : ℤ) (number : ℚ) (h : toNumber (toString id) = some number) (beganAt : ℕ) :
    Logged where
  id := id
  kind := "put"
  key := "k=1"
  beganAt := beganAt
  ack := none
  kind_solid := by decide
  key_solid := by decide
  number := number
  number_eq := h

lemma toNumber_large : toNumber (toString (9007199254740992 : ℤ)) = some 9007199254740992 ∧
    toNumber (toString (9007199254740993 : ℤ)) = some 9007199254740992 := by
  rw [toNumber_toString, toNumber_toString]
  decide +kernel

/-- Two puts whose ids are read as one number. -/
def collidingOps : List Logged :=
  [pendingPut 9007199254740992 9007199254740992 toNumber_large.1 0,
    pendingPut 9007199254740993 9007199254740992 toNumber_large.2 1]

/-- The trace of two puts that began. -/
def begunTrace (ops : List Logged) : Trace where
  header := ⟨1, 7⟩
  events := []
  markers := ops.map fun o => ⟨o.beganAt, 1, o.beginText⟩

lemma interleaved_collidingOps :
    Interleaved collidingOps 0 (begunTrace collidingOps).markers where
  increasing := by decide
  from_stamp := fun _ _ => Nat.zero_le _
  begun := fun o ho _ => ⟨_, List.mem_map_of_mem ho, rfl, rfl⟩
  acked := fun o ho a ha => by
    have hnone : ∀ o ∈ collidingOps, o.ack = none := by simp [collidingOps, pendingPut]
    rw [hnone o ho] at ha
    cases ha
  others := fun m hm => by
    obtain ⟨o, ho, rfl⟩ := List.mem_map.mp hm
    exact .inl ⟨o, ho, rfl, rfl⟩

/-- Of two operations whose ids are read as one number, one is lost. -/
theorem colliding_lost :
    (collidingOps.map (·.id)).Nodup ∧ Interleaved collidingOps 0 (begunTrace collidingOps).markers ∧
      ¬ (parseAckLog (begunTrace collidingOps)).Perm (collidingOps.map Logged.record) := by
  refine ⟨by decide, interleaved_collidingOps, fun hperm => ?_⟩
  have hlength := hperm.length_eq
  have hfold : ((begunTrace collidingOps).markers.foldl readMarker .empty).values.length = 1 := by
    simp only [begunTrace, collidingOps, List.map_cons, List.map_nil, List.foldl_cons,
      List.foldl_nil]
    rw [Logged.readMarker_begin rfl rfl, Logged.readMarker_begin rfl rfl]
    decide
  rw [parseAckLog, List.length_insertionSort, hfold] at hlength
  cases hlength

lemma toNumber_small :
    toNumber (toString (1 : ℤ)) = some 1 ∧ toNumber (toString (2 : ℤ)) = some 2 := by
  rw [toNumber_toString, toNumber_toString]
  decide +kernel

/-- The first of two puts is acknowledged after the second one began. -/
def crossingOps : List Logged :=
  [{ pendingPut 1 1 toNumber_small.1 0 with ack := some ⟨3, "aa", true, by decide⟩ },
    pendingPut 2 2 toNumber_small.2 1]

/-- Its markers, with another one in between. -/
def crossingTrace : Trace where
  header := ⟨1, 7⟩
  events := []
  markers :=
    [⟨0, 1, "op=1 phase=begin kind=put key=k=1"⟩, ⟨1, 2, "op=2 phase=begin kind=put key=k=1"⟩,
      ⟨2, 2, "checkpoint"⟩, ⟨3, 1, "op=1 phase=ack kind=put key=k=1 digest=aa durable=1"⟩]

/-- Both are recorded, the first one with its ack. -/
theorem crossing_recorded :
    (parseAckLog crossingTrace).Perm
        [⟨1, "put", "k=1", "aa", 0, some 3, true⟩, ⟨2, "put", "k=1", "", 1, none, false⟩] ∧
      (parseAckLog crossingTrace).Pairwise (·.beganAt < ·.beganAt) := by
  refine @parseAckLog_interleaved crossingOps crossingTrace ⟨by decide, by simp, ?_, ?_, ?_⟩
    (by decide)
  · simp only [crossingOps, crossingTrace, List.forall_mem_cons]
    decide +kernel
  · simp only [crossingOps, crossingTrace, List.forall_mem_cons]
    decide +kernel
  · intro m hm
    simp only [crossingTrace, List.mem_cons, List.not_mem_nil, or_false] at hm
    rcases hm with rfl | rfl | rfl | rfl
    · exact .inl ⟨_, List.mem_cons_self, rfl, by decide +kernel⟩
    · exact .inl ⟨_, List.mem_cons_of_mem _ List.mem_cons_self, rfl, by decide +kernel⟩
    · exact .inr (.inr (by decide +kernel))
    · exact .inr (.inl ⟨_, List.mem_cons_self, _, rfl, rfl, by decide +kernel⟩)

end CrashFuzz
