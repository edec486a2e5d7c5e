import CrashFuzz.Lib.Decimal
import CrashFuzz.Shim.Errno
import CrashFuzz.Shim.Stamps

/-!
Records in their buffer (`emit_event`, `emit_marker` and `emit` in
`shim/src/shim.c`), byte by byte.

* `snprintf`, `emit`: a text is cut to the buffer, and as many bytes are written
  as it wanted.
* `EventRecord.text`, `MarkerRecord.text`: what is printed.
* `written_whole_iff`: a record is written whole exactly when all of it fits;
  `EventRecord.size` says how long that is. Markers always fit.
* `printed_eq_emit`: what the stamps of a run are read from.
-/

namespace CrashFuzz.Shim

/-! ### Printing into a buffer -/

/-- What `snprintf` stored before its NUL, and what it returned. -/
structure Snprintf where
  stored : List UInt8
  returned : ℕ

/-- `snprintf` of a text into a buffer: it returns the length it wanted. -/
def snprintf (size : ℕ) (wanted : List UInt8) : Snprintf where
  stored := wanted.take (size - 1)
  returned := wanted.length

/-- `emit(record, (size_t)len)`: so many bytes from the start of the buffer,
where `behind` is what the memory holds after the NUL. -/
def emit (s : Snprintf) (behind : List UInt8) : List UInt8 :=
  (s.stored ++ 0 :: behind).take s.returned

/-- Of a text that does not fit, the stored part is written with its NUL, and
with what lies behind it. -/
lemma emit_snprintf_of_le {size : ℕ} {wanted behind : List UInt8} (hsize : 0 < size)
    (h : size ≤ wanted.length) :
    emit (snprintf size wanted) behind =
      wanted.take (size - 1) ++ 0 :: behind.take (wanted.length - size) := by
  have hstored : (wanted.take (size - 1)).length = size - 1 := by
    rw [List.length_take]
    omega
  have hrest : wanted.length - (size - 1) = wanted.length - size + 1 := by omega
  have hall : wanted.length ≥ (wanted.take (size - 1)).length := by omega
  rw [emit, snprintf]
  simp only
  rw [List.take_append, List.take_of_length_le hall, hstored, hrest, List.take_succ_cons]

/-- A text that fits is written as it is. -/
lemma emit_snprintf_of_lt {size : ℕ} {wanted : List UInt8} (h : wanted.length < size)
    (behind : List UInt8) : emit (snprintf size wanted) behind = wanted := by
  have hall : wanted.take (size - 1) = wanted :=
    List.take_of_length_le (Nat.le_sub_one_of_lt h)
  rw [emit, snprintf, hall, List.take_left]

/-- No more is written than was stored: all of the text, up to the line break that it
ends with. -/
structure WrittenWhole (wanted behind : List UInt8) : Prop where
  returned_le : (snprintf recordMax wanted).returned ≤ (snprintf recordMax wanted).stored.length
  emitted : emit (snprintf recordMax wanted) behind = wanted
  ended : wanted.getLast? = some '\n'.toUInt8

/-- A text is written whole exactly when there is room for its NUL. -/
lemma writtenWhole_iff {wanted behind : List UInt8} (h : wanted.getLast? = some '\n'.toUInt8) :
    WrittenWhole wanted behind ↔ wanted.length < recordMax := by
  refine ⟨fun hw => ?_, fun hlt => ⟨?_, ?_, h⟩⟩
  · have hle := hw.returned_le
    simp only [snprintf, List.length_take, recordMax] at hle ⊢
    omega
  · simp only [snprintf, List.length_take, recordMax] at hlt ⊢
    omega
  · exact emit_snprintf_of_lt hlt behind

/-! ### Texts -/

/-- The bytes of a text. -/
def utf8 (text : String) : List UInt8 := text.toList.flatMap String.utf8EncodeChar

/-- `%d`, `%lld`, `%llu` and `%zu`. -/
def decimal (n : ℤ) : List UInt8 := utf8 (toString n)

@[simp] lemma length_utf8 (text : String) :
    (utf8 text).length = (text.toList.map Char.utf8Size).sum := by
  simp [utf8, List.length_flatMap]

/-- A number is printed with ASCII characters only. -/
lemma length_decimal (n : ℤ) : (decimal n).length = (Decimal.integerChars n).length := by
  have hone : ∀ c ∈ Decimal.integerChars n, c.utf8Size = 1 := by
    intro c hc
    have hdigit : ∀ d ∈ Nat.toDigits 10 n.natAbs, d.utf8Size = 1 := fun d hd => by
      have := Char.isDigit_iff_toNat.mp (Decimal.isDigit_toDigits hd)
      rw [Char.utf8Size_eq_one_iff, UInt32.le_iff_toNat_le]
      exact le_trans this.2 (by decide)
    rw [Decimal.integerChars] at hc
    split at hc
    · rcases List.mem_cons.mp hc with rfl | hc
      · decide
      · exact hdigit c hc
    · exact hdigit c hc
  rw [decimal, length_utf8, Decimal.toList_toString_int, List.map_congr_left hone]
  simp

lemma length_decimal_le {n : ℤ} {k : ℕ} (hk : 0 < k) (h : n.natAbs < 10 ^ k) :
    (decimal n).length ≤ k + 1 := by
  have hdigits := (Nat.length_toDigits_le_iff (b := 10) (by decide) hk).mpr h
  rw [length_decimal, Decimal.integerChars]
  split
  · exact Nat.succ_le_succ hdigits
  · omega

lemma length_decimal_nat_le {n k : ℕ} (hk : 0 < k) (h : n < 10 ^ k) :
    (decimal n).length ≤ k := by
  have hdigits := (Nat.length_toDigits_le_iff (b := 10) (by decide) hk).mpr h
  rw [length_decimal, Decimal.integerChars, if_neg (by simp)]
  exact hdigits

lemma length_decimal_pos (n : ℤ) : 0 < (decimal n).length := by
  rw [length_decimal]
  exact List.length_pos_iff.mpr (Decimal.integerChars_ne_nil n)

/-- `%llu` and `%zu`. -/
lemma length_decimal_uint64 (n : UInt64) : (decimal n.toNat).length ≤ 20 :=
  length_decimal_nat_le (by decide) (n.toNat_lt.trans (by decide))

/-- `%d`. -/
lemma length_decimal_int32 (n : Int32) : (decimal n.toInt).length ≤ 11 := by
  have hlo := n.le_toInt
  have hhi := n.toInt_lt
  exact length_decimal_le (by decide) (by omega)

/-- `%lld`. -/
lemma length_decimal_int64 (n : Int64) : (decimal n.toInt).length ≤ 20 := by
  have hlo := n.le_toInt
  have hhi := n.toInt_lt
  exact length_decimal_le (by decide) (by omega)

/-- A format, cut at its conversions, with what these print. -/
def printf : List String → List (List UInt8) → List UInt8
  | part :: parts, argument :: arguments => utf8 part ++ argument ++ printf parts arguments
  | parts, _ => parts.flatMap utf8

lemma length_printf {parts : List String} {arguments : List (List UInt8)}
    (h : arguments.length < parts.length) :
    (printf parts arguments).length =
      (parts.map fun s => (utf8 s).length).sum + (arguments.map List.length).sum := by
  fun_induction printf parts arguments with
  | case1 part parts argument arguments ih =>
      have ih := ih (by simpa using h)
      simp only [List.length_append, ih, List.map_cons, List.sum_cons]
      omega
  | case2 parts arguments hne =>
      cases arguments with
      | nil => simp [List.length_flatMap]
      | cons argument arguments =>
          obtain ⟨part, parts, rfl⟩ := List.exists_cons_of_length_pos (by omega : 0 < parts.length)
          exact absurd rfl (hne part parts argument arguments rfl)

/-- The format of `emit_event`. -/
def eventFormat : List String :=
  ["\x7b\"rec\":\"event\",\"i\":", ",\"j\":", ",\"call\":\"", "\",\"fd\":", ",\"tid\":",
    ",\"path\":\"", "\",\"path2\":\"", "\",\"off\":", ",\"len\":", ",\"ret\":", ",\"err\":",
    ",\"flags\":", ",\"t\":", ",\"dig\":\"", "\"\x7d\n"]

/-- A C string that fits `PATH_MAX` with its NUL. -/
structure CString where
  bytes : List UInt8
  not_mem : 0 ∉ bytes
  length_lt : bytes.length < pathMax

/-- `sha256_hex`, or no digest. -/
structure Digest where
  bytes : List UInt8
  length_eq : bytes.length = digestLength

/-- What `emit_event` is called with and takes itself. A path is none where the
source passes `NULL`. -/
structure EventRecord where
  index : UInt64
  completion : UInt64
  call : CallName
  fd : Int32
  tid : Int32
  path : Option CString
  path2 : Option CString
  offset : Int64
  length : UInt64
  ret : Int64
  err : Int32
  flags : Int32
  time : UInt64
  digest : Option Digest

namespace EventRecord

variable (e : EventRecord)

/-- `path == NULL ? "" : path`. -/
def pathBytes : List UInt8 := e.path.elim [] CString.bytes

def path2Bytes : List UInt8 := e.path2.elim [] CString.bytes

def digestBytes : List UInt8 := e.digest.elim [] Digest.bytes

/-- What the conversions of the format print. -/
def arguments : List (List UInt8) :=
  [decimal e.index.toNat, decimal e.completion.toNat, utf8 (callText e.call),
    decimal e.fd.toInt, decimal e.tid.toInt, e.pathBytes, e.path2Bytes,
    decimal e.offset.toInt, decimal e.length.toNat, decimal e.ret.toInt, decimal e.err.toInt,
    decimal e.flags.toInt, decimal e.time.toNat, e.digestBytes]

/-- The record as `emit_event` prints it. -/
def text : List UInt8 := printf eventFormat e.arguments

/-- The bytes of a record: those of the format, and of its arguments. -/
def size : ℕ := 121 + (e.arguments.map List.length).sum

lemma length_eventFormat : (eventFormat.map fun s => (utf8 s).length).sum = 121 := by
  decide +kernel

lemma length_text : e.text.length = e.size := by
  rw [text, size, length_printf (by simp [eventFormat, arguments]), length_eventFormat]

lemma length_callText (call : CallName) :
    4 ≤ (utf8 (callText call)).length ∧ (utf8 (callText call)).length ≤ 15 := by
  cases call <;> decide

lemma length_digestBytes : e.digestBytes.length ≤ digestLength := by
  rw [digestBytes]
  cases e.digest with
  | none => exact Nat.zero_le _
  | some digest => exact digest.length_eq.le

/-- All but the paths takes between 135 and 364 bytes. -/
lemma size_bounds :
    e.pathBytes.length + e.path2Bytes.length + 135 ≤ e.size ∧
      e.size ≤ e.pathBytes.length + e.path2Bytes.length + 364 := by
  have hcall := length_callText e.call
  have hdigest := e.length_digestBytes
  rw [digestLength] at hdigest
  have hunsigned := fun n : UInt64 =>
    And.intro (length_decimal_pos n.toNat) (length_decimal_uint64 n)
  have hint := fun n : Int32 => And.intro (length_decimal_pos n.toInt) (length_decimal_int32 n)
  have hlong := fun n : Int64 => And.intro (length_decimal_pos n.toInt) (length_decimal_int64 n)
  have h1 := hunsigned e.index
  have h2 := hunsigned e.completion
  have h3 := hunsigned e.length
  have h4 := hunsigned e.time
  have h5 := hint e.fd
  have h6 := hint e.tid
  have h7 := hint e.err
  have h8 := hint e.flags
  have h9 := hlong e.offset
  have h10 := hlong e.ret
  simp only [size, arguments, List.map_cons, List.map_nil, List.sum_cons, List.sum_nil]
  omega

end EventRecord

/-! ### Markers -/

/-- What `emit_marker` is called with and takes itself. -/
structure MarkerRecord where
  index : UInt64
  tid : Int32
  /-- The bytes of the write, of which C may see the end before `len`. -/
  data : List UInt8

/-- The format of `emit_marker`. -/
def markerFormat : List String :=
  ["\x7b\"rec\":\"marker\",\"i\":", ",\"tid\":", ",\"text\":\"", "\"\x7d\n"]

namespace MarkerRecord

variable (m : MarkerRecord)

/-- `%.*s`: at most so many bytes, and none from a NUL on. -/
def shown : List UInt8 := (m.data.take (min m.data.length markerTextMax)).takeWhile (· ≠ 0)

/-- The record as `emit_marker` prints it. -/
def text : List UInt8 :=
  printf markerFormat [decimal m.index.toNat, decimal m.tid.toInt, m.shown]

/-- A marker fits its buffer, whatever its text. -/
lemma length_text_lt : m.text.length < recordMax := by
  have hformat : (markerFormat.map fun s => (utf8 s).length).sum = 39 := by decide +kernel
  have hindex := length_decimal_uint64 m.index
  have htid := length_decimal_int32 m.tid
  have hshown : m.shown.length ≤ markerTextMax := by
    refine (List.takeWhile_prefix _).length_le.trans ?_
    rw [List.length_take]
    omega
  rw [text, length_printf (by simp [markerFormat]), hformat]
  simp only [List.map_cons, List.map_nil, List.sum_cons, List.sum_nil, recordMax,
    markerTextMax] at hshown ⊢
  omega

end MarkerRecord

/-! ### Records in a segment -/

/-- Both kinds of records end their line. -/
lemma getLast?_printf {parts : List String} {arguments : List (List UInt8)} {c : UInt8}
    (hlen : arguments.length < parts.length)
    (hlast : ∀ part ∈ parts.getLast?, (utf8 part).getLast? = some c) :
    (printf parts arguments).getLast? = some c := by
  fun_induction printf parts arguments with
  | case1 part parts argument arguments ih =>
      have hlen : arguments.length < parts.length := by simpa using hlen
      obtain ⟨first, rest, rfl⟩ := List.exists_cons_of_length_pos (by omega : 0 < parts.length)
      rw [List.getLast?_append, ih hlen fun last hl => hlast last (by simpa using hl),
        Option.some_or]
  | case2 parts arguments hne =>
      have hpos : parts ≠ [] := List.ne_nil_of_length_pos (by omega)
      have hsplit := List.dropLast_append_getLast hpos
      have hend := hlast _ (List.getLast?_eq_some_getLast hpos)
      rw [← hsplit, List.flatMap_append, List.getLast?_append, List.flatMap_singleton, hend,
        Option.some_or]

/-- Each record is written whole, up to the end of its line, exactly when its
size is below the size of the buffer. Every marker is. -/
theorem written_whole_iff (behind : List UInt8) :
    (∀ e : EventRecord, WrittenWhole e.text behind ↔ e.size < recordMax) ∧
      ∀ m : MarkerRecord, WrittenWhole m.text behind := by
  refine ⟨fun e => ?_, fun m => ?_⟩
  · have hended : e.text.getLast? = some '\n'.toUInt8 :=
      getLast?_printf (by simp [eventFormat, EventRecord.arguments]) (by decide)
    rw [writtenWhole_iff hended, e.length_text]
  · have hended : m.text.getLast? = some '\n'.toUInt8 :=
      getLast?_printf (by simp [markerFormat]) (by decide)
    exact (writtenWhole_iff hended).mpr m.length_text_lt

/-- Ten names of 199 letters. -/
def longPathBytes : List UInt8 := (List.replicate 10 (47 :: List.replicate 199 97)).flatten

lemma length_longPathBytes : longPathBytes.length = 2000 := by
  rw [longPathBytes, List.length_flatten, List.map_replicate, List.length_cons,
    List.length_replicate, List.sum_replicate]
  rfl

/-- A path that any system call takes. -/
def longPath : CString where
  bytes := longPathBytes
  not_mem h := by
    obtain ⟨name, hname, hmem⟩ := List.mem_flatten.mp h
    rw [List.eq_of_mem_replicate hname] at hmem
    rcases List.mem_cons.mp hmem with hslash | hletter
    · cases hslash
    · cases List.eq_of_mem_replicate hletter
  length_lt := by
    rw [length_longPathBytes, pathMax]
    decide

/-- A rename between two of them. -/
def longRename : EventRecord where
  index := 3
  completion := 4
  call := .rename
  fd := -1
  tid := 100
  path := some longPath
  path2 := some longPath
  offset := 0
  length := 0
  ret := 0
  err := 0
  flags := 0
  time := 0
  digest := none

/-- It is cut, and more is written than was stored. -/
theorem longRename_cut : ¬ WrittenWhole longRename.text [] := by
  have hsize := longRename.size_bounds.1
  have hpath : longRename.pathBytes.length = 2000 := length_longPathBytes
  have hpath2 : longRename.path2Bytes.length = 2000 := length_longPathBytes
  intro hwhole
  have hle := hwhole.returned_le
  simp only [snprintf, List.length_take, recordMax, longRename.length_text] at hle
  omega

/-! ### Records of a run -/

lemma toList_loop (bytes : ByteArray) (i : ℕ) (r : List UInt8) :
    ByteArray.toList.loop bytes i r = r.reverse ++ bytes.data.toList.drop i := by
  fun_induction ByteArray.toList.loop bytes i r with
  | case1 i r h ih =>
      have hi : i < bytes.data.toList.length := by simpa using h
      have hget : bytes.get! i = bytes.data.toList[i] := by simp [ByteArray.get!, h]
      rw [ih, hget, List.drop_eq_getElem_cons hi, List.reverse_cons, List.append_assoc,
        List.singleton_append]
  | case2 i r h =>
      rw [List.drop_eq_nil_of_le (by simpa using h), List.append_nil]

lemma toUTF8_toList (text : String) : text.toUTF8.toList = utf8 text := by
  obtain ⟨chars, rfl⟩ := String.exists_eq_ofList text
  rw [ByteArray.toList, toList_loop, utf8, String.toList_ofList]
  simp [List.utf8Encode]

lemma utf8_append (s t : String) : utf8 (s ++ t) = utf8 s ++ utf8 t := by
  rw [utf8, String.toList_append, List.flatMap_append, utf8, utf8]

/-- A line is printed piece by piece. -/
lemma lineBytes_eq (line : Line) : lineBytes line = line.pieces.flatMap utf8 ++ utf8 "\n" := by
  rw [lineBytes, toUTF8_toList, utf8_append, utf8, line.toList_text, Line.chars,
    List.flatMap_assoc]
  rfl

/-- What a run writes of a record is what `emit` makes of it. -/
lemma printed_eq_emit (line : Line) (behind : List UInt8) :
    printed line behind = emit (snprintf recordMax (lineBytes line)) behind := by
  have hsize : (lineBytes line).length = line.size := by
    rw [lineBytes, toUTF8_toList, utf8_append, List.length_append, length_utf8, line.toList_text]
    rfl
  rw [printed]
  split
  · exact (emit_snprintf_of_lt (by omega) behind).symm
  · rw [emit_snprintf_of_le (by decide) (by omega), hsize]

/-- An event with texts is the record that the stamps of a run are read from. -/
lemma EventRecord.text_eq_lineBytes (e : EventRecord) {path path2 digest : String} {flags : ℕ}
    (hpath : utf8 path = e.pathBytes) (hpath2 : utf8 path2 = e.path2Bytes)
    (hdigest : utf8 digest = e.digestBytes) (hflags : e.flags.toInt = flags) :
    e.text = lineBytes
      ⟨.event
        { index := e.index.toNat
          completionIndex := e.completion.toNat
          call := e.call
          fd := e.fd.toInt
          threadId := e.tid.toInt
          path := path
          path2 := path2
          offset := e.offset.toInt
          length := e.length.toNat
          returnValue := e.ret.toInt
          errno := e.err.toInt
          digest := digest },
        flags, e.time.toNat⟩ := by
  have hend : utf8 "\"\x7d\n" = utf8 "\"\x7d" ++ utf8 "\n" := by decide
  rw [lineBytes_eq, EventRecord.text, eventFormat, EventRecord.arguments, ← hpath, ← hpath2,
    ← hdigest, hflags]
  simp only [printf, Line.pieces, List.flatMap_cons, List.flatMap_nil, hend, List.append_nil,
    List.append_assoc]
  rfl

end CrashFuzz.Shim
