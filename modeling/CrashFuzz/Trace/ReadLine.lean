import CrashFuzz.Lib.Json
import CrashFuzz.Trace.Reader

/-!
Reading one line of a trace (`JSON.parse` and the field reads of `toEvent` and
`parseTrace`).

* `readLine`: the record of a line. TypeScript casts the fields without a
  check; a field whose value is not of the type it is cast to has no place in
  `TraceEvent`, and such a record is refused here.
-/

namespace CrashFuzz

open Json

/-- The character of a code point, none for half of a surrogate pair. -/
def charOfCode (code : ℕ) : Option Char :=
  if h : code.isValidChar then some (Char.ofNatAux code h) else none

/-- The text of a JSON string. -/
def textOfCodes (codes : List ℕ) : Option String := (codes.mapM charOfCode).map String.ofList

/-- `as string`. -/
def asString : Value → Option String
  | .string codes => textOfCodes codes
  | _ => none

/-- `as number`, of an integer. -/
def asInteger : Value → Option ℤ
  | .number (some q) => if q.den = 1 then some q.num else none
  | _ => none

/-- `as number`, of a natural number. -/
def asNatural (v : Value) : Option ℕ := (asInteger v).bind Int.toNat?

/-- `as CallName`. -/
def asCallName (v : Value) : Option CallName :=
  (asString v).bind fun text =>
    match text with
    | "open" => some .open_
    | "close" => some .close
    | "write" => some .write
    | "pwrite" => some .pwrite
    | "writev" => some .writev
    | "fsync" => some .fsync
    | "fdatasync" => some .fdatasync
    | "sync_file_range" => some .syncFileRange
    | "ftruncate" => some .ftruncate
    | "truncate" => some .truncate
    | "mkdir" => some .mkdir
    | "unlink" => some .unlink
    | "link" => some .link
    | "rename" => some .rename
    | _ => none

/-- A property of a record, of two members of one name the last one. -/
def property (members : List (List ℕ × Value)) (name : String) : Option Value :=
  members.lookup (keyOf name)

/-- `toEvent`. -/
def toEvent (record : List (List ℕ × Value)) : Option TraceEvent := do
  let index ← (property record "i").bind asNatural
  let completionIndex ← (property record "j").bind asNatural
  let call ← (property record "call").bind asCallName
  let fd ← (property record "fd").bind asInteger
  let threadId ← (property record "tid").bind asInteger
  let path ← (property record "path").bind asString
  let path2 ← (property record "path2").bind asString
  let offset ← (property record "off").bind asInteger
  let length ← (property record "len").bind asNatural
  let returnValue ← (property record "ret").bind asInteger
  let errno ← (property record "err").bind asInteger
  let digest ← (property record "dig").bind asString
  pure ⟨index, completionIndex, call, fd, threadId, path, path2, offset, length, returnValue,
    errno, digest⟩

/-- The marker of a record. -/
def toMarker (record : List (List ℕ × Value)) : Option TraceMarker := do
  let index ← (property record "i").bind asNatural
  let threadId ← (property record "tid").bind asInteger
  let text ← (property record "text").bind asString
  pure ⟨index, threadId, text⟩

/-- The header of a record. Only the first one of a trace is looked at, but here a later one
must have the fields of a header too. -/
def toHeader (record : List (List ℕ × Value)) : Option TraceHeader := do
  let version ← (property record "v").bind asNatural
  let pid ← (property record "pid").bind asInteger
  pure ⟨version, pid⟩

/-- The record of a JSON value, told apart by its `rec` field. Reading a field
of `null` throws; other values that are no objects have no fields. -/
def toRecord : Value → Except Thrown RawRecord
  | .null => .error .typeError
  | .object record =>
      match (property record "rec").bind asString with
      | some "header" => ((toHeader record).map .header).elim (.error .typeError) .ok
      | some "event" => ((toEvent record).map .event).elim (.error .typeError) .ok
      | some "marker" => ((toMarker record).map .marker).elim (.error .typeError) .ok
      | _ => .ok .other
  | _ => .ok .other

/-- The record of a line. -/
def readLine (line : String) : Except Thrown RawRecord :=
  match parse line.toList with
  | none => .error .syntaxError
  | some v => toRecord v

end CrashFuzz
